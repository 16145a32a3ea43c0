import TodoWatch.ReminderLoop
import TodoWatch.Lib.Runs

/-! # Is there one reminder loop?

Each `onStartCommand` posts a check, and a check posts itself again, so the loops add up; and as nothing
removes a pending check, the loops of a service outlive it. -/

namespace TodoWatch
namespace Reminder

variable {p p' : Process} {e : Event}

/-- At most one check is pending while a service lives, and no check is pending or has run after
    `onDestroy` of its service. -/
structure OneLoop (p : Process) : Prop where
  one : p.service ≠ none → p.pending.length ≤ 1
  alive : ∀ owner ∈ p.pending, p.service = some owner
  notLate : p.late = 0

def NothingPending (p : Process) (e : Event) : Prop := e = .onStartCommand ∨ e = .onDestroy → p.pending = []

theorem OneLoop.pending_of_none (h : OneLoop p) (hs : p.service = none) : p.pending = [] := by
  refine List.eq_nil_iff_forall_not_mem.mpr fun owner hmem => ?_
  have halive := h.alive owner hmem
  rw [hs] at halive
  cases halive

theorem oneLoop_die (h : p.late = 0) : OneLoop p.die where
  one hs := absurd rfl hs
  alive _ hmem := by cases hmem
  notLate := h

theorem oneLoop_check (h : OneLoop p) {i owner : Nat} (hi : p.pending[i]? = some owner) (throws : Bool) :
    OneLoop (p.check i owner throws) := by
  have hmem : owner ∈ p.pending := List.mem_of_getElem? hi
  have hservice := h.alive owner hmem
  have hlate : (if p.service = some owner then p.late else p.late + 1) = 0 := by rw [if_pos hservice, h.notLate]
  unfold Process.check
  cases throws with
  | true => exact oneLoop_die hlate
  | false =>
    have hlength : (p.pending.eraseIdx i).length = 0 := by
      have hone := h.one (by rw [hservice]; exact Option.some_ne_none _)
      obtain ⟨hlt, -⟩ := List.getElem?_eq_some_iff.mp hi
      rw [List.length_eraseIdx_of_lt hlt]
      omega
    have hnil := List.eq_nil_of_length_eq_zero hlength
    refine ⟨fun _ => ?_, fun x hx => ?_, hlate⟩
    · simp [Process.postDelayed, hnil]
    · simp only [Process.postDelayed, hnil, Bool.false_eq_true, ↓reduceIte, List.nil_append,
        List.mem_singleton] at hx ⊢
      rw [hx]
      exact hservice

theorem oneLoop_step (h : OneLoop p) (hc : NothingPending p e) (hs : p.step e = some p') : OneLoop p' := by
  cases e with
  | onCreate =>
    simp only [Process.step, Option.ite_none_right_eq_some, Option.some.injEq] at hs
    obtain ⟨hnone, rfl⟩ := hs
    have hnil := h.pending_of_none hnone
    refine ⟨fun _ => ?_, fun owner hmem => ?_, h.notLate⟩
    · simp [Process.onCreate, hnil]
    · simp [Process.onCreate, hnil] at hmem
  | onStartCommand =>
    obtain ⟨owner, hservice, rfl⟩ := Option.map_eq_some_iff.mp hs
    have hnil := hc (Or.inl rfl)
    refine ⟨fun _ => ?_, fun x hx => ?_, h.notLate⟩
    · simp [Process.postDelayed, hnil]
    · simp only [Process.postDelayed, hnil, List.nil_append, List.mem_singleton] at hx ⊢
      rw [hx]
      exact hservice
  | run i throws =>
    obtain ⟨owner, hi, rfl⟩ := Option.map_eq_some_iff.mp hs
    exact oneLoop_check h hi throws
  | onDestroy =>
    obtain ⟨owner, -, rfl⟩ := Option.map_eq_some_iff.mp hs
    have hnil := hc (Or.inr rfl)
    refine ⟨fun hne => absurd rfl hne, fun x hx => ?_, h.notLate⟩
    simp [Process.onDestroy, hnil] at hx
  | killed =>
    obtain rfl := Option.some.inj hs
    exact oneLoop_die h.notLate

/-- A start beside a pending check makes two loops, and a check that is pending at `onDestroy` survives it. -/
theorem not_oneLoop_step (hc : ¬NothingPending p e) (hs : p.step e = some p') : ¬OneLoop p' := by
  intro h'
  obtain ⟨he, hpending⟩ := Classical.not_imp.mp hc
  obtain ⟨owner, hmem⟩ := List.exists_mem_of_ne_nil _ hpending
  rcases he with rfl | rfl
  · obtain ⟨s, hservice, rfl⟩ := Option.map_eq_some_iff.mp hs
    have hone := h'.one (by simp [Process.postDelayed, hservice])
    have hpos := List.length_pos_of_mem hmem
    simp only [Process.postDelayed, List.length_append, List.length_singleton] at hone
    omega
  · obtain ⟨s, -, rfl⟩ := Option.map_eq_some_iff.mp hs
    have halive := h'.alive owner hmem
    cases halive

end Reminder

open Reminder

/-- In a run of the events of the service there is one loop at a time, and none outlives the service, exactly
    when `onStartCommand` and `onDestroy` come only while no check is pending. -/
theorem reminder_oneLoop_iff (events : List Event) :
    Runs.Always Process.step OneLoop .start events ↔ Runs.Meets Process.step NothingPending .start events := by
  have hstart : OneLoop .start := ⟨fun hs => absurd rfl hs, fun _ hmem => absurd hmem List.not_mem_nil, rfl⟩
  exact Runs.always_iff_meets (fun _ _ _ h hc hs => oneLoop_step h hc hs) (fun _ h => h)
    (fun _ _ _ _ hc hs => not_oneLoop_step hc hs) hstart

/-- The activity resumes twice, and the service is destroyed: two checks are pending, and run later. -/
theorem reminder_two_loops :
    (∃ p, Runs.run Process.step .start [.onCreate, .onStartCommand, .onStartCommand] = some p ∧
      p.service = some 0 ∧ p.pending = [0, 0] ∧ ¬OneLoop p) ∧
    ∃ p, Runs.run Process.step .start [.onCreate, .onStartCommand, .onDestroy, .run 0 false] = some p ∧
      p.service = none ∧ p.pending = [0] ∧ p.late = 1 ∧ ¬OneLoop p := by
  refine ⟨⟨_, rfl, rfl, rfl, fun h => ?_⟩, ⟨_, rfl, rfl, rfl, rfl, fun h => ?_⟩⟩
  · exact absurd (h.one (by decide)) (by decide)
  · exact absurd h.notLate (by decide)

end TodoWatch
