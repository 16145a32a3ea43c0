import TodoWatch.Lib.Runs
import TodoWatch.Lib.Spacing
import TodoWatch.Looper

/-! # How often are reminders checked?

Each `onStartCommand` adds a runnable that posts itself again for as long as the process lives. The checks of one
runnable are a period apart at least, so the runnables of a process bound its checks in a period; and when checks
take their time and come late within bounds, a period longer by these bounds has a check of each runnable. -/

namespace TodoWatch
namespace Reminder
namespace Looper

variable {isTestMode : Bool} {l l' : Looper} {e : Event} {work late : Nat}

/-- Each runnable of the process is in the queue once, and its checks are spaced, the last one and the next as well. -/
structure Inv (isTestMode : Bool) (l : Looper) : Prop where
  loops : (l.queue.map Message.runnable).Perm (List.range l.started.length)
  known : ∀ c ∈ l.checks, c.runnable < l.started.length
  spaced : Spacing.Spaced Check.runnable Check.time (period isTestMode) l.checks
  due : ∀ m ∈ l.queue, ∀ c ∈ l.checks, c.runnable = m.runnable → c.time + period isTestMode ≤ m.due

theorem perm_postDelayed (l : Looper) (owner runnable ms : Nat) :
    (l.postDelayed owner runnable ms).queue.Perm (⟨l.uptime + ms, owner, runnable⟩ :: l.queue) :=
  List.perm_orderedInsert _ _ _

theorem mem_postDelayed {m : Message} {owner runnable ms : Nat} :
    m ∈ (l.postDelayed owner runnable ms).queue ↔ m = ⟨l.uptime + ms, owner, runnable⟩ ∨ m ∈ l.queue :=
  (perm_postDelayed l owner runnable ms).mem_iff.trans List.mem_cons

theorem Inv.known_queue (h : Inv isTestMode l) {m : Message} (hm : m ∈ l.queue) : m.runnable < l.started.length :=
  List.mem_range.mp (h.loops.mem_iff.mp (List.mem_map_of_mem hm))

theorem inv_die (l : Looper) : Inv isTestMode l.die where
  loops := List.Perm.refl _
  known c hc := by cases hc
  spaced := List.Pairwise.nil
  due m hm := by cases hm

theorem Inv.onCreate (h : Inv isTestMode l) : Inv isTestMode l.onCreate := ⟨h.loops, h.known, h.spaced, h.due⟩

theorem Inv.onStartCommand (h : Inv isTestMode l) (owner : Nat) : Inv isTestMode (l.onStartCommand owner) := by
  have hstarted : (l.onStartCommand owner).started.length = l.started.length + 1 := List.length_append
  refine ⟨?_, fun c hc => ?_, h.spaced, fun m hm c hc heq => ?_⟩
  · rw [hstarted, List.range_succ]
    exact ((perm_postDelayed l owner _ delay).map _).trans ((h.loops.cons _).trans (List.perm_append_singleton _ _).symm)
  · rw [hstarted]
    exact (h.known c hc).trans (Nat.lt_succ_self _)
  · rcases mem_postDelayed.mp hm with rfl | hm
    · -- No check of the new runnable has run.
      exact absurd heq (h.known c hc).ne
    · exact h.due m hm c hc heq

/-- The first message that runs, with the others. -/
theorem Inv.cons {m : Message} {rest : List Message} (h : Inv isTestMode l) (hqueue : l.queue = m :: rest) :
    m.runnable < l.started.length ∧ ∀ x ∈ rest, x.runnable ≠ m.runnable := by
  refine ⟨h.known_queue (hqueue ▸ List.mem_cons_self), fun x hx heq => ?_⟩
  have hnodup : (l.queue.map Message.runnable).Nodup := h.loops.nodup_iff.mpr List.nodup_range
  rw [hqueue, List.map_cons, List.nodup_cons] at hnodup
  exact hnodup.1 (heq ▸ List.mem_map_of_mem hx)

theorem Inv.check {m : Message} {rest : List Message} (h : Inv isTestMode l) (hqueue : l.queue = m :: rest)
    (hdue : m.due ≤ l.uptime) (throws : Bool) (ms : Nat) : Inv isTestMode (l.check isTestMode m rest throws ms) := by
  cases throws with
  | true => exact inv_die { l with uptime := l.uptime + ms }
  | false =>
    obtain ⟨hknown, hothers⟩ := h.cons hqueue
    have hlast : ∀ c ∈ l.checks, c.runnable = m.runnable → c.time + period isTestMode ≤ l.uptime := fun c hc heq =>
      (h.due m (hqueue ▸ List.mem_cons_self) c hc heq).trans hdue
    refine ⟨?_, fun c hc => ?_, ?_, fun x hx c hc heq => ?_⟩
    · have hloops := h.loops
      rw [hqueue] at hloops
      exact ((perm_postDelayed _ m.owner m.runnable _).map _).trans hloops
    · rcases List.mem_append.mp hc with hc | hc
      · exact h.known c hc
      · rw [List.mem_singleton.mp hc]
        exact hknown
    · refine List.pairwise_append.mpr ⟨h.spaced, List.pairwise_singleton _ _, fun c hc c' hc' heq => ?_⟩
      rw [List.mem_singleton.mp hc'] at heq ⊢
      exact hlast c hc heq
    · rcases mem_postDelayed.mp hx with rfl | hx
      · rcases List.mem_append.mp hc with hc | hc
        · exact (hlast c hc heq).trans ((Nat.le_add_right _ _).trans (Nat.le_add_right _ _))
        · -- The runnable is posted again when it is done, not when it began.
          rw [List.mem_singleton.mp hc]
          exact Nat.add_le_add_right (Nat.le_add_right _ _) _
      · rcases List.mem_append.mp hc with hc | hc
        · exact h.due x (hqueue ▸ List.mem_cons_of_mem m hx) c hc heq
        · rw [List.mem_singleton.mp hc] at heq
          exact absurd heq.symm (hothers x hx)

theorem inv_step (h : Inv isTestMode l) (hs : l.step isTestMode e = some l') : Inv isTestMode l' := by
  cases e with
  | passes ms =>
    obtain rfl := Option.some.inj hs
    exact ⟨h.loops, h.known, h.spaced, h.due⟩
  | onCreate =>
    obtain ⟨-, hs⟩ := Option.ite_none_right_eq_some.mp hs
    obtain rfl := Option.some.inj hs
    exact h.onCreate
  | onStartCommand =>
    obtain ⟨owner, -, rfl⟩ := Option.map_eq_some_iff.mp hs
    exact h.onStartCommand owner
  | run throws ms =>
    obtain ⟨m, rest, hqueue, hdue, rfl⟩ := step_run hs
    exact h.check hqueue hdue throws ms
  | onDestroy =>
    obtain ⟨owner, -, rfl⟩ := Option.map_eq_some_iff.mp hs
    exact ⟨h.loops, h.known, h.spaced, h.due⟩
  | killed =>
    obtain rfl := Option.some.inj hs
    exact inv_die l

/-! ### The process -/

/-- What is left of a looper without its clock. -/
structure Abstracts (l : Looper) (p : Process) : Prop where
  service : p.service = l.service
  created : p.created = l.created
  pending : (l.queue.map Message.owner).Perm p.pending

/-- A step of the looper is one of the process, or only time passes. -/
theorem abstracts_step {p : Process} (h : Abstracts l p) (hs : l.step isTestMode e = some l') :
    Abstracts l' p ∨ ∃ e' p', p.step e' = some p' ∧ Abstracts l' p' := by
  cases e with
  | passes ms =>
    obtain rfl := Option.some.inj hs
    exact Or.inl ⟨h.service, h.created, h.pending⟩
  | onCreate =>
    obtain ⟨hnone, hs⟩ := Option.ite_none_right_eq_some.mp hs
    obtain rfl := Option.some.inj hs
    refine Or.inr ⟨.onCreate, p.onCreate, if_pos (h.service.trans hnone), ?_, ?_, h.pending⟩
    · exact congrArg some h.created
    · exact congrArg (· + 1) h.created
  | onStartCommand =>
    obtain ⟨owner, hservice, rfl⟩ := Option.map_eq_some_iff.mp hs
    refine Or.inr ⟨.onStartCommand, p.postDelayed owner, ?_, h.service, h.created, ?_⟩
    · rw [Process.step, h.service, hservice, Option.map_some]
    · exact ((perm_postDelayed l owner _ delay).map _).trans ((h.pending.cons _).trans (List.perm_append_singleton _ _).symm)
  | run throws ms =>
    obtain ⟨m, rest, hqueue, -, rfl⟩ := step_run hs
    have hpending := h.pending
    rw [hqueue, List.map_cons] at hpending
    obtain ⟨i, hi⟩ := List.mem_iff_getElem?.mp (hpending.mem_iff.mp List.mem_cons_self)
    obtain ⟨hlt, hget⟩ := List.getElem?_eq_some_iff.mp hi
    have hrest : (rest.map Message.owner).Perm (p.pending.eraseIdx i) := by
      refine (List.perm_cons m.owner).mp (hpending.trans ?_)
      have hperm := (List.getElem_cons_eraseIdx_perm hlt).symm
      rwa [hget] at hperm
    refine Or.inr ⟨.run i throws, p.check i m.owner throws, by rw [Process.step, hi, Option.map_some], ?_⟩
    cases throws with
    | true => exact ⟨rfl, h.created, List.Perm.refl _⟩
    | false =>
      refine ⟨h.service, h.created, ?_⟩
      exact ((perm_postDelayed _ m.owner m.runnable _).map _).trans
        ((hrest.cons _).trans (List.perm_append_singleton _ _).symm)
  | onDestroy =>
    obtain ⟨owner, hservice, rfl⟩ := Option.map_eq_some_iff.mp hs
    refine Or.inr ⟨.onDestroy, p.onDestroy, ?_, rfl, h.created, h.pending⟩
    rw [Process.step, h.service, hservice, Option.map_some]
  | killed =>
    obtain rfl := Option.some.inj hs
    exact Or.inr ⟨.killed, p.die, rfl, rfl, h.created, List.Perm.refl _⟩

/-! ### Timely loopers -/

/-- A check takes `work` at most, and no message waits for more than `late` when it is due. -/
def Timely (work late : Nat) (l : Looper) : Event → Prop
  | .passes ms => ∀ m ∈ l.queue, l.uptime + ms ≤ m.due + late
  | .run _ ms => ms ≤ work ∧ ∀ m ∈ l.queue.tail, l.uptime + ms ≤ m.due + late
  | _ => True

instance (work late : Nat) (l : Looper) : ∀ e, Decidable (Timely work late l e)
  | .passes ms => inferInstanceAs (Decidable (∀ m ∈ l.queue, l.uptime + ms ≤ m.due + late))
  | .run _ ms => inferInstanceAs (Decidable (ms ≤ work ∧ ∀ m ∈ l.queue.tail, l.uptime + ms ≤ m.due + late))
  | .onCreate | .onStartCommand | .onDestroy | .killed => isTrue trivial

/-- No message is overdue by more than `late`, and after the first check of a runnable the next one comes within a
    period and both bounds. -/
structure OnTime (isTestMode : Bool) (work late : Nat) (l : Looper) : Prop where
  inv : Inv isTestMode l
  notLate : ∀ m ∈ l.queue, l.uptime ≤ m.due + late
  covered : ∀ m ∈ l.queue, ∀ s, l.started[m.runnable]? = some s → ∀ t, s + delay + late ≤ t → t < m.due + late →
    ∃ c ∈ l.checks, c.runnable = m.runnable ∧ c.time ≤ t ∧ t < c.time + (period isTestMode + work + late)

theorem onTime_die (l : Looper) : OnTime isTestMode work late l.die :=
  ⟨inv_die l, fun m hm => (by cases hm), fun m hm => (by cases hm)⟩

theorem OnTime.onCreate (h : OnTime isTestMode work late l) : OnTime isTestMode work late l.onCreate :=
  ⟨h.inv.onCreate, h.notLate, h.covered⟩

theorem OnTime.onStartCommand (h : OnTime isTestMode work late l) (owner : Nat) :
    OnTime isTestMode work late (l.onStartCommand owner) := by
  refine ⟨h.inv.onStartCommand owner, fun m hm => ?_, fun m hm s hs t hle hlt => ?_⟩
  · rcases mem_postDelayed.mp hm with rfl | hm
    · exact (Nat.le_add_right _ _).trans (Nat.le_add_right _ _)
    · exact h.notLate m hm
  · rcases mem_postDelayed.mp hm with rfl | hm
    · -- The first check of the new runnable is due when its delay is over.
      have hs' : (l.started ++ [l.uptime])[l.started.length]? = some s := hs
      rw [List.getElem?_concat_length] at hs'
      rw [← Option.some.inj hs'] at hle
      exact absurd hlt (Nat.not_lt.mpr hle)
    · have hs' : (l.started ++ [l.uptime])[m.runnable]? = some s := hs
      rw [List.getElem?_append_left (h.inv.known_queue hm)] at hs'
      exact h.covered m hm s hs' t hle hlt

theorem OnTime.check (h : OnTime isTestMode work late l) {m : Message} {rest : List Message}
    (hqueue : l.queue = m :: rest) (hdue : m.due ≤ l.uptime) (throws : Bool) {ms : Nat}
    (hc : Timely work late l (.run throws ms)) : OnTime isTestMode work late (l.check isTestMode m rest throws ms) := by
  obtain ⟨hwork, hrest⟩ := hc
  rw [hqueue, List.tail_cons] at hrest
  cases throws with
  | true => exact onTime_die { l with uptime := l.uptime + ms }
  | false =>
    have hm : m ∈ l.queue := hqueue ▸ List.mem_cons_self
    have hnow := h.notLate m hm
    refine ⟨h.inv.check hqueue hdue false ms, fun x hx => ?_, fun x hx s hs t hle hlt => ?_⟩
    · rcases mem_postDelayed.mp hx with rfl | hx
      · exact (Nat.le_add_right _ _).trans (Nat.le_add_right _ _)
      · exact hrest x hx
    · rcases mem_postDelayed.mp hx with rfl | hx
      · by_cases hbefore : t < m.due + late
        · obtain ⟨c, hc, hwithin⟩ := h.covered m hm s hs t hle hbefore
          exact ⟨c, List.mem_append_left _ hc, hwithin⟩
        · -- The check that runs now is not later than that, and the next one is due a period after it ends.
          have hnext : t < l.uptime + ms + period isTestMode + late := hlt
          refine ⟨⟨m.runnable, l.uptime⟩, List.mem_append_right _ List.mem_cons_self, rfl, ?_, ?_⟩
          · show l.uptime ≤ t
            omega
          · show t < l.uptime + (period isTestMode + work + late)
            omega
      · obtain ⟨c, hc, hwithin⟩ := h.covered x (hqueue ▸ List.mem_cons_of_mem m hx) s hs t hle hlt
        exact ⟨c, List.mem_append_left _ hc, hwithin⟩

theorem onTime_step (h : OnTime isTestMode work late l) (hc : Timely work late l e)
    (hs : l.step isTestMode e = some l') : OnTime isTestMode work late l' := by
  cases e with
  | passes ms =>
    refine ⟨inv_step h.inv hs, ?_, ?_⟩
    · obtain rfl := Option.some.inj hs
      exact hc
    · obtain rfl := Option.some.inj hs
      exact h.covered
  | onCreate =>
    obtain ⟨-, hs⟩ := Option.ite_none_right_eq_some.mp hs
    obtain rfl := Option.some.inj hs
    exact h.onCreate
  | onStartCommand =>
    obtain ⟨owner, -, rfl⟩ := Option.map_eq_some_iff.mp hs
    exact h.onStartCommand owner
  | run throws ms =>
    obtain ⟨m, rest, hqueue, hdue, rfl⟩ := step_run hs
    exact h.check hqueue hdue throws hc
  | onDestroy =>
    obtain ⟨owner, -, rfl⟩ := Option.map_eq_some_iff.mp hs
    exact ⟨inv_step h.inv hs, h.notLate, h.covered⟩
  | killed =>
    obtain rfl := Option.some.inj hs
    exact onTime_die l

theorem Inv.length_queue (h : Inv isTestMode l) : l.queue.length = l.started.length := by
  have hlength := h.loops.length_eq
  rwa [List.length_map, List.length_range] at hlength

/-- A time that has passed since all runnables were due has a check of each, if it is longer than a period by both
    bounds. -/
theorem OnTime.window (h : OnTime isTestMode work late l) {t : Nat} (hstarted : ∀ s ∈ l.started, s + delay ≤ t)
    (ht : t + (period isTestMode + work + late) ≤ l.uptime) :
    l.started.length ≤ (Spacing.window Check.time (period isTestMode + work + late) t l.checks).length := by
  refine @Spacing.le_length_window _ Check.runnable _ _ _ _ _ fun i hi => ?_
  obtain ⟨m, hm, rfl⟩ := List.mem_map.mp (h.inv.loops.mem_iff.mpr (List.mem_range.mpr hi))
  have hpos : 0 < period isTestMode := by cases isTestMode <;> decide
  have hlate := h.notLate m hm
  have hfirst := hstarted _ (List.getElem_mem hi)
  -- The last moment of that time is covered by a check.
  obtain ⟨c, hc, heq, hle, hlt⟩ := h.covered m hm _ (List.getElem?_eq_getElem hi)
    (t + (period isTestMode + work + late) - 1) (by omega) (by omega)
  exact ⟨c, hc, heq, by omega, by omega⟩

end Looper
end Reminder

open Reminder

/-- Each state of a looper is one that the process reaches without the clock: the same service and the same messages. -/
theorem looper_refines (isTestMode : Bool) (events : List Looper.Event) :
    Runs.Always (Looper.step isTestMode) (fun l => ∃ events' p, Runs.run Process.step .start events' = some p ∧
      Looper.Abstracts l p) .start events := by
  refine Runs.always_of_inv (fun l e l' h _ hs => ?_) ⟨[], .start, rfl, rfl, rfl, List.Perm.refl _⟩ Runs.meets_true
  obtain ⟨events', p, hrun, habstracts⟩ := h
  rcases Looper.abstracts_step habstracts hs with hsame | ⟨e', p', hstep, hnext⟩
  · exact ⟨events', p, hrun, hsame⟩
  · exact ⟨events' ++ [e'], p', Runs.run_concat hrun hstep, hnext⟩

/-- At any moment of a run the process has one message for each of its deliveries of `onStartCommand`, and no more
    checks than these in any time that is as long as a period. -/
theorem looper_rate (isTestMode : Bool) (events : List Looper.Event) :
    Runs.Always (Looper.step isTestMode) (fun l => l.queue.length = l.started.length ∧
      ∀ t, (Spacing.window Check.time (period isTestMode) t l.checks).length ≤ l.started.length) .start events := by
  have hstart : Looper.Inv isTestMode .start := Looper.inv_die .start
  refine (Runs.always_of_inv (fun _ _ _ h _ hs => Looper.inv_step h hs) hstart Runs.meets_true).imp fun l h => ?_
  exact ⟨h.length_queue, Spacing.length_window_le h.spaced h.known⟩

/-- When a check takes `work` at most and no message waits for more than `late` when it is due: from the first checks
    on, each time that is longer than a period by both has as many checks as there were deliveries of
    `onStartCommand`, at least, while one as long as a period has no more. -/
theorem looper_keepsPace (isTestMode : Bool) (work late : Nat) (events : List Looper.Event)
    (htimely : Runs.Meets (Looper.step isTestMode) (Looper.Timely work late) .start events) :
    Runs.Always (Looper.step isTestMode) (fun l => ∀ t, (∀ s ∈ l.started, s + delay ≤ t) →
      t + (period isTestMode + work + late) ≤ l.uptime →
        l.started.length ≤ (Spacing.window Check.time (period isTestMode + work + late) t l.checks).length ∧
          (Spacing.window Check.time (period isTestMode) t l.checks).length ≤ l.started.length) .start events := by
  have hstart : Looper.OnTime isTestMode work late .start := Looper.onTime_die .start
  refine (Runs.always_of_inv (fun _ _ _ h hc hs => Looper.onTime_step h hc hs) hstart htimely).imp fun l h => ?_
  intro t hstarted ht
  exact ⟨h.window hstarted ht, Spacing.length_window_le h.inv.spaced h.inv.known t⟩

/-- The activity resumes twice, half a minute apart. The checks take a fifth of a second, and some come a tenth of a
    second late: two in a minute, and still two in that time and these delays. -/
theorem looper_keepsPace_twice :
    let events : List Looper.Event := [.onCreate, .onStartCommand, .passes 30000, .onStartCommand, .passes 30100,
      .run false 200, .passes 29700, .run false 200, .passes 30100, .run false 200, .passes 29800, .run false 200]
    ∃ l, Runs.run (Looper.step true) .start events = some l ∧ l.started = [0, 30000] ∧
      2 ≤ (Spacing.window Check.time 60300 90000 l.checks).length ∧
        (Spacing.window Check.time 60000 90000 l.checks).length ≤ 2 := by
  intro events
  have hall := looper_keepsPace true 200 100 events (by decide)
  obtain ⟨l, hrun, hstarted, huptime⟩ : ∃ l, Runs.run (Looper.step true) .start events = some l ∧
    l.started = [0, 30000] ∧ l.uptime = 150500 := ⟨_, rfl, rfl, rfl⟩
  refine ⟨l, hrun, hstarted, ?_⟩
  have hcount := hall.last hrun 90000 (by rw [hstarted]; decide) (by rw [huptime]; decide)
  rwa [hstarted] at hcount

end TodoWatch
