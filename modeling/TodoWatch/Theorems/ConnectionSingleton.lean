import TodoWatch.InitRedis
import TodoWatch.Lib.Runs

/-! # Is the connection a singleton?

Two calls return the same client unless some client fails in between: the flag stays up from the first
return on, and under the flag no client is created. But a call that begins under a lowered flag creates a
client whatever became of the others, and these may be open: one that is connecting, or one that the
library reopens after an `error`. -/

namespace TodoWatch
namespace Connection

variable {w w' : World} {e : Event} {c began : Nat}

def AtMostOneOpen (w : World) : Prop :=
  ∀ c d, (w.clients c).isOpen = true → (w.clients d).isOpen = true → c = d

/-- Two calls that returned a client returned the same one, unless some client failed after the first of
    them began and before the last of them returned. -/
def SameClient (w : World) : Prop :=
  ∀ x ∈ w.returns, ∀ y ∈ w.returns, ∀ c d, x.client = some c → y.client = some d →
    max x.ended y.ended ≤ min x.began y.began → c = d

/-- A call that creates a client begins when no client is open. -/
def CreatesAlone (w : World) (e : Event) : Prop :=
  e = .call → w.obj.connected = false → ∀ c, (w.clients c).isOpen = false

/-! ### Steps -/

theorem step_cases (h : w.step e = some w') :
    (e = .call ∧ w' = w.call) ∨
    (∃ c, e = .ready c ∧ (w.clients c).isOpen = true ∧ w' = w.ready c) ∨
    (∃ c, e = .error c ∧ (w.clients c).isOpen = true ∧ w' = w.error c) ∨
    (∃ c, e = .ended c ∧ (w.clients c).isOpen = true ∧ w' = w.ended c) ∨
    (∃ c began, e = .resolved c ∧ (w.clients c).awaited = some began ∧ (w.clients c).wasReady = true ∧
      w' = w.resolved c began) ∨
    (∃ c began, e = .rejected c ∧ (w.clients c).awaited = some began ∧ (w.clients c).wasReady = false ∧
      w' = w.rejected c began) := by
  cases e with
  | call => exact Or.inl ⟨rfl, (Option.some.inj h).symm⟩
  | ready c =>
    simp only [World.step, Option.ite_none_right_eq_some, Option.some.injEq] at h
    exact Or.inr (Or.inl ⟨c, rfl, h.1, h.2.symm⟩)
  | error c =>
    simp only [World.step, Option.ite_none_right_eq_some, Option.some.injEq] at h
    exact Or.inr (Or.inr (Or.inl ⟨c, rfl, h.1, h.2.symm⟩))
  | ended c =>
    simp only [World.step, Option.ite_none_right_eq_some, Option.some.injEq] at h
    exact Or.inr (Or.inr (Or.inr (Or.inl ⟨c, rfl, h.1, h.2.symm⟩)))
  | resolved c =>
    refine Or.inr (Or.inr (Or.inr (Or.inr (Or.inl ⟨c, ?_⟩))))
    simp only [World.step] at h
    split at h
    · rename_i began hbegan
      simp only [Option.ite_none_right_eq_some, Option.some.injEq] at h
      exact ⟨began, rfl, hbegan, h.1, h.2.symm⟩
    · cases h
  | rejected c =>
    refine Or.inr (Or.inr (Or.inr (Or.inr (Or.inr ⟨c, ?_⟩))))
    simp only [World.step] at h
    split at h
    · rename_i began hbegan
      simp only [Option.ite_none_left_eq_some, Option.some.injEq, Bool.not_eq_true] at h
      exact ⟨began, rfl, hbegan, h.1, h.2.symm⟩
    · cases h

theorem call_eq (w : World) :
    (w.obj.connected = true ∧ w.call = w.finish (w.obj, w.obj.client) w.faults) ∨
    (w.obj.connected = false ∧ w.call =
      { w with obj := ⟨false, some w.created⟩, created := w.created + 1 }.setClient w.created
        ⟨true, false, false, some w.faults⟩) := by
  unfold World.call RedisObject.getConnection
  cases h : w.obj.connected with
  | true => exact Or.inl ⟨rfl, rfl⟩
  | false => exact Or.inr ⟨rfl, by simp⟩

/-! ### What the object remembers -/

/-- The clients up to `created` are the ones that were created, and since the last fault the object has
    stored the client that calls returned. -/
structure Books (w : World) : Prop where
  fresh : ∀ c, w.created ≤ c → (w.clients c).isOpen = false ∧ (w.clients c).awaited = none
  awaited : ∀ c began, (w.clients c).awaited = some began → began ≤ w.faults
  times : ∀ x ∈ w.returns, x.began ≤ x.ended ∧ x.ended ≤ w.faults
  latest : ∀ x ∈ w.returns, ∀ c, x.client = some c → x.ended = w.faults →
    w.obj.connected = true ∧ w.obj.client = some c
  same : SameClient w

theorem books_start : Books .start where
  fresh _ _ := ⟨rfl, rfl⟩
  awaited _ _ h := by cases h
  times _ h := by cases h
  latest _ h := by cases h
  same _ h := by cases h

theorem Books.lt_created (h : Books w) (hc : (w.clients c).isOpen = true) : c < w.created := by
  refine Nat.lt_of_not_le fun hle => ?_
  rw [(h.fresh c hle).1] at hc
  cases hc

theorem Books.lt_created_of_awaited (h : Books w) (hc : (w.clients c).awaited = some began) : c < w.created := by
  refine Nat.lt_of_not_le fun hle => ?_
  rw [(h.fresh c hle).2] at hc
  cases hc

theorem Books.setClient (h : Books w) {client : Client} (hc : c < w.created)
    (haw : ∀ began, client.awaited = some began → began ≤ w.faults) : Books (w.setClient c client) where
  fresh d hd := by
    have hne : d ≠ c := by
      rintro rfl
      exact absurd hd (Nat.not_le.mpr hc)
    rw [World.setClient]
    simpa [hne] using h.fresh d hd
  awaited d began hd := by
    by_cases hne : d = c
    · subst hne
      exact haw began (by simpa [World.setClient] using hd)
    · exact h.awaited d began (by simpa [World.setClient, hne] using hd)
  times := h.times
  latest := h.latest
  same := h.same

/-- A call returns nothing, or the client that is stored under the flag. -/
theorem Books.finish (h : Books w) {x : RedisObject × Option Nat} (hb : began ≤ w.faults)
    (hx : x = (w.obj, none) ∨ x = (⟨true, w.obj.client⟩, w.obj.client)) : Books (w.finish x began) := by
  have hlatest : ∀ y ∈ (w.finish x began).returns, ∀ c, y.client = some c → y.ended = w.faults →
      x.1.connected = true ∧ x.1.client = some c := by
    intro y hy c hc hended
    rcases List.mem_cons.mp hy with rfl | hy
    · rcases hx with rfl | rfl
      · cases hc
      · exact ⟨rfl, hc⟩
    · have hobj := h.latest y hy c hc hended
      rcases hx with rfl | rfl
      · exact hobj
      · exact ⟨rfl, hobj.2⟩
  have htimes : ∀ y ∈ (w.finish x began).returns, y.began ≤ y.ended ∧ y.ended ≤ w.faults := by
    intro y hy
    rcases List.mem_cons.mp hy with rfl | hy
    · exact ⟨hb, Nat.le_refl _⟩
    · exact h.times y hy
  refine ⟨h.fresh, h.awaited, htimes, hlatest, ?_⟩
  -- If one of the two returned just now, no client failed after the other began, so both are the latest.
  have hboth : ∀ y ∈ (w.finish x began).returns, ∀ z ∈ (w.finish x began).returns, ∀ c d,
      y.client = some c → z.client = some d → y.ended = w.faults → z.ended = w.faults → c = d := by
    intro y hy z hz c d hc hd hyended hzended
    have hyobj := (hlatest y hy c hc hyended).2
    have hzobj := (hlatest z hz d hd hzended).2
    exact Option.some.inj (hyobj.symm.trans hzobj)
  intro y hy z hz c d hc hd hle
  have hytimes := htimes y hy
  have hztimes := htimes z hz
  by_cases hnow : y.ended = w.faults ∨ z.ended = w.faults
  · exact hboth y hy z hz c d hc hd (by omega) (by omega)
  · rcases List.mem_cons.mp hy with rfl | hy
    · exact absurd rfl (not_or.mp hnow).1
    · rcases List.mem_cons.mp hz with rfl | hz
      · exact absurd rfl (not_or.mp hnow).2
      · exact h.same y hy z hz c d hc hd hle

/-- A fault lowers the flag, and no return is the latest any more. -/
theorem Books.fault (h : Books w) : Books { w with obj := ⟨false, w.obj.client⟩, faults := w.faults + 1 } where
  fresh := h.fresh
  awaited d began hd := Nat.le_succ_of_le (h.awaited d began hd)
  times x hx := ⟨(h.times x hx).1, Nat.le_succ_of_le (h.times x hx).2⟩
  latest x hx c hc hended := by
    have hle := (h.times x hx).2
    dsimp only at hended
    omega
  same := h.same

theorem Books.step (h : Books w) (hs : w.step e = some w') : Books w' := by
  rcases step_cases hs with ⟨-, rfl⟩ | ⟨c, -, hc, rfl⟩ | ⟨c, -, hc, rfl⟩ | ⟨c, -, hc, rfl⟩ |
    ⟨c, began, -, hc, -, rfl⟩ | ⟨c, began, -, hc, -, rfl⟩
  · rcases call_eq w with ⟨hconn, hcall⟩ | ⟨hconn, hcall⟩
    · rw [hcall]
      refine h.finish (Nat.le_refl _) (Or.inr ?_)
      rw [← hconn]
    · rw [hcall]
      -- Under a lowered flag no return is the latest, so the stored client may change.
      have hbooks : Books { w with obj := ⟨false, some w.created⟩, created := w.created + 1 } := by
        refine ⟨fun d hd => h.fresh d (Nat.le_of_succ_le hd), h.awaited, h.times, fun x hx d hd hended => ?_, h.same⟩
        have hobj := (h.latest x hx d hd hended).1
        rw [hconn] at hobj
        cases hobj
      exact hbooks.setClient (Nat.lt_succ_self _) fun began hb => Nat.le_of_eq (Option.some.inj hb).symm
  · have hbooks : Books { w with obj := w.obj.onReady } :=
      ⟨h.fresh, h.awaited, h.times, fun x hx d hd hended => ⟨rfl, (h.latest x hx d hd hended).2⟩, h.same⟩
    exact hbooks.setClient (h.lt_created hc) (h.awaited c)
  · exact h.fault.setClient (h.lt_created hc) fun began hb => Nat.le_succ_of_le (h.awaited c began hb)
  · exact h.fault.setClient (h.lt_created hc) fun began hb => Nat.le_succ_of_le (h.awaited c began hb)
  · have hbooks : Books (w.setClient c { w.clients c with awaited := none }) :=
      h.setClient (h.lt_created_of_awaited hc) fun _ hb => by cases hb
    exact hbooks.finish (h.awaited c began hc) (Or.inr rfl)
  · have hbooks : Books (w.setClient c { w.clients c with awaited := none, isOpen := false }) :=
      h.setClient (h.lt_created_of_awaited hc) fun _ hb => by cases hb
    exact hbooks.finish (h.awaited c began hc) (Or.inl rfl)

/-! ### Open clients -/

theorem isOpen_step (hs : w.step e = some w') :
    (∀ d, (w'.clients d).isOpen = true → (w.clients d).isOpen = true) ∨
    (e = .call ∧ w.obj.connected = false ∧
      ∀ d, (w'.clients d).isOpen = true ↔ d = w.created ∨ (w.clients d).isOpen = true) := by
  have hset : ∀ {v : World} {c : Nat} {client : Client}, (client.isOpen = true → (v.clients c).isOpen = true) →
      ∀ d, ((v.setClient c client).clients d).isOpen = true → (v.clients d).isOpen = true := by
    intro v c client hopen d hd
    by_cases hne : d = c
    · subst hne
      exact hopen (by simpa [World.setClient] using hd)
    · simpa [World.setClient, hne] using hd
  rcases step_cases hs with ⟨rfl, rfl⟩ | ⟨c, -, hc, rfl⟩ | ⟨c, -, hc, rfl⟩ | ⟨c, -, hc, rfl⟩ |
    ⟨c, began, -, -, -, rfl⟩ | ⟨c, began, -, -, -, rfl⟩
  · rcases call_eq w with ⟨-, hcall⟩ | ⟨hconn, hcall⟩
    · rw [hcall]
      exact Or.inl fun d hd => hd
    · rw [hcall]
      refine Or.inr ⟨rfl, hconn, fun d => ?_⟩
      by_cases hd : d = w.created
      · simp [World.setClient, hd]
      · simp [World.setClient, hd]
  · exact Or.inl (hset id)
  · exact Or.inl (hset id)
  · exact Or.inl (hset fun h => by cases h)
  · exact Or.inl (hset id)
  · exact Or.inl (hset fun h => by cases h)

theorem atMostOneOpen_step (h : AtMostOneOpen w) (hc : CreatesAlone w e) (hs : w.step e = some w') :
    AtMostOneOpen w' := by
  rcases isOpen_step hs with hopen | ⟨rfl, hconn, hopen⟩
  · exact fun c d hc hd => h c d (hopen c hc) (hopen d hd)
  · have hnone := hc rfl hconn
    have honly : ∀ d, (w'.clients d).isOpen = true → d = w.created := by
      intro d hd
      rcases (hopen d).mp hd with hd | hd
      · exact hd
      · rw [hnone d] at hd
        cases hd
    exact fun c d hc hd => (honly c hc).trans (honly d hd).symm

theorem not_atMostOneOpen_step (h : Books w) (hc : ¬CreatesAlone w e) (hs : w.step e = some w') :
    ¬AtMostOneOpen w' := by
  simp only [CreatesAlone, Classical.not_imp, not_forall, Bool.not_eq_false] at hc
  obtain ⟨rfl, hconn, c, hc⟩ := hc
  rcases isOpen_step hs with hopen | ⟨-, -, hopen⟩
  · -- The new client is open, and it was not open before.
    have hcreated : w' = w.call := (Option.some.inj hs).symm
    rcases call_eq w with ⟨htrue, -⟩ | ⟨-, hcall⟩
    · rw [hconn] at htrue
      cases htrue
    · have hnew := hopen w.created (by rw [hcreated, hcall]; simp [World.setClient])
      exact absurd (h.lt_created hnew) (Nat.lt_irrefl _)
  · intro hone
    have heq := hone c w.created ((hopen c).mpr (Or.inr hc)) ((hopen w.created).mpr (Or.inl rfl))
    exact absurd (heq ▸ h.lt_created hc) (Nat.lt_irrefl _)

end Connection

open Connection

/-- In every run of calls and events two calls return the same client, unless a client fails in between; and
    at most one client is open at any time exactly when each call that creates a client begins while none
    is open. -/
theorem getConnection_singleton_iff (events : List Event) :
    Runs.Always World.step SameClient .start events ∧
      (Runs.Always World.step (fun w => AtMostOneOpen w ∧ SameClient w) .start events ↔
        Runs.Meets World.step CreatesAlone .start events) := by
  constructor
  · exact (Runs.always_of_inv (fun _ _ _ h _ hs => h.step hs) books_start Runs.meets_true).imp fun _ h => h.same
  · have hinv : Books .start ∧ AtMostOneOpen .start := ⟨books_start, fun c d hc => by cases hc⟩
    refine Runs.always_iff_meets (fun w e w' (h : Books w ∧ AtMostOneOpen w) hc hs => ?_) (fun w h => ?_)
      (fun w e w' h hc hs hgood => ?_) hinv
    · exact ⟨h.1.step hs, atMostOneOpen_step h.2 hc hs⟩
    · exact ⟨h.2, h.1.same⟩
    · exact not_atMostOneOpen_step h.1 hc hs hgood.1

/-- Two calls that overlap create two clients, and both are open. -/
theorem getConnection_two_open :
    ∃ w, Runs.run World.step .start [.call, .call] = some w ∧ ¬AtMostOneOpen w := by
  refine ⟨_, rfl, fun h => ?_⟩
  have hcd := h 0 1 (by decide) (by decide)
  cases hcd

end TodoWatch
