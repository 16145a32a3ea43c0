import TodoWatch.Theorems.DeletePoints

/-! # Concurrent completions

Any number of `DELETE /watch/:user` requests over one Redis. Two handlers share the global `task`, so one
can move on with the item that another has just written there. As long as every handler finds its own
item in `task`, the requests do not interfere: the invariant says of each item where it is. -/

namespace TodoWatch
namespace Delete
open Async

structure DeleteRequest where
  user : String
  tasks : List String

namespace Point

/-- The items that a handler is through with: they have left the set of its user. -/
def passed (tasks : List String) : Point → List String
  | checked n => if n = 1 then [] else tasks
  | testing done _ _ => done
  | tested found done t _ => if found then done else done ++ [t]
  | removing done _ _ => done
  | removed _ done t _ => done ++ [t]
  | adding done t _ => done ++ [t]
  | added _ done t _ => done ++ [t]
  | finished => tasks
  | _ => []

def Fits (tasks : List String) : Point → Prop
  | testing done t rest => tasks = done ++ t :: rest
  | tested _ done t rest => tasks = done ++ t :: rest
  | removing done t rest => tasks = done ++ t :: rest
  | removed _ done t rest => tasks = done ++ t :: rest
  | adding done t rest => tasks = done ++ t :: rest
  | added _ done t rest => tasks = done ++ t :: rest
  | _ => True

def taken : Point → Option String
  | removed _ _ t _ => some t
  | adding _ t _ => some t
  | _ => none

variable {tasks done rest : List String}

theorem fits_enter (h : tasks = done ++ rest) : (enter done rest).Fits tasks := by
  cases rest with
  | nil => trivial
  | cons t rest => exact h

theorem passed_enter (h : tasks = done ++ rest) : (enter done rest).passed tasks = done := by
  cases rest with
  | nil => simpa [enter, passed] using h
  | cons t rest => rfl

end Point

variable {ι : Type}

/-- What holds while handlers of the requests `reqs` run, from the store `s₀`. -/
structure Inv (s₀ : Store) (reqs : ι → DeleteRequest) (points : ι → Point) (s : Store) : Prop where
  fits : ∀ i, (points i).Fits (reqs i).tasks
  users : ∀ i, s.IsSet (reqs i).user
  completed : s.IsSet "completed"
  named : ∀ u t, t ∈ s₀.members u → t ∉ s.members u → ∃ i, (reqs i).user = u ∧ t ∈ (reqs i).tasks
  passed : ∀ i, ∀ t ∈ (points i).passed (reqs i).tasks, t ∉ s.members (reqs i).user
  kept : ∀ i, ∀ t ∈ s₀.members (reqs i).user,
    t ∈ s.members (reqs i).user ∨ t ∈ s.members "completed" ∨ ∃ j, (points j).taken = some t

section Steps
variable [DecidableEq ι] {s₀ s s' : Store} {reqs : ι → DeleteRequest} {points : ι → Point} {i : ι} {p : Point}

def Users (reqs : ι → DeleteRequest) : Prop := ∀ i, (reqs i).user ≠ "completed"

/-- A step that keeps the store, and whose handler is through with the same items or with an item that the
    set has not. -/
theorem Inv.move (h : Inv s₀ reqs points s) (hfits : p.Fits (reqs i).tasks)
    (hpassed : ∀ t ∈ p.passed (reqs i).tasks, t ∉ s.members (reqs i).user)
    (htaken : ∀ t, (points i).taken = some t → p.taken = some t ∨ t ∈ s.members "completed") :
    Inv s₀ reqs (Function.update points i p) s where
  fits j := by
    by_cases hj : j = i
    · subst hj
      simpa using hfits
    · simpa [hj] using h.fits j
  users := h.users
  completed := h.completed
  named := h.named
  passed j := by
    by_cases hj : j = i
    · subst hj
      simpa using hpassed
    · simpa [hj] using h.passed j
  kept j t ht := by
    rcases h.kept j t ht with h' | h' | ⟨k, hk⟩
    · exact Or.inl h'
    · exact Or.inr (Or.inl h')
    · by_cases hki : k = i
      · subst hki
        rcases htaken t hk with h' | h'
        · exact Or.inr (Or.inr ⟨k, by simpa using h'⟩)
        · exact Or.inr (Or.inl h')
      · exact Or.inr (Or.inr ⟨k, by simpa [hki] using hk⟩)

theorem Inv.rem (h : Inv s₀ reqs points s) (hu : Users reqs) {n : Nat} {done rest : List String} {t : String}
    (hp : points i = .removing done t rest) :
    Inv s₀ reqs (Function.update points i (.removed n done t rest))
      (s.setMembers (reqs i).user ((s.members (reqs i).user).erase t)) := by
  have hfits : (reqs i).tasks = done ++ t :: rest := by simpa [hp, Point.Fits] using h.fits i
  -- Sets only shrink, and only by `t` in the set of this user.
  have hmem : ∀ u x, x ∈ (s.setMembers (reqs i).user ((s.members (reqs i).user).erase t)).members u ↔
      x ∈ s.members u ∧ (u = (reqs i).user → x ≠ t) := by
    intro u x
    rw [Store.members_setMembers]
    split
    · rename_i hu
      subst hu
      simp [and_comm]
    · rename_i hu
      simp [hu]
  refine ⟨fun j => ?_, fun j => (h.users j).setMembers, h.completed.setMembers, fun u x hx hx' => ?_,
    fun j x hx => ?_, fun j x hx => ?_⟩
  · by_cases hj : j = i
    · subst hj
      simpa [Point.Fits] using hfits
    · simpa [hj] using h.fits j
  · by_cases hxs : x ∈ s.members u
    · rw [hmem] at hx'
      simp only [hxs, true_and, Classical.not_imp, ne_eq, not_not] at hx'
      exact ⟨i, hx'.1.symm, by rw [hfits, hx'.2]; simp⟩
    · exact h.named u x hx hxs
  · rw [hmem]
    rintro ⟨hxs, hne⟩
    by_cases hj : j = i
    · subst hj
      simp only [Function.update_self, Point.passed, List.mem_append, List.mem_singleton] at hx
      rcases hx with hx | hx
      · exact h.passed j x (by simpa [hp, Point.passed] using hx) hxs
      · exact hne rfl hx
    · exact h.passed j x (by simpa [hj] using hx) hxs
  · have hc : x ∈ s.members "completed" →
        x ∈ (s.setMembers (reqs i).user ((s.members (reqs i).user).erase t)).members "completed" :=
      fun hx => (hmem _ x).mpr ⟨hx, fun h => absurd h.symm (hu i)⟩
    rcases h.kept j x hx with hx' | hx' | ⟨k, hk⟩
    · by_cases hxt : (reqs j).user = (reqs i).user ∧ x = t
      · exact Or.inr (Or.inr ⟨i, by simp [Point.taken, hxt.2]⟩)
      · exact Or.inl ((hmem _ x).mpr ⟨hx', fun hu' ht' => hxt ⟨hu', ht'⟩⟩)
    · exact Or.inr (Or.inl (hc hx'))
    · by_cases hki : k = i
      · subst hki
        simp [hp, Point.taken] at hk
      · exact Or.inr (Or.inr ⟨k, by simpa [hki] using hk⟩)

theorem Inv.add (h : Inv s₀ reqs points s) (hu : Users reqs) {n : Nat} {done rest : List String} {t : String}
    (hp : points i = .adding done t rest) :
    Inv s₀ reqs (Function.update points i (.added n done t rest))
      (s.setMembers "completed" (insert t (s.members "completed"))) := by
  have huser : ∀ j, (s.setMembers "completed" (insert t (s.members "completed"))).members (reqs j).user =
      s.members (reqs j).user := fun j => Store.members_setMembers_of_ne (hu j)
  refine ⟨fun j => ?_, fun j => (h.users j).setMembers, h.completed.setMembers, fun u x hx hx' => ?_,
    fun j x hx => ?_, fun j x hx => ?_⟩
  · by_cases hj : j = i
    · subst hj
      simpa [hp, Point.Fits] using h.fits j
    · simpa [hj] using h.fits j
  · refine h.named u x hx fun hxs => hx' ?_
    rw [Store.members_setMembers]
    split
    · rename_i hu
      subst hu
      exact Finset.mem_insert_of_mem hxs
    · exact hxs
  · rw [huser]
    by_cases hj : j = i
    · subst hj
      exact h.passed j x (by simpa [hp, Point.passed] using hx)
    · exact h.passed j x (by simpa [hj] using hx)
  · rw [huser, Store.members_setMembers_self]
    rcases h.kept j x hx with hx' | hx' | ⟨k, hk⟩
    · exact Or.inl hx'
    · exact Or.inr (Or.inl (Finset.mem_insert_of_mem hx'))
    · by_cases hki : k = i
      · subst hki
        simp only [hp, Point.taken, Option.some.injEq] at hk
        subst hk
        exact Or.inr (Or.inl (Finset.mem_insert_self _ _))
      · exact Or.inr (Or.inr ⟨k, by simpa [hki] using hk⟩)

theorem Inv.next (h : Inv s₀ reqs points s) (hu : Users reqs)
    (hn : Next (reqs i).user (reqs i).tasks (points i) s p s') : Inv s₀ reqs (Function.update points i p) s' := by
  have hfits := h.fits i
  have hpassed := h.passed i
  generalize hp : points i = q at hn hfits hpassed
  cases hn with
  | arrive | connect | check =>
    exact h.move trivial (by simp [Point.passed]) (by simp [hp, Point.taken])
  | «exists» =>
    refine h.move trivial (fun t ht hmem => ?_) (by simp [hp, Point.taken])
    -- A user without a key has no item to lose.
    have hsome : (s (reqs i).user).isSome = true := (h.users i).isSome_iff.mpr ⟨t, hmem⟩
    simp [Point.passed, hsome] at ht
  | absent _ n hn =>
    exact h.move trivial (by simpa [Point.passed, hn] using hpassed) (by simp [hp, Point.taken])
  | present =>
    have hfits' : (reqs i).tasks = [] ++ (reqs i).tasks := rfl
    exact h.move (Point.fits_enter hfits') (by rw [Point.passed_enter hfits']; simp) (by simp [hp, Point.taken])
  | test _ done t rest =>
    refine h.move hfits (fun x hx => ?_) (by simp [hp, Point.taken])
    by_cases ht : t ∈ s.members (reqs i).user
    · exact hpassed x (by simpa [Point.passed, ht] using hx)
    · simp only [Point.passed, ht, decide_false, Bool.false_eq_true, ↓reduceIte, List.mem_append,
        List.mem_singleton] at hx
      rcases hx with hx | rfl
      · exact hpassed x hx
      · exact ht
  | skip _ done t rest =>
    have hfits' : (reqs i).tasks = (done ++ [t]) ++ rest := by simpa [Point.Fits] using hfits
    exact h.move (Point.fits_enter hfits') (by rw [Point.passed_enter hfits']; exact hpassed)
      (by simp [hp, Point.taken])
  | found _ done t rest =>
    exact h.move hfits hpassed (by simp [hp, Point.taken])
  | rem _ n done t rest => exact h.rem hu hp
  | take _ n done t rest =>
    exact h.move hfits hpassed (by simp [hp, Point.taken])
  | add _ n done t rest => exact h.add hu hp
  | next _ n done t rest =>
    have hfits' : (reqs i).tasks = (done ++ [t]) ++ rest := by simpa [Point.Fits] using hfits
    exact h.move (Point.fits_enter hfits') (by rw [Point.passed_enter hfits']; exact hpassed)
      (by simp [hp, Point.taken])

end Steps

/-! ### Runs -/

section Runs
variable {redis : NodeRedis} {s₀ : Store} {reqs : ι → DeleteRequest} {w w' : Handlers ι} {i : ι}

def waiting (s₀ : Store) (reqs : ι → DeleteRequest) : Handlers ι where
  store := s₀
  shared := .undefined
  procs i := .idle (handler (reqs i).user (reqs i).tasks)
  out _ := []

/-- Every handler stands at a point of its request, and the invariant holds of the points. -/
def PoolInv (s₀ : Store) (reqs : ι → DeleteRequest) (w : Handlers ι) : Prop :=
  ∃ points : ι → Point, (∀ i, w.procs i = (points i).proc (reqs i).user (reqs i).tasks) ∧ HasText w.shared ∧
    Inv s₀ reqs points w.store

theorem poolInv_waiting (huser : ∀ i, s₀.IsSet (reqs i).user) (hdone : s₀.IsSet "completed") :
    PoolInv s₀ reqs (waiting s₀ reqs) :=
  ⟨fun _ => .start, fun _ => rfl, ⟨"undefined", by simp [waiting, Js.toText]⟩,
    { fits := fun _ => trivial
      users := huser
      completed := hdone
      named := fun _ _ h h' => absurd h h'
      passed := fun _ _ h => by cases h
      kept := fun _ _ h => Or.inl h }⟩

theorem eq_finished {user : String} {tasks : List String} {p : Point}
    (h : (p.proc user tasks).ended = true) : p = .finished := by
  cases p <;> first | rfl | cases h

/-- What the requests promise: an item leaves the set of a user only if a request for that user names it,
    and once all handlers have ended, the items of a user that a request names are completed. -/
structure NoInterference (s₀ : Store) (reqs : ι → DeleteRequest) (w : Handlers ι) : Prop where
  named : ∀ u t, t ∈ s₀.members u → t ∉ w.store.members u → ∃ i, (reqs i).user = u ∧ t ∈ (reqs i).tasks
  moved : w.Finished → ∀ i, ∀ t ∈ (reqs i).tasks, t ∈ s₀.members (reqs i).user →
    t ∉ w.store.members (reqs i).user ∧ t ∈ w.store.members "completed"

theorem PoolInv.noInterference (h : PoolInv s₀ reqs w) : NoInterference s₀ reqs w := by
  obtain ⟨points, hprocs, -, hinv⟩ := h
  refine ⟨hinv.named, fun hfin i t ht hmem => ?_⟩
  have hpoints : ∀ j, points j = .finished := fun j => eq_finished (by rw [← hprocs j]; exact hfin j)
  have hgone : t ∉ w.store.members (reqs i).user := hinv.passed i t (by simpa [hpoints i, Point.passed] using ht)
  refine ⟨hgone, ?_⟩
  rcases hinv.kept i t hmem with h' | h' | ⟨j, hj⟩
  · exact absurd h' hgone
  · exact h'
  · simp [hpoints j, Point.taken] at hj

theorem PoolInv.step [DecidableEq ι] (hu : Users reqs) (h : PoolInv s₀ reqs w) (hsteady : steady (w.procs i) w.shared = true)
    (hs : w.step (Redis.exec redis) i = some w') : PoolInv s₀ reqs w' := by
  obtain ⟨points, hprocs, htext, hinv⟩ := h
  obtain ⟨p', hnext, hprocs', htext'⟩ :=
    step_next (hprocs i) hsteady htext (hinv.users i) hinv.completed hs
  refine ⟨Function.update points i p', fun j => ?_, htext', hinv.next hu hnext⟩
  rw [hprocs']
  by_cases hj : j = i
  · subst hj
    simp
  · simpa [hj] using hprocs j

end Runs

end Delete

open Delete

/-- In every run of any number of requests in which a handler that goes on after `sIsMember` or `sRem`
    finds its own item in the global `task`, the requests do not interfere. -/
theorem deleteUserTasks_noInterference {ι : Type} [DecidableEq ι] (redis : NodeRedis) (s₀ : Store)
    (reqs : ι → DeleteRequest) (huser : ∀ i, s₀.IsSet (reqs i).user) (hne : ∀ i, (reqs i).user ≠ "completed")
    (hdone : s₀.IsSet "completed") (schedule : List ι)
    (steady : Runs.Meets (Async.Pool.step (Redis.exec redis)) (fun w i => steady (w.procs i) w.shared = true)
      (waiting s₀ reqs) schedule) :
    Runs.Always (Async.Pool.step (Redis.exec redis)) (NoInterference s₀ reqs) (waiting s₀ reqs) schedule :=
  (Runs.always_of_inv (fun _ _ _ h hc hs => PoolInv.step hne h hc hs) (poolInv_waiting huser hdone) steady).imp
    fun _ h => h.noInterference

def twoUsers : Store :=
  Store.setMembers (Store.setMembers (fun _ => none) "123" {"Buy milk", "Buy bread"}) "team4" {"Buy bread"}

def twoRequests : Bool → DeleteRequest
  | true => ⟨"123", ["Buy milk"]⟩
  | false => ⟨"team4", ["Buy bread"]⟩

theorem twoRequests_isSet : ∀ i, twoUsers.IsSet (twoRequests i).user
  | true => (Store.isSet_setMembers_self).setMembers
  | false => Store.isSet_setMembers_self

/-- The request for `team4` starts and finds its user while the one for `123` awaits the reply to `sIsMember`, and
    names its item when the other one is through. -/
theorem deleteUserTasks_noInterference_overlap :
    Runs.Always (Async.Pool.step (Redis.exec nodeRedis)) (NoInterference twoUsers twoRequests)
      (waiting twoUsers twoRequests)
      (List.replicate 6 true ++ List.replicate 4 false ++ List.replicate 5 true ++ List.replicate 7 false) :=
  deleteUserTasks_noInterference nodeRedis twoUsers twoRequests twoRequests_isSet (by decide)
    (Store.isSet_of_none (by decide)) _ (by decide +kernel)

/-- The request for `team4` starts while the one for `123` awaits the reply to `sIsMember`: then `123`
    loses an item that only the other request names, and keeps the item that its own request names. -/
theorem deleteUserTasks_interference : ∃ w,
    Runs.run (Async.Pool.step (Redis.exec nodeRedis)) (waiting twoUsers twoRequests)
        (List.replicate 6 true ++ List.replicate 5 false ++ List.replicate 5 true ++ List.replicate 6 false) =
      some w ∧ w.Finished ∧ "Buy bread" ∈ twoUsers.members "123" ∧ "Buy bread" ∉ w.store.members "123" ∧
      "Buy milk" ∈ w.store.members "123" ∧ ¬NoInterference twoUsers twoRequests w := by
  have hrun : (Runs.run (Async.Pool.step (Redis.exec nodeRedis)) (waiting twoUsers twoRequests)
      (List.replicate 6 true ++ List.replicate 5 false ++ List.replicate 5 true ++ List.replicate 6 false)).any
      (fun w => (w.procs true).ended && (w.procs false).ended && !decide ("Buy bread" ∈ w.store.members "123") &&
        decide ("Buy milk" ∈ w.store.members "123")) = true := by decide +kernel
  obtain ⟨w, hw, hcheck⟩ := (Option.any_eq_true _ _).mp hrun
  simp only [Bool.and_eq_true, Bool.not_eq_true', decide_eq_false_iff_not, decide_eq_true_eq] at hcheck
  obtain ⟨⟨⟨htrue, hfalse⟩, hbread⟩, hmilk⟩ := hcheck
  refine ⟨w, hw, fun i => ?_, by decide, hbread, hmilk, fun h => ?_⟩
  · cases i
    · exact hfalse
    · exact htrue
  · obtain ⟨i, hi, ht⟩ := h.named "123" "Buy bread" (by decide) hbread
    revert hi ht
    cases i <;> decide

end TodoWatch
