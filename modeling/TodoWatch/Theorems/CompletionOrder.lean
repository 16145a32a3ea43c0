import TodoWatch.Theorems.CompletionEffect
import TodoWatch.Theorems.ConcurrentCompletion

/-! # Concurrent completions come to one after the other

What requests that do not interfere leave in Redis is determined by what they name: a task that is named for its
user has moved to `completed`, and nothing else has changed. That is also what the requests leave that are served
one at a time, in any order. -/

namespace TodoWatch
namespace Delete
open Async

variable {ι : Type} {named : String → String → Prop} {s₀ s s' : Store} {user t : String} {tasks : List String}

/-- `s` is `s₀` with the tasks that are named for a user moved to `completed`. -/
structure CompletesNamed (named : String → String → Prop) (s₀ s : Store) : Prop where
  sets : ∀ u, s₀.IsSet u → s.IsSet u
  remaining : ∀ u t, u ≠ "completed" → (t ∈ s.members u ↔ t ∈ s₀.members u ∧ ¬named u t)
  done : ∀ t, t ∈ s.members "completed" ↔ t ∈ s₀.members "completed" ∨ ∃ u, named u t ∧ t ∈ s₀.members u
  others : ∀ key, key ≠ "completed" → (∀ t, ¬named key t) → s key = s₀ key

/-- Only sets are named, so two such stores are the same. -/
theorem CompletesNamed.unique (h : CompletesNamed named s₀ s) (h' : CompletesNamed named s₀ s')
    (hnamed : ∀ u t, named u t → s₀.IsSet u) (hdone : s₀.IsSet "completed") : s = s' := by
  funext key
  by_cases hkey : key = "completed"
  · subst hkey
    refine Store.eq_of_members (h.sets _ hdone) (h'.sets _ hdone) (Finset.ext fun t => ?_)
    rw [h.done, h'.done]
  · by_cases hnone : ∀ t, ¬named key t
    · rw [h.others key hkey hnone, h'.others key hkey hnone]
    · obtain ⟨t, ht⟩ := not_forall_not.mp hnone
      have hset := hnamed key t ht
      refine Store.eq_of_members (h.sets _ hset) (h'.sets _ hset) (Finset.ext fun x => ?_)
      rw [h.remaining key x hkey, h'.remaining key x hkey]

/-! ### One at a time -/

theorem CompletesNamed.refl (s₀ : Store) : CompletesNamed (fun _ _ => False) s₀ s₀ :=
  ⟨fun _ => id, fun _ _ _ => by simp, fun _ => by simp, fun _ _ _ => rfl⟩

/-- One more request. What was named for its user before has left the set already. -/
theorem CompletesNamed.next (h : CompletesNamed named s₀ s) (hnext : Completes s s' user tasks) (hu : user ≠ "completed")
    (huser : s₀.IsSet user) : CompletesNamed (fun u t => named u t ∨ user = u ∧ t ∈ tasks) s₀ s' where
  sets u hset := by
    by_cases heq : u = user
    · exact heq ▸ hnext.userSet
    · by_cases hdone : u = "completed"
      · exact hdone ▸ hnext.completedSet
      · intro v hv
        rw [hnext.others u heq hdone] at hv
        exact h.sets u hset v hv
  remaining u t hne := by
    by_cases heq : user = u
    · subst heq
      rw [hnext.remaining, Finset.mem_sdiff, h.remaining user t hne, List.mem_toFinset]
      tauto
    · rw [Store.members, hnext.others u (Ne.symm heq) hne, ← Store.members, h.remaining u t hne]
      tauto
  done t := by
    rw [hnext.done, Finset.mem_union, Finset.mem_inter, List.mem_toFinset, h.done, h.remaining user t hu]
    constructor
    · rintro ((hold | ⟨u, hnamed, hmem⟩) | ⟨⟨hmem, -⟩, ht⟩)
      · exact Or.inl hold
      · exact Or.inr ⟨u, Or.inl hnamed, hmem⟩
      · exact Or.inr ⟨user, Or.inr ⟨rfl, ht⟩, hmem⟩
    · rintro (hold | ⟨u, hnamed | ⟨rfl, ht⟩, hmem⟩)
      · exact Or.inl (Or.inl hold)
      · exact Or.inl (Or.inr ⟨u, hnamed, hmem⟩)
      · by_cases hbefore : named user t
        · exact Or.inl (Or.inr ⟨user, hbefore, hmem⟩)
        · exact Or.inr ⟨⟨hmem, hbefore⟩, ht⟩
  others key hne hnone := by
    have hnone' : ∀ t, ¬named key t := fun t ht => hnone t (Or.inl ht)
    rw [← h.others key hne hnone']
    by_cases heq : key = user
    · -- Nothing is named for this user, so the set is as it was.
      subst heq
      have htasks : tasks = [] := List.eq_nil_iff_forall_not_mem.mpr fun t ht => hnone t (Or.inr ⟨rfl, ht⟩)
      refine Store.eq_of_members hnext.userSet (h.sets key huser) ?_
      rw [hnext.remaining, htasks, List.toFinset_nil, Finset.sdiff_empty]
    · exact hnext.others key heq hne

/-- The requests of a list, each served alone after the one before it. -/
def servedInTurn (redis : NodeRedis) (s₀ : Store) (reqs : ι → DeleteRequest) (order : List ι) : Store :=
  order.foldl (fun s i => deleted redis s (reqs i).user (reqs i).tasks .undefined) s₀

def NamedBy (reqs : ι → DeleteRequest) (order : List ι) (u t : String) : Prop :=
  ∃ i ∈ order, (reqs i).user = u ∧ t ∈ (reqs i).tasks

theorem namedBy_nil {reqs : ι → DeleteRequest} : NamedBy reqs [] = fun _ _ => False := by
  funext u t
  simp [NamedBy]

theorem namedBy_concat {reqs : ι → DeleteRequest} {order : List ι} {i : ι} : NamedBy reqs (order ++ [i]) =
    fun u t => NamedBy reqs order u t ∨ (reqs i).user = u ∧ t ∈ (reqs i).tasks := by
  funext u t
  simp [NamedBy, or_and_right, exists_or]

theorem completesNamed_servedInTurn {redis : NodeRedis} {reqs : ι → DeleteRequest} (hu : Users reqs)
    (huser : ∀ i, s₀.IsSet (reqs i).user) (hdone : s₀.IsSet "completed") (order : List ι) :
    CompletesNamed (NamedBy reqs order) s₀ (servedInTurn redis s₀ reqs order) := by
  induction order using List.reverseRecOn with
  | nil =>
    rw [namedBy_nil]
    exact .refl s₀
  | append_singleton order i ih =>
    rw [namedBy_concat, servedInTurn, List.foldl_append]
    exact ih.next (completes_deleted (hu i) (ih.sets _ (huser i)) (ih.sets _ hdone)) (hu i) (huser i)

/-! ### Interleaved -/

namespace Point

/-- The item that a handler has found in the set of its user. -/
def holding : Point → Option String
  | tested true _ t _ => some t
  | removing _ t _ => some t
  | removed _ _ t _ => some t
  | adding _ t _ => some t
  | _ => none

end Point

/-- What the handlers have done so far: items leave the sets of users only for `completed`, and only named ones. -/
structure Moved (s₀ : Store) (reqs : ι → DeleteRequest) (points : ι → Point) (s : Store) : Prop where
  shrinks : ∀ u t, u ≠ "completed" → t ∈ s.members u → t ∈ s₀.members u
  grows : ∀ t, t ∈ s₀.members "completed" → t ∈ s.members "completed"
  source : ∀ t, t ∈ s.members "completed" → t ∈ s₀.members "completed" ∨
    ∃ i, t ∈ (reqs i).tasks ∧ t ∈ s₀.members (reqs i).user
  sets : ∀ u, s₀.IsSet u → s.IsSet u
  others : ∀ key, key ≠ "completed" → (∀ i, (reqs i).user = key → (reqs i).tasks = []) → s key = s₀ key
  holding : ∀ i t, (points i).holding = some t → t ∈ s₀.members (reqs i).user

section Steps
variable [DecidableEq ι] {reqs : ι → DeleteRequest} {points : ι → Point} {i : ι} {p : Point}

theorem holding_enter (done rest : List String) : (Point.enter done rest).holding = none := by
  cases rest <;> rfl

theorem holding_update (h : ∀ i t, (points i).holding = some t → t ∈ s₀.members (reqs i).user)
    (hp : ∀ t, p.holding = some t → t ∈ s₀.members (reqs i).user) :
    ∀ j t, (Function.update points i p j).holding = some t → t ∈ s₀.members (reqs j).user := by
  intro j t ht
  by_cases hj : j = i
  · subst hj
    exact hp t (by simpa using ht)
  · exact h j t (by simpa [hj] using ht)

/-- A step that keeps the store. -/
theorem Moved.move (h : Moved s₀ reqs points s) (hp : ∀ t, p.holding = some t → t ∈ s₀.members (reqs i).user) :
    Moved s₀ reqs (Function.update points i p) s :=
  ⟨h.shrinks, h.grows, h.source, h.sets, h.others, holding_update h.holding hp⟩

theorem Moved.rem (h : Moved s₀ reqs points s) (hu : Users reqs) {n : Nat} {done rest : List String}
    (hp : points i = .removing done t rest) (hmem : t ∈ (reqs i).tasks) :
    Moved s₀ reqs (Function.update points i (.removed n done t rest))
      (s.setMembers (reqs i).user ((s.members (reqs i).user).erase t)) where
  shrinks u x hne hx := by
    rw [Store.members_setMembers] at hx
    split at hx
    · rename_i hu
      exact hu ▸ h.shrinks _ x (hu ▸ hne) (Finset.mem_of_mem_erase hx)
    · exact h.shrinks u x hne hx
  grows x hx := by
    rw [Store.members_setMembers_of_ne (Ne.symm (hu i))]
    exact h.grows x hx
  source x hx := by
    rw [Store.members_setMembers_of_ne (Ne.symm (hu i))] at hx
    exact h.source x hx
  sets u hset := (h.sets u hset).setMembers
  others key hne hnone := by
    have hkey : key ≠ (reqs i).user := fun heq => by
      rw [hnone i heq.symm] at hmem
      exact List.not_mem_nil hmem
    rw [Store.setMembers_of_ne hkey]
    exact h.others key hne hnone
  holding := holding_update h.holding fun x hx => h.holding i x (by rw [hp]; exact hx)

theorem Moved.add (h : Moved s₀ reqs points s) {n : Nat} {done rest : List String} (hp : points i = .adding done t rest)
    (hmem : t ∈ (reqs i).tasks) :
    Moved s₀ reqs (Function.update points i (.added n done t rest))
      (s.setMembers "completed" (insert t (s.members "completed"))) where
  shrinks u x hne hx := by
    rw [Store.members_setMembers_of_ne hne] at hx
    exact h.shrinks u x hne hx
  grows x hx := by
    rw [Store.members_setMembers_self]
    exact Finset.mem_insert_of_mem (h.grows x hx)
  source x hx := by
    rw [Store.members_setMembers_self] at hx
    rcases Finset.mem_insert.mp hx with rfl | hx
    · exact Or.inr ⟨i, hmem, h.holding i x (by rw [hp]; rfl)⟩
    · exact h.source x hx
  sets u hset := (h.sets u hset).setMembers
  others key hne hnone := by
    rw [Store.setMembers_of_ne hne]
    exact h.others key hne hnone
  holding := holding_update h.holding fun x hx => by cases hx

theorem Moved.next (h : Moved s₀ reqs points s) (hinv : Inv s₀ reqs points s) (hu : Users reqs)
    (hn : Next (reqs i).user (reqs i).tasks (points i) s p s') : Moved s₀ reqs (Function.update points i p) s' := by
  have hfits := hinv.fits i
  have hholding := h.holding i
  generalize hp : points i = q at hn hfits hholding
  cases hn with
  | arrive | connect | check | «exists» | absent => exact h.move fun x hx => by cases hx
  | present => exact h.move fun x hx => by rw [holding_enter] at hx; cases hx
  | test _ done t rest =>
    refine h.move fun x hx => ?_
    by_cases ht : t ∈ s.members (reqs i).user
    · simp only [ht, decide_true, Point.holding, Option.some.injEq] at hx
      exact hx ▸ h.shrinks _ t (hu i) ht
    · simp only [ht, decide_false, Point.holding] at hx
      cases hx
  | skip => exact h.move fun x hx => by rw [holding_enter] at hx; cases hx
  | found _ done t rest => exact h.move hholding
  | rem _ n done t rest => exact h.rem hu hp (by rw [show (reqs i).tasks = _ from hfits]; simp)
  | take _ n done t rest => exact h.move hholding
  | add _ n done t rest => exact h.add hp (by rw [show (reqs i).tasks = _ from hfits]; simp)
  | next => exact h.move fun x hx => by rw [holding_enter] at hx; cases hx

end Steps

/-! ### Runs -/

section Runs
variable {redis : NodeRedis} {reqs : ι → DeleteRequest} {w w' : Handlers ι} {i : ι}

/-- `PoolInv` with what the handlers have moved. -/
def MovedInv (s₀ : Store) (reqs : ι → DeleteRequest) (w : Handlers ι) : Prop :=
  ∃ points : ι → Point, (∀ i, w.procs i = (points i).proc (reqs i).user (reqs i).tasks) ∧ HasText w.shared ∧
    Inv s₀ reqs points w.store ∧ Moved s₀ reqs points w.store

theorem movedInv_waiting (huser : ∀ i, s₀.IsSet (reqs i).user) (hdone : s₀.IsSet "completed") :
    MovedInv s₀ reqs (waiting s₀ reqs) :=
  ⟨fun _ => .start, fun _ => rfl, ⟨"undefined", by simp [waiting, Js.toText]⟩,
    { fits := fun _ => trivial
      users := huser
      completed := hdone
      named := fun _ _ h h' => absurd h h'
      passed := fun _ _ h => by cases h
      kept := fun _ _ h => Or.inl h },
    ⟨fun _ _ _ => id, fun _ => id, fun _ => Or.inl, fun _ => id, fun _ _ _ => rfl, fun _ _ h => by cases h⟩⟩

theorem MovedInv.step [DecidableEq ι] (hu : Users reqs) (h : MovedInv s₀ reqs w) (hsteady : steady (w.procs i) w.shared = true)
    (hs : w.step (Redis.exec redis) i = some w') : MovedInv s₀ reqs w' := by
  obtain ⟨points, hprocs, htext, hinv, hmoved⟩ := h
  obtain ⟨p', hnext, hprocs', htext'⟩ := step_next (hprocs i) hsteady htext (hinv.users i) hinv.completed hs
  refine ⟨Function.update points i p', fun j => ?_, htext', hinv.next hu hnext, hmoved.next hinv hu hnext⟩
  rw [hprocs']
  by_cases hj : j = i
  · subst hj
    simp
  · simpa [hj] using hprocs j

/-- Once all handlers have ended, the named tasks have moved. -/
theorem MovedInv.completesNamed (h : MovedInv s₀ reqs w) (hfin : w.Finished) {order : List ι} (hall : ∀ i, i ∈ order) :
    CompletesNamed (NamedBy reqs order) s₀ w.store := by
  obtain ⟨points, hprocs, htext, hinv, hmoved⟩ := h
  have hpool : PoolInv s₀ reqs w := ⟨points, hprocs, htext, hinv⟩
  have hmoves := hpool.noInterference.moved hfin
  refine ⟨hmoved.sets, fun u t hne => ⟨fun ht => ⟨hmoved.shrinks u t hne ht, ?_⟩, ?_⟩, fun t => ⟨fun ht => ?_, ?_⟩,
    fun key hne hnone => hmoved.others key hne fun i hi => ?_⟩
  · rintro ⟨i, -, rfl, hmem⟩
    exact (hmoves i t hmem (hmoved.shrinks _ t hne ht)).1 ht
  · rintro ⟨ht, hnamed⟩
    by_contra hgone
    obtain ⟨i, hi, hmem⟩ := hinv.named u t ht hgone
    exact hnamed ⟨i, hall i, hi, hmem⟩
  · rcases hmoved.source t ht with hold | ⟨i, hmem, hset⟩
    · exact Or.inl hold
    · exact Or.inr ⟨_, ⟨i, hall i, rfl, hmem⟩, hset⟩
  · rintro (hold | ⟨u, ⟨i, -, rfl, hmem⟩, hset⟩)
    · exact hmoved.grows t hold
    · exact (hmoves i t hmem hset).2
  · exact List.eq_nil_iff_forall_not_mem.mpr fun t ht => hnone t ⟨i, hall i, hi, ht⟩

end Runs

end Delete

open Delete

/-- Requests that do not interfere leave, once all have ended, what they leave when they are served one at a time, in
    any order. -/
theorem deleteUserTasks_serializable {ι : Type} [DecidableEq ι] (redis : NodeRedis) (s₀ : Store)
    (reqs : ι → DeleteRequest) (huser : ∀ i, s₀.IsSet (reqs i).user) (hne : ∀ i, (reqs i).user ≠ "completed")
    (hdone : s₀.IsSet "completed") (schedule : List ι)
    (steady : Runs.Meets (Async.Pool.step (Redis.exec redis)) (fun w i => steady (w.procs i) w.shared = true)
      (waiting s₀ reqs) schedule) :
    Runs.Always (Async.Pool.step (Redis.exec redis)) (fun w => w.Finished →
      ∀ order : List ι, (∀ i, i ∈ order) → w.store = servedInTurn redis s₀ reqs order) (waiting s₀ reqs) schedule := by
  refine (Runs.always_of_inv (fun _ _ _ h hc hs => MovedInv.step hne h hc hs) (movedInv_waiting huser hdone) steady).imp
    fun w hw hfin order hall => ?_
  refine (hw.completesNamed hfin hall).unique (completesNamed_servedInTurn hne huser hdone order) ?_ hdone
  rintro u t ⟨i, -, rfl, -⟩
  exact huser i

/-- Both requests check for their user before either goes on. -/
def bothChecked : List Bool :=
  List.replicate 4 true ++ List.replicate 4 false ++ List.replicate 7 true ++ List.replicate 7 false

theorem deleteUserTasks_serializable_both : ∃ w,
    Runs.run (Async.Pool.step (Redis.exec nodeRedis)) (waiting twoUsers twoRequests) bothChecked = some w ∧
      w.Finished ∧ w.store = servedInTurn nodeRedis twoUsers twoRequests [false, true] := by
  have hall := deleteUserTasks_serializable nodeRedis twoUsers twoRequests twoRequests_isSet (by decide)
    (Store.isSet_of_none (by decide)) bothChecked (by decide +kernel)
  have hrun : (Runs.run (Async.Pool.step (Redis.exec nodeRedis)) (waiting twoUsers twoRequests) bothChecked).any
      (fun w => (w.procs true).ended && (w.procs false).ended) = true := by decide +kernel
  obtain ⟨w, hw, hcheck⟩ := (Option.any_eq_true _ _).mp hrun
  obtain ⟨htrue, hfalse⟩ := Bool.and_eq_true_iff.mp hcheck
  have hfin : w.Finished := fun i => by
    cases i
    · exact hfalse
    · exact htrue
  exact ⟨w, hw, hfin, hall.last hw hfin [false, true] (by decide)⟩

end TodoWatch
