import TodoWatch.Theorems.DeleteAlone

/-! # What does a completed `DELETE` leave?

A request that is handled alone moves its tasks from the set of its user to `completed`. What it leaves is
determined by the sets that it found, and one request after another comes to one request with both lists, so
requests for one user can be repeated and exchanged. -/

namespace TodoWatch

/-- A key that is absent or holds a set is determined by its members. -/
theorem Store.eq_of_members {s s' : Store} {k : String} (h : s.IsSet k) (h' : s'.IsSet k)
    (hmembers : s.members k = s'.members k) : s k = s' k := by
  unfold Store.members at hmembers
  cases hk : s k with
  | none =>
    cases hk' : s' k with
    | none => rfl
    | some v' =>
      obtain ⟨m', rfl⟩ := h' v' hk'
      rw [hk, hk'] at hmembers
      exact absurd hmembers.symm m'.2.ne_empty
  | some v =>
    obtain ⟨m, rfl⟩ := h v hk
    cases hk' : s' k with
    | none =>
      rw [hk, hk'] at hmembers
      exact absurd hmembers m.2.ne_empty
    | some v' =>
      obtain ⟨m', rfl⟩ := h' v' hk'
      rw [hk, hk'] at hmembers
      rw [Subtype.ext hmembers]

namespace Delete
open Async

variable {redis : NodeRedis} {s a b : Store} {user t : String} {tasks tasks' : List String} {k : Nat} {task : Js}

/-- `s'` is `s` with the tasks moved from the set of the user to `completed`. -/
structure Completes (s s' : Store) (user : String) (tasks : List String) : Prop where
  userSet : s'.IsSet user
  completedSet : s'.IsSet "completed"
  remaining : s'.members user = s.members user \ tasks.toFinset
  done : s'.members "completed" = s.members "completed" ∪ (s.members user ∩ tasks.toFinset)
  others : ∀ key, key ≠ user → key ≠ "completed" → s' key = s key

/-! ### Requests in turn -/

theorem Completes.unique (h : Completes s a user tasks) (h' : Completes s b user tasks) : a = b := by
  funext key
  by_cases hkey : key = user
  · subst hkey
    exact Store.eq_of_members h.userSet h'.userSet (h.remaining.trans h'.remaining.symm)
  · by_cases hdone : key = "completed"
    · subst hdone
      exact Store.eq_of_members h.completedSet h'.completedSet (h.done.trans h'.done.symm)
    · exact (h.others key hkey hdone).trans (h'.others key hkey hdone).symm

theorem Completes.trans (h : Completes s a user tasks) (h' : Completes a b user tasks') :
    Completes s b user (tasks ++ tasks') where
  userSet := h'.userSet
  completedSet := h'.completedSet
  remaining := by
    rw [h'.remaining, h.remaining, List.toFinset_append]
    ext x
    simp only [Finset.mem_sdiff, Finset.mem_union, not_or, and_assoc]
  done := by
    rw [h'.done, h.done, h.remaining, List.toFinset_append]
    ext x
    simp only [Finset.mem_sdiff, Finset.mem_union, Finset.mem_inter]
    tauto
  others key hkey hdone := (h'.others key hkey hdone).trans (h.others key hkey hdone)

theorem Completes.congr (h : Completes s a user tasks) (heq : tasks.toFinset = tasks'.toFinset) :
    Completes s a user tasks' where
  userSet := h.userSet
  completedSet := h.completedSet
  remaining := heq ▸ h.remaining
  done := heq ▸ h.done
  others := h.others

theorem Completes.gone (h : Completes s a user tasks) (hempty : s.members user \ tasks.toFinset = ∅) :
    a user = none := by
  rw [← Option.not_isSome_iff_eq_none, h.userSet.isSome_iff, h.remaining, hempty]
  exact Finset.not_nonempty_empty

/-- Nothing of the user is named. -/
theorem Completes.of_not_mem (huser : s.IsSet user) (hdone : s.IsSet "completed")
    (h : ∀ t ∈ tasks, t ∉ s.members user) : Completes s s user tasks where
  userSet := huser
  completedSet := hdone
  remaining := by
    refine (Finset.sdiff_eq_self_of_disjoint (Finset.disjoint_left.mpr fun x hx ht => ?_)).symm
    exact h x (List.mem_toFinset.mp ht) hx
  done := by
    have hinter : s.members user ∩ tasks.toFinset = ∅ :=
      Finset.disjoint_iff_inter_eq_empty.mp
        (Finset.disjoint_left.mpr fun x hx ht => h x (List.mem_toFinset.mp ht) hx)
    rw [hinter, Finset.union_empty]
  others _ _ _ := rfl

theorem completes_moved (hu : user ≠ "completed") (huser : s.IsSet user) (hdone : s.IsSet "completed")
    (ht : t ∈ s.members user) : Completes s (moved s user t) user [t] where
  userSet := isSet_moved huser
  completedSet := isSet_moved hdone
  remaining := by
    rw [members_moved_user ht, after, if_neg hu, Finset.erase_eq]
    rfl
  done := by
    rw [members_moved_completed hu]
    ext x
    simp only [Finset.mem_insert, Finset.mem_union, Finset.mem_inter, List.mem_toFinset, List.mem_singleton]
    constructor
    · rintro (rfl | hx)
      · exact Or.inr ⟨ht, rfl⟩
      · exact Or.inl hx
    · rintro (hx | ⟨-, rfl⟩)
      · exact Or.inr hx
      · exact Or.inl rfl
  others key hkey hcompleted := by
    rw [moved, Store.setMembers_of_ne hcompleted, without, Store.setMembers_of_ne hkey]

/-! ### The loop -/

/-- Each pass completes its own item, so the passes complete the list. -/
theorem loop_completes (hu : user ≠ "completed") (huser : s.IsSet user) (hdone : s.IsSet "completed") :
    ∃ s' n, (run (execUnder redis .none) (loop user (tasks.map .str)) task (s, k)).brief =
        (some (), (s', n), [⟨200, "Your tasks are registered to be completed."⟩]) ∧
      Completes s s' user tasks := by
  induction tasks generalizing s k task with
  | nil => exact ⟨s, k, rfl, .of_not_mem huser hdone fun _ ht => absurd ht List.not_mem_nil⟩
  | cons t tasks ih =>
    rw [List.map_cons, brief_loop_cons huser]
    simp only [Faults.none, Bool.false_eq_true, ↓reduceIte]
    by_cases ht : t ∈ s.members user
    · obtain ⟨s', n, hrun, hrest⟩ := @ih (moved s user t) (k + 3) (.str t) (isSet_moved huser) (isSet_moved hdone)
      rw [if_neg (not_not_intro ht), if_neg (by simp [isSet_without hdone])]
      exact ⟨s', n, hrun, (completes_moved hu huser hdone ht).trans hrest⟩
    · obtain ⟨s', n, hrun, hrest⟩ := @ih s (k + 1) (.str t) huser hdone
      have hpass : Completes s s user [t] := .of_not_mem huser hdone fun x hx => by rwa [List.mem_singleton.mp hx]
      rw [if_pos ht]
      exact ⟨s', n, hrun, hpass.trans hrest⟩

def deleted (redis : NodeRedis) (s : Store) (user : String) (tasks : List String) (task : Js) : Store :=
  (serve redis .none (.deleteWatch user (tasksBody tasks)) task s).store.1

/-- A request for a user without a key finds nothing to complete. -/
theorem completes_deleted (hu : user ≠ "completed") (huser : s.IsSet user) (hdone : s.IsSet "completed") :
    Completes s (deleted redis s user tasks task) user tasks := by
  have hstore : deleted redis s user tasks task =
      (serve redis .none (.deleteWatch user (tasksBody tasks)) task s).brief.2.1.1 := rfl
  rw [hstore, brief_serve_delete, if_neg (by simp [Faults.none]), if_neg (by simp [Faults.none])]
  split
  · obtain ⟨s', n, hrun, hcompletes⟩ := @loop_completes redis s user tasks 1 task hu huser hdone
    rw [hrun]
    exact hcompletes
  · rename_i habsent
    refine .of_not_mem huser hdone fun t _ ht => habsent (huser.isSome_iff.mpr ⟨t, ht⟩)

theorem sent_delete (hu : user ≠ "completed") (huser : s.IsSet user) (hne : (s.members user).Nonempty)
    (hdone : s.IsSet "completed") : (serve redis .none (.deleteWatch user (tasksBody tasks)) task s).sent =
      [⟨200, "Your tasks are registered to be completed."⟩] := by
  have hsent : (serve redis .none (.deleteWatch user (tasksBody tasks)) task s).sent =
      (serve redis .none (.deleteWatch user (tasksBody tasks)) task s).brief.2.2 := rfl
  obtain ⟨s', n, hrun, -⟩ := @loop_completes redis s user tasks 1 task hu huser hdone
  rw [hsent, brief_serve_delete, if_neg (by simp [Faults.none]), if_neg (by simp [Faults.none]),
    if_pos (huser.isSome_iff.mpr hne), hrun]

end Delete

open Delete

/-- A request that completes tasks of a user with open tasks is answered with 200 and moves exactly these tasks. A
    repetition changes nothing, and of two requests for the user either may come first. -/
theorem deleteUserTasks_completes (redis : NodeRedis) {s : Store} {user : String} (hu : user ≠ "completed")
    (huser : s.IsSet user) (hne : (s.members user).Nonempty) (hdone : s.IsSet "completed") (tasks : List String)
    (task : Js) :
    (serve redis .none (.deleteWatch user (tasksBody tasks)) task s).sent =
        [⟨200, "Your tasks are registered to be completed."⟩] ∧
      Completes s (deleted redis s user tasks task) user tasks ∧
      (s.members user \ tasks.toFinset = ∅ → deleted redis s user tasks task user = none) ∧
      (∀ task', deleted redis (deleted redis s user tasks task) user tasks task' = deleted redis s user tasks task) ∧
      ∀ tasks' task₁ task₂ task₃, deleted redis (deleted redis s user tasks task) user tasks' task₁ =
        deleted redis (deleted redis s user tasks' task₂) user tasks task₃ := by
  have hfirst : ∀ tasks task, Completes s (deleted redis s user tasks task) user tasks := fun _ _ =>
    completes_deleted hu huser hdone
  have htwice : ∀ tasks tasks' task task', Completes s
      (deleted redis (deleted redis s user tasks task) user tasks' task') user (tasks ++ tasks') :=
    fun tasks _ task _ => (hfirst tasks task).trans
      (completes_deleted hu (hfirst tasks task).userSet (hfirst tasks task).completedSet)
  refine ⟨sent_delete hu huser hne hdone, hfirst tasks task, (hfirst tasks task).gone, fun task' => ?_,
    fun tasks' task₁ task₂ task₃ => ?_⟩
  · exact ((htwice tasks tasks task task').congr (by simp)).unique (hfirst tasks task)
  · refine ((htwice tasks tasks' task task₁).congr ?_).unique (htwice tasks' tasks task₂ task₃)
    rw [List.toFinset_append, List.toFinset_append, Finset.union_comm]

def shopping : Store := Store.setMembers (fun _ => none) "456" {"Buy milk", "Buy bread"}

theorem deleteUserTasks_completes_milk :
    (serve nodeRedis .none (.deleteWatch "456" (tasksBody ["Buy milk", "Buy eggs", "Buy milk"])) .undefined
        shopping).sent = [⟨200, "Your tasks are registered to be completed."⟩] ∧
      (deleted nodeRedis shopping "456" ["Buy milk", "Buy eggs", "Buy milk"] .undefined).members "456" =
        {"Buy bread"} := by
  have hset : shopping.IsSet "456" := Store.isSet_setMembers_self
  have hnone : shopping "completed" = none := by decide
  obtain ⟨hsent, hcompletes, -⟩ := deleteUserTasks_completes nodeRedis (by decide) hset (by decide)
    (Store.isSet_of_none hnone) ["Buy milk", "Buy eggs", "Buy milk"] .undefined
  exact ⟨hsent, hcompletes.remaining.trans (by decide)⟩

end TodoWatch
