import TodoWatch.Theorems.DeleteAlone

/-! # Is a completed task lost?

`deleteUserTasks` removes an item from the set of the user before it adds the item to `completed`. When
its commands end between the two, the item is in neither set. -/

namespace TodoWatch
namespace Delete
open Async

variable {redis : NodeRedis} {s : Store} {user t : String} {S C C' : Finset String} {tasks : List String}
  {k n : Nat} {task : Js}

/-- Every item that a store holds for the user is in `s'` still there, or completed. -/
def Keeps (s s' : Store) (user : String) : Prop :=
  ∀ t ∈ s.members user, t ∈ s'.members user ∨ t ∈ s'.members "completed"

/-! ### Where the commands may end -/

/-- The first `n` commands end between `sRem` and `sAdd` of an item that `completed` does not hold: `k`
    commands come before the loop, and its passes over `T₁` take one command each, and two more for each
    item that they move. -/
def StopsInMove (user : String) (S C : Finset String) (tasks : List String) (k n : Nat) : Prop :=
  ∃ T₁ t T₂, tasks = T₁ ++ t :: T₂ ∧ t ∈ S ∧ (user = "completed" ∨ t ∉ T₁ ∧ t ∉ C) ∧
    n = k + T₁.length + 2 * moves user S T₁ + 2

theorem not_stopsInMove_nil : ¬StopsInMove user S C [] k n := by
  rintro ⟨T₁, t, T₂, h, -⟩
  simp at h

theorem stopsInMove_cons_of_not_mem (h : t ∉ S) :
    StopsInMove user S C (t :: tasks) k n ↔ StopsInMove user S C tasks (k + 1) n := by
  constructor
  · rintro ⟨T₁, x, T₂, heq, hx, hnew, hn⟩
    cases T₁ with
    | nil =>
      obtain ⟨rfl, -⟩ := List.cons.inj heq
      exact absurd hx h
    | cons y T₁ =>
      obtain ⟨rfl, rfl⟩ := List.cons.inj heq
      rw [moves_cons_of_not_mem h, List.length_cons] at hn
      refine ⟨T₁, x, T₂, rfl, hx, hnew.imp_right fun hnew => ⟨fun hm => ?_, hnew.2⟩, by omega⟩
      exact hnew.1 (List.mem_cons_of_mem _ hm)
  · rintro ⟨T₁, x, T₂, rfl, hx, hnew, hn⟩
    refine ⟨t :: T₁, x, T₂, rfl, hx, hnew.imp_right fun hnew => ⟨fun hm => ?_, hnew.2⟩, ?_⟩
    · rcases List.mem_cons.mp hm with rfl | hm
      · exact h hx
      · exact hnew.1 hm
    · rw [moves_cons_of_not_mem h, List.length_cons]
      omega

theorem stopsInMove_cons_of_mem (h : t ∈ S) (hC : user ≠ "completed" → C' = insert t C) :
    StopsInMove user S C (t :: tasks) k n ↔
      (n = k + 2 ∧ (user = "completed" ∨ t ∉ C)) ∨ StopsInMove user (after user S t) C' tasks (k + 3) n := by
  constructor
  · rintro ⟨T₁, x, T₂, heq, hx, hnew, hn⟩
    cases T₁ with
    | nil =>
      obtain ⟨rfl, -⟩ := List.cons.inj heq
      refine Or.inl ⟨?_, hnew.imp_right And.right⟩
      simpa [moves] using hn
    | cons y T₁ =>
      obtain ⟨rfl, rfl⟩ := List.cons.inj heq
      rw [moves_cons_of_mem h, List.length_cons] at hn
      refine Or.inr ⟨T₁, x, T₂, rfl, ?_, ?_, by omega⟩
      · unfold after
        split
        · exact hx
        · rename_i hu
          refine Finset.mem_erase.mpr ⟨fun hxt => ?_, hx⟩
          exact (hnew.resolve_left hu).1 (hxt ▸ List.mem_cons_self)
      · by_cases hu : user = "completed"
        · exact Or.inl hu
        · obtain ⟨h1, h2⟩ := hnew.resolve_left hu
          refine Or.inr ⟨fun hm => h1 (List.mem_cons_of_mem _ hm), ?_⟩
          rw [hC hu, Finset.mem_insert, not_or]
          exact ⟨fun hxt => h1 (hxt ▸ List.mem_cons_self), h2⟩
  · rintro (⟨hn, hnew⟩ | ⟨T₁, x, T₂, rfl, hx, hnew, hn⟩)
    · exact ⟨[], t, tasks, rfl, h, hnew.imp_right fun hC => ⟨by simp, hC⟩, by simpa [moves] using hn⟩
    · refine ⟨t :: T₁, x, T₂, rfl, ?_, ?_, ?_⟩
      · unfold after at hx
        split at hx
        · exact hx
        · exact Finset.mem_of_mem_erase hx
      · by_cases hu : user = "completed"
        · exact Or.inl hu
        · obtain ⟨h1, h2⟩ := hnew.resolve_left hu
          rw [hC hu, Finset.mem_insert, not_or] at h2
          refine Or.inr ⟨fun hm => ?_, h2.2⟩
          rcases List.mem_cons.mp hm with rfl | hm
          · exact h2.1 rfl
          · exact h1 hm
      · rw [moves_cons_of_mem h, List.length_cons]
        omega

/-! ### The loop -/

def loopStore (redis : NodeRedis) (n : Nat) (user : String) (tasks : List String) (task : Js) (s : Store) (k : Nat) :
    Store :=
  (run (execUnder redis (.stop n)) (loop user (tasks.map .str)) task (s, k)).brief.2.1.1

theorem loopStore_cons_of_not_mem (huser : s.IsSet user) (ht : t ∉ s.members user) :
    loopStore redis n user (t :: tasks) task s k =
      if n ≤ k then s else loopStore redis n user tasks (.str t) s (k + 1) := by
  unfold loopStore
  rw [List.map_cons, brief_loop_cons huser, if_pos ht]
  simp only [Faults.stop_fails, decide_eq_true_eq]
  split <;> rfl

theorem loopStore_cons_of_mem (huser : s.IsSet user) (hdone : s.IsSet "completed") (ht : t ∈ s.members user) :
    loopStore redis n user (t :: tasks) task s k =
      if n ≤ k + 1 then s
      else if n ≤ k + 2 then without s user t
      else loopStore redis n user tasks (.str t) (moved s user t) (k + 3) := by
  unfold loopStore
  rw [List.map_cons, brief_loop_cons huser, if_neg (not_not_intro ht)]
  simp only [Faults.stop_fails, decide_eq_true_eq, isSet_without hdone, not_true_eq_false, or_false]
  by_cases h1 : n ≤ k + 1
  · rw [if_pos h1, if_pos h1]
    split <;> rfl
  · rw [if_neg h1, if_neg h1, if_neg (by omega)]
    split <;> rfl

/-- The loop never drops a completed task, unless `completed` is the set that it works on. -/
theorem completed_kept (hu : user ≠ "completed") {x : String} :
    ∀ {tasks : List String} {s : Store} {k : Nat} {task : Js}, s.IsSet user → s.IsSet "completed" →
      x ∈ s.members "completed" → x ∈ (loopStore redis n user tasks task s k).members "completed" := by
  intro tasks
  induction tasks with
  | nil => exact fun _ _ hx => hx
  | cons t tasks ih =>
    intro s k task huser hdone hx
    have hwithout : x ∈ (without s user t).members "completed" := by
      rwa [without, Store.members_setMembers_of_ne (Ne.symm hu)]
    by_cases ht : t ∈ s.members user
    · rw [loopStore_cons_of_mem huser hdone ht]
      split
      · exact hx
      · split
        · exact hwithout
        · refine ih (isSet_moved huser) (isSet_moved hdone) ?_
          rw [members_moved_completed hu]
          exact Finset.mem_insert_of_mem hx
    · rw [loopStore_cons_of_not_mem huser ht]
      split
      · exact hx
      · exact ih huser hdone hx

/-- No item of the user is lost in the loop exactly when its commands do not end inside a move. -/
theorem loop_keeps_iff : ∀ {tasks : List String} {s : Store} {k : Nat} {task : Js},
    s.IsSet user → s.IsSet "completed" →
      (Keeps s (loopStore redis n user tasks task s k) user ↔
        ¬StopsInMove user (s.members user) (s.members "completed") tasks k n) := by
  intro tasks
  induction tasks with
  | nil => exact fun _ _ => ⟨fun _ => not_stopsInMove_nil, fun _ x hx => Or.inl hx⟩
  | cons t tasks ih =>
    intro s k task huser hdone
    by_cases ht : t ∈ s.members user
    · rw [loopStore_cons_of_mem huser hdone ht, stopsInMove_cons_of_mem ht members_moved_completed,
        ← members_moved_user ht]
      by_cases h1 : n ≤ k + 1
      · -- Nothing was removed.
        rw [if_pos h1]
        refine ⟨fun _ => ?_, fun _ x hx => Or.inl hx⟩
        rintro (⟨hn, -⟩ | ⟨T₁, x, T₂, -, -, -, hn⟩) <;> omega
      · rw [if_neg h1]
        by_cases h2 : n ≤ k + 2
        · -- The item was removed and not added.
          rw [if_pos h2]
          constructor
          · rintro hkept (⟨-, hnew⟩ | ⟨T₁, x, T₂, -, -, -, hn⟩)
            · rcases hkept t ht with hmem | hmem
              · simp [without] at hmem
              · rcases hnew with rfl | hnew
                · simp [without] at hmem
                · by_cases hu : user = "completed"
                  · subst hu
                    exact hnew ht
                  · rw [without, Store.members_setMembers_of_ne (Ne.symm hu)] at hmem
                    exact hnew hmem
            · omega
          · intro hstop x hx
            have hnew := not_or.mp fun hnew => hstop (Or.inl ⟨by omega, hnew⟩)
            by_cases hxt : x = t
            · refine Or.inr ?_
              rw [without, Store.members_setMembers_of_ne (Ne.symm hnew.1), hxt]
              exact not_not.mp hnew.2
            · exact Or.inl (by simpa [without, hxt] using hx)
        · rw [if_neg h2]
          have hmoved := @ih (moved s user t) (k + 3) (.str t) (isSet_moved huser) (isSet_moved hdone)
          constructor
          · rintro hkept (⟨hn, -⟩ | hstop)
            · omega
            · refine hmoved.mp (fun x hx => hkept x ?_) hstop
              rw [members_moved_user ht, after] at hx
              split at hx
              · exact hx
              · exact Finset.mem_of_mem_erase hx
          · intro hstop x hx
            have hrest := hmoved.mpr fun h => hstop (Or.inr h)
            by_cases hu : user = "completed"
            · exact hrest x (by rw [members_moved_user ht, after, if_pos hu]; exact hx)
            · by_cases hxt : x = t
              · refine Or.inr (completed_kept hu (isSet_moved huser) (isSet_moved hdone) ?_)
                rw [members_moved_completed hu, hxt]
                exact Finset.mem_insert_self _ _
              · refine hrest x ?_
                rw [members_moved_user ht, after, if_neg hu]
                exact Finset.mem_erase.mpr ⟨hxt, hx⟩
    · rw [loopStore_cons_of_not_mem huser ht, stopsInMove_cons_of_not_mem ht]
      by_cases h0 : n ≤ k
      · rw [if_pos h0]
        refine ⟨fun _ => ?_, fun _ x hx => Or.inl hx⟩
        rintro ⟨T₁, x, T₂, -, -, -, hn⟩
        omega
      · rw [if_neg h0]
        exact ih huser hdone

end Delete

open Delete

/-- After the first `n` commands of a `DELETE` every item of the user is still in the set of the user or in
    `completed`, exactly when these commands do not end between `sRem` and `sAdd` of an item that
    `completed` does not hold. -/
theorem deleteUserTasks_keeps_iff (redis : NodeRedis) {s : Store} {user : String} (huser : s.IsSet user)
    (hdone : s.IsSet "completed") (tasks : List String) (task : Js) (n : Nat) :
    Keeps s (serve redis (.stop n) (.deleteWatch user (tasksBody tasks)) task s).store.1 user ↔
      ¬StopsInMove user (s.members user) (s.members "completed") tasks 1 n := by
  have hstore : (serve redis (.stop n) (.deleteWatch user (tasksBody tasks)) task s).store.1 =
      if n = 0 then s else if (s user).isSome = true then loopStore redis n user tasks task s 1 else s := by
    show (serve redis (.stop n) (.deleteWatch user (tasksBody tasks)) task s).brief.2.1.1 = _
    rw [brief_serve_delete, if_neg (by simp [Faults.stop])]
    simp only [Faults.stop_fails, decide_eq_true_eq, Nat.le_zero_eq]
    split
    · rfl
    · split <;> rfl
  rw [hstore]
  by_cases hn : n = 0
  · rw [if_pos hn]
    refine ⟨fun _ => ?_, fun _ t ht => Or.inl ht⟩
    rintro ⟨T₁, t, T₂, -, -, -, hn⟩
    omega
  · rw [if_neg hn]
    by_cases hsome : (s user).isSome = true
    · rw [if_pos hsome]
      exact loop_keeps_iff huser hdone
    · rw [if_neg hsome]
      refine ⟨fun _ => ?_, fun _ t ht => Or.inl ht⟩
      rintro ⟨T₁, t, T₂, -, ht, -⟩
      exact hsome (huser.isSome_iff.mpr ⟨t, ht⟩)

def oneUser : Store := Store.setMembers (fun _ => none) "123" {"Buy milk", "Buy bread"}

theorem deleteUserTasks_keeps_after_move :
    Keeps oneUser (serve nodeRedis (.stop 4) (.deleteWatch "123" (tasksBody ["Buy milk", "Buy bread"])) .undefined
      oneUser).store.1 "123" := by
  refine (deleteUserTasks_keeps_iff nodeRedis Store.isSet_setMembers_self (Store.isSet_of_none (by decide))
    ["Buy milk", "Buy bread"] .undefined 4).mpr fun hstop => ?_
  rcases (stopsInMove_cons_of_mem (by decide) fun _ => rfl).mp hstop with ⟨hn, -⟩ | ⟨T₁, t, T₂, -, -, -, hn⟩
  · simp at hn
  · omega

/-- The commands end after `sRem` of the first item: it is in neither set. -/
theorem deleteUserTasks_loses : "Buy milk" ∈ oneUser.members "123" ∧
    "Buy milk" ∉ (serve nodeRedis (.stop 3) (.deleteWatch "123" (tasksBody ["Buy milk", "Buy bread"])) .undefined
      oneUser).store.1.members "123" ∧
    "Buy milk" ∉ (serve nodeRedis (.stop 3) (.deleteWatch "123" (tasksBody ["Buy milk", "Buy bread"])) .undefined
      oneUser).store.1.members "completed" := by
  decide +kernel

end TodoWatch
