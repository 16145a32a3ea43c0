import TodoWatch.Theorems.DeletePoints
import Mathlib.Data.Finset.Card

/-! # One `DELETE` under faults

What a pass of the loop of `deleteUserTasks` does when any of its commands may fail, and with it the
number of commands that a list of tasks takes. -/

namespace TodoWatch
namespace Delete
open Async

variable {redis : NodeRedis} {faults : Faults} {s : Store} {k : Nat} {user t : String} {task : Js}
  {rest : List Js}

/-- The outcome of a handler that an exception has left. -/
def rejectedAt (s : Store) (k : Nat) : Option Unit × (Store × Nat) × List Response := (none, (s, k), [])

theorem execUnder_of_fails {c : Command} (hc : c ≠ .getConnection) (h : faults.fails k = true) :
    execUnder redis faults c (s, k) = (none, (s, k + 1)) := by
  cases c <;> first | exact absurd rfl hc | simp [execUnder, h]

theorem execUnder_of_not_fails {c : Command} (hc : c ≠ .getConnection) (h : faults.fails k = false) :
    execUnder redis faults c (s, k) = ((Redis.exec redis c s).1, ((Redis.exec redis c s).2, k + 1)) := by
  cases c <;> first | exact absurd rfl hc | simp [execUnder, h]

/-- A command that the handler awaits outside of a `catch`: where it is rejected, so is the handler. -/
theorem brief_run_command {c : Command} {p : Option c.Reply → Prog Js Command Command.Reply Response Unit}
    (hc : c ≠ .getConnection) (hp : p none = .throw) :
    (run (execUnder redis faults) (.await c p) task (s, k)).brief =
      if faults.fails k = true then rejectedAt s (k + 1)
      else (run (execUnder redis faults) (p (Redis.exec redis c s).1) task ((Redis.exec redis c s).2, k + 1)).brief := by
  rw [brief_run_await]
  by_cases h : faults.fails k = true
  · rw [execUnder_of_fails hc h, if_pos h, hp]
    rfl
  · rw [execUnder_of_not_fails hc (by simpa using h), if_neg h]

def without (s : Store) (user t : String) : Store := s.setMembers user ((s.members user).erase t)

def moved (s : Store) (user t : String) : Store :=
  (without s user t).setMembers "completed" (insert t ((without s user t).members "completed"))

/-- One pass of the loop, over an item that is a string, when the key of the user is absent or a set. -/
theorem brief_loop_cons (huser : s.IsSet user) :
    (run (execUnder redis faults) (loop user (.str t :: rest)) task (s, k)).brief =
      if faults.fails k = true then rejectedAt s (k + 1)
      else if t ∉ s.members user then (run (execUnder redis faults) (loop user rest) (.str t) (s, k + 1)).brief
      else if faults.fails (k + 1) = true then rejectedAt s (k + 2)
      else if faults.fails (k + 2) = true ∨ ¬(without s user t).IsSet "completed" then
        rejectedAt (without s user t) (k + 3)
      else (run (execUnder redis faults) (loop user rest) (.str t) (moved s user t, k + 3)).brief := by
  rw [loop_cons, run_assign, run_read, brief_run_command (by simp) rfl, Redis.exec_sIsMember huser]
  refine if_congr Iff.rfl rfl ?_
  by_cases ht : t ∈ s.members user
  · rw [if_neg (not_not_intro ht), decide_eq_true ht]
    show (run _ (.await _ _) _ _).brief = _
    rw [brief_run_command (by simp) rfl, Redis.exec_sRem huser]
    refine if_congr Iff.rfl rfl ?_
    simp only [afterRem, run_read, Js.toText_str]
    rw [brief_run_command (by simp) rfl]
    by_cases hdone : (without s user t).IsSet "completed"
    · rw [show s.setMembers user ((s.members user).erase t) = without s user t from rfl, Redis.exec_sAdd hdone]
      exact if_congr (by simp [hdone]) rfl rfl
    · rw [show s.setMembers user ((s.members user).erase t) = without s user t from rfl,
        Redis.exec_sAdd_of_not_isSet hdone, if_pos (Or.inr hdone)]
      exact ite_self _
  · rw [if_pos ht, decide_eq_false ht]
    simp only [afterIsMember, run_read, Js.toText_str]

/-- The first command of a pass is rejected when the key is of another type or the item is no string. -/
theorem brief_loop_cons_of_bad {item : Js} (h : ¬s.IsSet user ∨ ∀ t, item ≠ .str t) :
    (run (execUnder redis faults) (loop user (item :: rest)) task (s, k)).brief = rejectedAt s (k + 1) := by
  have hexec : Redis.exec redis (.sIsMember (.str user) item) s = (none, s) := by
    rcases h with h | h
    · exact Redis.exec_sIsMember_of_not_isSet h
    · simp only [Redis.exec, Redis.onSet, Redis.withArg_str, Redis.withArg_of_ne_str h]
  rw [loop_cons, run_assign, run_read, brief_run_command (by simp) rfl, hexec]
  exact ite_self _

/-! ### The moves of a list -/

section Moves
variable {S : Finset String} {tasks : List String}

/-- The number of items of the list that the loop moves. An item is moved once, but in the set `completed`
    itself it comes back each time. -/
def moves (user : String) (S : Finset String) (tasks : List String) : Nat :=
  if user = "completed" then tasks.countP (· ∈ S) else (S ∩ tasks.toFinset).card

def after (user : String) (S : Finset String) (t : String) : Finset String :=
  if user = "completed" then S else S.erase t

theorem moves_cons_of_not_mem (h : t ∉ S) : moves user S (t :: tasks) = moves user S tasks := by
  unfold moves
  split
  · simp [h]
  · rw [List.toFinset_cons, Finset.inter_insert_of_notMem h]

theorem moves_cons_of_mem (h : t ∈ S) : moves user S (t :: tasks) = moves user (after user S t) tasks + 1 := by
  unfold moves after
  split
  · simp [h]
  · rw [List.toFinset_cons, Finset.inter_insert_of_mem h, Finset.erase_inter,
      ← Finset.card_erase_add_one (Finset.mem_insert_self t _), Finset.erase_insert_eq_erase]

theorem isSet_without {u : String} (h : s.IsSet u) : (without s user t).IsSet u := h.setMembers

theorem isSet_moved {u : String} (h : s.IsSet u) : (moved s user t).IsSet u := (isSet_without h).setMembers

theorem members_moved_user (ht : t ∈ s.members user) :
    (moved s user t).members user = after user (s.members user) t := by
  unfold moved without after
  split
  · rename_i hu
    subst hu
    simp [ht]
  · rename_i hu
    rw [Store.members_setMembers_of_ne hu, Store.members_setMembers_self]

theorem members_moved_completed (hu : user ≠ "completed") :
    (moved s user t).members "completed" = insert t (s.members "completed") := by
  rw [moved, Store.members_setMembers_self, without, Store.members_setMembers_of_ne (Ne.symm hu)]

end Moves

def afterReply (user : String) (tasks : Js) : Option Nat → Handler Unit
  | some n =>
    if n ≠ 1 then .reply ⟨404, "The user does not exist!"⟩
    else match tasks.iterate with
      | some items => loop user items
      | none => .throw
  | none => .throw

def afterBody (user : String) (body : Js) : Option (Option Unit) → Handler Unit
  | some redis => match body.prop "tasks" with
    | some tasks => match redis with
      | some () => .await (.exists (.str user)) (afterReply user tasks)
      | none => .throw
    | none => .throw
  | none => .throw

theorem deleteWatch_eq (user : String) (body : Js) :
    (Request.deleteWatch user body).handler = .await .getConnection (afterBody user body) := by
  refine Prog.await_congr fun r => ?_
  cases r with
  | none => rfl
  | some redis =>
    show (Handler.eval (body.prop "tasks")).bind _ = _
    unfold afterBody
    cases body.prop "tasks" with
    | none => rfl
    | some tasks =>
      cases redis with
      | none => rfl
      | some u =>
        refine Prog.await_congr fun n => ?_
        cases n with
        | none => rfl
        | some n =>
          show (if n ≠ 1 then _ else (Handler.eval tasks.iterate).bind _ : Handler Unit) = if n ≠ 1 then _ else _
          cases tasks.iterate <;> rfl

/-- A request with any body: its `tasks`, then `exists`, and then the loop if the key of the user exists. -/
theorem brief_serve_deleteWatch {body : Js} :
    (serve redis faults (.deleteWatch user body) task s).brief =
      if faults.connects = false then rejectedAt s 0
      else match body.prop "tasks" with
      | none => rejectedAt s 0
      | some tasks =>
        if faults.fails 0 = true then rejectedAt s 1
        else if (s user).isSome = true then match tasks.iterate with
          | none => rejectedAt s 1
          | some items => (run (execUnder redis faults) (loop user items) task (s, 1)).brief
        else (some (), (s, 1), [⟨404, "The user does not exist!"⟩]) := by
  unfold serve
  rw [deleteWatch_eq, brief_run_await]
  by_cases hc : faults.connects = true
  · rw [if_neg (by simp [hc])]
    simp only [execUnder, hc, ↓reduceIte, afterBody]
    cases body.prop "tasks" with
    | none => rfl
    | some tasks =>
      dsimp only
      rw [brief_run_command (by simp) rfl, Redis.exec_exists]
      refine if_congr Iff.rfl rfl ?_
      cases s user with
      | none => rfl
      | some v =>
        simp only [Option.isSome_some, ↓reduceIte, afterReply, ne_eq, not_true_eq_false]
        cases tasks.iterate <;> rfl
  · rw [if_pos (by simpa using hc)]
    simp only [execUnder, hc, Bool.false_eq_true, ↓reduceIte, afterBody]
    cases body.prop "tasks" <;> rfl

theorem brief_serve_delete {tasks : List String} :
    (serve redis faults (.deleteWatch user (tasksBody tasks)) task s).brief =
      if faults.connects = false then rejectedAt s 0
      else if faults.fails 0 = true then rejectedAt s 1
      else if (s user).isSome = true then
        (run (execUnder redis faults) (loop user (tasks.map .str)) task (s, 1)).brief
      else (some (), (s, 1), [⟨404, "The user does not exist!"⟩]) := by
  rw [brief_serve_deleteWatch]
  rfl

end Delete
end TodoWatch
