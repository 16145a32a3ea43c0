import TodoWatch.Lib.Keyed
import TodoWatch.Theorems.ApiRefinement

/-! # Whose todo does a post replace?

All members but Will share the hash `team4`, whose field is the task alone. A member who posts the task of another
one replaces the entry of the other, and is answered like one whose entry is new. -/

namespace TodoWatch
namespace GroupTodos
open Async Post Refinement

variable {redis : NodeRedis} {todos : List Todo} {todo : Todo}

/-- A later request of the same member for the same task. -/
def SameTodo (later todo : Todo) : Prop := later.assignee = todo.assignee ∧ later.task = todo.task

/-- A later request of any member for the same task. -/
def SameField (later todo : Todo) : Prop := later.assignee ≠ "Will" ∧ later.task = todo.task

/-- The last request of each member for each task has its entry in the hash of the group. -/
def KeepsEach (s : Store) (todos : List Todo) : Prop :=
  ∀ todo, todo.assignee ≠ "Will" → Keyed.Last SameTodo todos todo → ∃ field, s.fields "team4" field = some todo.entry.value

/-- Each of them is the last request of any member for its task, or has the same text as one that is. -/
def NoneReplaced (todos : List Todo) : Prop :=
  ∀ todo, todo.assignee ≠ "Will" → Keyed.Last SameTodo todos todo →
    ∃ last, last.assignee ≠ "Will" ∧ Keyed.Last SameField todos last ∧ last.entry.value = todo.entry.value

theorem key_eq_team4_iff : todo.entry.key = "team4" ↔ todo.assignee ≠ "Will" := by
  unfold Todo.entry todoItem
  split
  · rename_i h
    simp [h, willItem]
  · rename_i h
    exact iff_of_true rfl h

theorem field_entry : todo.entry.field = todo.task := by
  unfold Todo.entry todoItem
  split <;> rfl

/-- The hash of the group after some posts: under each task the entry of the last request for it. -/
theorem fields_served_iff {field value : String} :
    (served redis (todos.map .post)).1.fields "team4" field = some value ↔
      ∃ todo, todo.assignee ≠ "Will" ∧ Keyed.Last SameField todos todo ∧ todo.task = field ∧
        todo.entry.value = value := by
  induction todos using List.reverseRecOn with
  | nil =>
    refine ⟨fun h => (by cases h), ?_⟩
    rintro ⟨todo, -, hlast, -⟩
    exact absurd hlast Keyed.not_last_nil
  | append_singleton todos new ih =>
    have hhash := (holdsPosted_served redis (todos.map .post)).hash new.entry.key
    rw [List.map_append, List.map_singleton, served_append]
    show (serve redis .none (.postNew new.body) _ _).store.1.fields "team4" field = _ ↔ _
    rw [store_serve_post hhash, fields_posted, field_entry]
    split
    · rename_i hnew
      obtain ⟨hkey, rfl⟩ := hnew
      have hmember : new.assignee ≠ "Will" := key_eq_team4_iff.mp hkey.symm
      rw [Option.some.injEq]
      constructor
      · exact fun hvalue => ⟨new, hmember, Keyed.last_append_iff.mpr (Or.inl rfl), rfl, hvalue⟩
      · rintro ⟨todo, -, hlast, htask, hvalue⟩
        rcases Keyed.last_append_iff.mp hlast with rfl | ⟨-, hnot⟩
        · exact hvalue
        · exact absurd ⟨hmember, htask.symm⟩ hnot
    · rename_i hnew
      rw [ih]
      refine exists_congr fun todo => and_congr_right fun hmember => ?_
      constructor
      · rintro ⟨hlast, rfl, hvalue⟩
        refine ⟨Keyed.last_append_iff.mpr (Or.inr ⟨hlast, fun hsame => hnew ?_⟩), rfl, hvalue⟩
        exact ⟨(key_eq_team4_iff.mpr hsame.1).symm, hsame.2.symm⟩
      · rintro ⟨hlast, rfl, hvalue⟩
        rcases Keyed.last_append_iff.mp hlast with rfl | ⟨hlast, -⟩
        · exact absurd ⟨(key_eq_team4_iff.mpr hmember).symm, rfl⟩ hnew
        · exact ⟨hlast, rfl, hvalue⟩

end GroupTodos

open GroupTodos

/-- After any posts to an empty store the last request of each member for each task is kept exactly when none of
    them is followed by a request of another member for its task, unless the texts agree. -/
theorem posts_keepsEach_iff (redis : NodeRedis) (todos : List Todo) :
    KeepsEach (served redis (todos.map .post)).1 todos ↔ NoneReplaced todos := by
  refine forall_congr' fun todo => forall_congr' fun _ => forall_congr' fun _ => ?_
  constructor
  · rintro ⟨field, hfield⟩
    obtain ⟨last, hmember, hlast, -, hvalue⟩ := fields_served_iff.mp hfield
    exact ⟨last, hmember, hlast, hvalue⟩
  · rintro ⟨last, hmember, hlast, hvalue⟩
    exact ⟨last.task, fields_served_iff.mpr ⟨last, hmember, hlast, rfl, hvalue⟩⟩

def ann : Todo := ⟨"Ann", "Buy milk", "STORE", "REST", "HIGH"⟩

def bob : Todo := ⟨"Bob", "Buy milk", "STORE", "WORKING", "LOW"⟩

/-- Ann and Bob post the same task. Ann's entry is gone, and Bob's request is answered as successful. -/
theorem posts_replace_todo :
    ¬KeepsEach (served nodeRedis ([ann, bob].map .post)).1 [ann, bob] ∧
      (serve nodeRedis .none (.postNew bob.body) (served nodeRedis [.post ann]).2
        (served nodeRedis [.post ann]).1).sent = [⟨200, "Successfully created new TODOs."⟩] := by
  constructor
  · intro h
    obtain ⟨field, hfield⟩ := h ann (by decide) ⟨[], [bob], rfl, by simp [SameTodo, ann, bob]⟩
    obtain ⟨last, -, hlast, -, hvalue⟩ := fields_served_iff.mp hfield
    have hlast' : Keyed.Last SameField ([] ++ [ann] ++ [bob]) last := hlast
    rcases Keyed.last_append_iff.mp hlast' with rfl | ⟨hann, hbob⟩
    · revert hvalue
      decide
    · rcases Keyed.last_append_iff.mp hann with rfl | ⟨hnil, -⟩
      · exact hbob ⟨by decide, rfl⟩
      · exact Keyed.not_last_nil hnil
  · decide +kernel

end TodoWatch
