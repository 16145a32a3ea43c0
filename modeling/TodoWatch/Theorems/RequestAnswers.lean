import TodoWatch.Theorems.PostAlone

/-! # Which requests are answered

A handler answers exactly once unless an exception leaves it, and none of the handlers catches. So a
request is answered exactly when nothing it needs fails: the connection, each command that it issues, the
conversion of its body and the types of the keys it meets. `getUserTasks` reads a parameter that its route
does not have, and the client rejects the `undefined` that it passes. -/

namespace TodoWatch
namespace Answers
open Async Delete

variable {redis : NodeRedis} {faults : Faults} {s : Store} {k : Nat} {user : String} {task : Js}

/-- The handler sends exactly one response and its promise does not reject. -/
def AnsweredOnce (b : Option Unit × (Store × Nat) × List Response) : Prop := b.1 = some () ∧ b.2.2.length = 1

@[simp] theorem not_answeredOnce_rejectedAt : ¬AnsweredOnce (rejectedAt s k) := fun h => by cases h.1

def commandCount (user : String) (S : Finset String) (tasks : List String) : Nat :=
  tasks.length + 2 * moves user S tasks

theorem commandCount_cons_of_not_mem {S : Finset String} {t : String} {tasks : List String} (h : t ∉ S) :
    commandCount user S (t :: tasks) = commandCount user S tasks + 1 := by
  rw [commandCount, commandCount, moves_cons_of_not_mem h, List.length_cons]
  omega

theorem commandCount_cons_of_mem {S : Finset String} {t : String} {tasks : List String} (h : t ∈ S) :
    commandCount user S (t :: tasks) = commandCount user (after user S t) tasks + 3 := by
  rw [commandCount, commandCount, moves_cons_of_mem h, List.length_cons]
  omega

/-- What the loop needs of its items, of the keys it meets and of its commands, the first one of which has
    the number `k`. -/
structure LoopAnswers (faults : Faults) (user : String) (s : Store) (items : List Js) (tasks : List String)
    (k : Nat) : Prop where
  strings : items = tasks.map .str
  userSet : tasks = [] ∨ s.IsSet user
  completedSet : moves user (s.members user) tasks = 0 ∨ s.IsSet "completed"
  commands : ∀ i < commandCount user (s.members user) tasks, faults.fails (k + i) = false

theorem isSet_without_completed {t : String} (huser : s.IsSet user) :
    (without s user t).IsSet "completed" ↔ s.IsSet "completed" := by
  refine ⟨fun h => ?_, isSet_without⟩
  by_cases hu : "completed" = user
  · exact hu ▸ huser
  · intro v hv
    exact h v (by rw [without, Store.setMembers_of_ne hu]; exact hv)

/-- A pass over an item of the user, when `sIsMember` does not fail: the three commands of the move, and
    then the rest of the list. -/
theorem loop_answers_move {t : String} {rest : List Js} (huser : s.IsSet user) (ht : t ∈ s.members user)
    (h0 : faults.fails k = false)
    (ih : AnsweredOnce (run (execUnder redis faults) (loop user rest) (.str t) (moved s user t, k + 3)).brief ↔
      ∃ tasks, LoopAnswers faults user (moved s user t) rest tasks (k + 3)) :
    AnsweredOnce (if faults.fails (k + 1) = true then rejectedAt s (k + 2)
        else if faults.fails (k + 2) = true ∨ ¬(without s user t).IsSet "completed" then
          rejectedAt (without s user t) (k + 3)
        else (run (execUnder redis faults) (loop user rest) (.str t) (moved s user t, k + 3)).brief) ↔
      ∃ tasks, LoopAnswers faults user s (.str t :: rest) tasks k := by
  constructor
  · intro h
    split at h
    · exact absurd h not_answeredOnce_rejectedAt
    · rename_i h1
      split at h
      · exact absurd h not_answeredOnce_rejectedAt
      · rename_i h2
        obtain ⟨h2, hdone⟩ := not_or.mp h2
        obtain ⟨tasks, rfl, -, -, hcmd⟩ := ih.mp h
        refine ⟨t :: tasks, rfl, Or.inr huser, Or.inr ((isSet_without_completed huser).mp (not_not.mp hdone)), fun i hi => ?_⟩
        rw [commandCount_cons_of_mem ht, ← members_moved_user ht] at hi
        match i with
        | 0 => exact h0
        | 1 => exact Bool.eq_false_iff.mpr h1
        | 2 => exact Bool.eq_false_iff.mpr h2
        | i + 3 =>
          have := hcmd i (by omega)
          rwa [Nat.add_right_comm] at this
  · rintro ⟨tasks, hstr, -, hdone, hcmd⟩
    cases tasks with
    | nil => cases hstr
    | cons x tasks =>
      obtain ⟨hx, rfl⟩ := List.cons.inj hstr
      obtain rfl := Js.str.inj hx
      rw [moves_cons_of_mem ht] at hdone
      replace hdone := hdone.resolve_left (by omega)
      rw [commandCount_cons_of_mem ht, ← members_moved_user ht] at hcmd
      have h1 := hcmd 1 (by omega)
      have h2 := hcmd 2 (by omega)
      rw [if_neg (by simp [h1]), if_neg (by simp [h2, isSet_without hdone]), ih]
      refine ⟨tasks, rfl, Or.inr (isSet_moved huser), Or.inr (isSet_moved hdone), fun i hi => ?_⟩
      have := hcmd (i + 3) (by omega)
      rwa [Nat.add_right_comm]

theorem loop_answers_iff : ∀ {items : List Js} {s : Store} {k : Nat} {task : Js},
    AnsweredOnce (run (execUnder redis faults) (loop user items) task (s, k)).brief ↔
      ∃ tasks, LoopAnswers faults user s items tasks k := by
  intro items
  induction items with
  | nil =>
    intro s k task
    refine ⟨fun _ => ⟨[], rfl, Or.inl rfl, Or.inl (by simp [moves]), ?_⟩, fun _ => ⟨rfl, rfl⟩⟩
    intro i hi
    simp [commandCount, moves] at hi
  | cons item rest ih =>
    intro s k task
    by_cases hbad : ¬s.IsSet user ∨ ∀ t, item ≠ .str t
    · rw [brief_loop_cons_of_bad hbad]
      refine ⟨fun h => absurd h not_answeredOnce_rejectedAt, ?_⟩
      rintro ⟨tasks, hstr, huser, -, -⟩
      cases tasks with
      | nil => cases hstr
      | cons t tasks =>
        obtain ⟨rfl, -⟩ := List.cons.inj hstr
        rcases hbad with hbad | hbad
        · exact absurd (huser.resolve_left (by simp)) hbad
        · exact absurd rfl (hbad t)
    · obtain ⟨huser, hstr⟩ := not_or.mp hbad
      replace huser := not_not.mp huser
      obtain ⟨t, hstr⟩ := not_forall.mp hstr
      obtain rfl := not_not.mp hstr
      rw [brief_loop_cons huser]
      by_cases h0 : faults.fails k = true
      · rw [if_pos h0]
        refine ⟨fun h => absurd h not_answeredOnce_rejectedAt, ?_⟩
        rintro ⟨tasks, hstr, -, -, hcmd⟩
        cases tasks with
        | nil => cases hstr
        | cons x tasks =>
          have := hcmd 0 (by simp only [commandCount, List.length_cons]; omega)
          rw [Nat.add_zero, h0] at this
          cases this
      · rw [if_neg h0]
        replace h0 : faults.fails k = false := by simpa using h0
        by_cases ht : t ∈ s.members user
        · rw [if_neg (not_not_intro ht)]
          exact loop_answers_move huser ht h0 (@ih _ _ _)
        · rw [if_pos ht, ih]
          constructor
          · rintro ⟨tasks, rfl, hu, hc, hcmd⟩
            refine ⟨t :: tasks, rfl, Or.inr huser, ?_, fun i hi => ?_⟩
            · rwa [moves_cons_of_not_mem ht]
            · rw [commandCount_cons_of_not_mem ht] at hi
              cases i with
              | zero => exact h0
              | succ i =>
                have := hcmd i (by omega)
                rwa [Nat.add_right_comm] at this
          · rintro ⟨tasks, hstr, -, hc, hcmd⟩
            cases tasks with
            | nil => cases hstr
            | cons x tasks =>
              obtain ⟨hx, rfl⟩ := List.cons.inj hstr
              obtain rfl := Js.str.inj hx
              rw [moves_cons_of_not_mem ht] at hc
              refine ⟨tasks, rfl, Or.inr huser, hc, fun i hi => ?_⟩
              have := hcmd (i + 1) (by rw [commandCount_cons_of_not_mem ht]; omega)
              rwa [Nat.add_right_comm]

/-! ### Requests -/

def Answerable (faults : Faults) (s : Store) : Request → Prop
  | .postNew body => faults.connects = true ∧
    ∃ item, todoItemOf body = some item ∧ s.IsHash item.key ∧ ∀ i < 3, faults.fails i = false
  | .getWatch _ => False
  | .deleteWatch user body => faults.connects = true ∧
    ∃ v, body.prop "tasks" = some v ∧ faults.fails 0 = false ∧
      (s user = none ∨ ∃ items tasks, v.iterate = some items ∧ LoopAnswers faults user s items tasks 1)

theorem post_answers_iff {body : Js} :
    AnsweredOnce (serve redis faults (.postNew body) task s).brief ↔ Answerable faults s (.postNew body) := by
  rw [Post.brief_serve_post]
  constructor
  · intro h
    split at h
    · exact absurd h not_answeredOnce_rejectedAt
    · rename_i hc
      refine ⟨by simpa using hc, ?_⟩
      cases hitem : todoItemOf body with
      | none =>
        rw [hitem] at h
        exact absurd h not_answeredOnce_rejectedAt
      | some item =>
        simp only [hitem] at h
        split at h
        · exact absurd h not_answeredOnce_rejectedAt
        · rename_i h0
          split at h
          · exact absurd h not_answeredOnce_rejectedAt
          · rename_i h1
            split at h
            · exact absurd h not_answeredOnce_rejectedAt
            · rename_i h2
              obtain ⟨h1, hhash⟩ := not_or.mp h1
              refine ⟨item, rfl, not_not.mp hhash, fun i hi => ?_⟩
              match i with
              | 0 => exact Bool.eq_false_iff.mpr h0
              | 1 => exact Bool.eq_false_iff.mpr h1
              | 2 => exact Bool.eq_false_iff.mpr h2
  · rintro ⟨hc, item, hitem, hhash, hcmd⟩
    have h0 := hcmd 0 (by omega)
    have h1 := hcmd 1 (by omega)
    have h2 := hcmd 2 (by omega)
    rw [if_neg (by simp [hc]), hitem]
    dsimp only
    rw [if_neg (by simp [h0]), if_neg (by simp [h1, hhash]), if_neg (by simp [h2])]
    exact ⟨rfl, rfl⟩

theorem get_not_answered : ¬AnsweredOnce (serve redis faults (.getWatch user) task s).brief := by
  suffices h : (serve redis faults (.getWatch user) task s).brief.1 = none by
    rintro ⟨h', -⟩
    rw [h] at h'
    cases h'
  show (run _ (.await Command.getConnection _) _ _).brief.1 = none
  rw [brief_run_await]
  by_cases hc : faults.connects = true
  · simp only [execUnder, hc, ↓reduceIte]
    show (run _ (.await (Command.exists .undefined) _) _ _).brief.1 = none
    rw [brief_run_command (by simp) rfl, Redis.exec_exists_undefined]
    split <;> rfl
  · simp only [execUnder, hc, Bool.false_eq_true, ↓reduceIte]
    rfl

theorem delete_answers_iff {body : Js} :
    AnsweredOnce (serve redis faults (.deleteWatch user body) task s).brief ↔
      Answerable faults s (.deleteWatch user body) := by
  rw [brief_serve_deleteWatch]
  constructor
  · intro h
    split at h
    · exact absurd h not_answeredOnce_rejectedAt
    · rename_i hc
      refine ⟨by simpa using hc, ?_⟩
      cases htasks : body.prop "tasks" with
      | none =>
        rw [htasks] at h
        exact absurd h not_answeredOnce_rejectedAt
      | some v =>
        simp only [htasks] at h
        split at h
        · exact absurd h not_answeredOnce_rejectedAt
        · rename_i h0
          refine ⟨v, rfl, Bool.eq_false_iff.mpr h0, ?_⟩
          split at h
          · refine Or.inr ?_
            cases hitems : v.iterate with
            | none =>
              rw [hitems] at h
              exact absurd h not_answeredOnce_rejectedAt
            | some items =>
              rw [hitems] at h
              obtain ⟨tasks, hloop⟩ := loop_answers_iff.mp h
              exact ⟨items, tasks, rfl, hloop⟩
          · rename_i hnone
            exact Or.inl (by simpa using hnone)
  · rintro ⟨hc, v, htasks, h0, h⟩
    rw [if_neg (by simp [hc]), htasks]
    dsimp only
    rw [if_neg (by simp [h0])]
    rcases h with hnone | ⟨items, tasks, hitems, hloop⟩
    · rw [if_neg (by simp [hnone])]
      exact ⟨rfl, rfl⟩
    · split
      · rw [hitems]
        exact loop_answers_iff.mpr ⟨tasks, hloop⟩
      · exact ⟨rfl, rfl⟩

end Answers

open Answers

/-- A request is answered exactly once, by a handler that does not reject, exactly when nothing that it
    needs fails. A `GET` is never answered. -/
theorem request_answered_iff (redis : NodeRedis) (faults : Faults) (request : Request) (task : Js) (s : Store) :
    AnsweredOnce (serve redis faults request task s).brief ↔ Answerable faults s request := by
  cases request with
  | postNew body => exact post_answers_iff
  | getWatch user => exact iff_of_false get_not_answered id
  | deleteWatch user body => exact delete_answers_iff

def nikolas : Store := Store.setMembers (fun _ => none) "nikolas" {"Buy milk"}

/-- A `DELETE` with an empty object as body: the loop over `undefined` throws, and nothing is sent. -/
theorem request_unanswered : ¬AnsweredOnce
    (serve nodeRedis .none (.deleteWatch "nikolas" (.obj [])) .undefined nikolas).brief := by
  rintro ⟨h, -⟩
  revert h
  decide +kernel

end TodoWatch
