import TodoWatch.Theorems.PostAlone
import Mathlib.Data.List.Induction
import Mathlib.Data.Set.Basic

/-! # The API against one map of open tasks

The purpose of the API is a map from users to open tasks. `postUsersTodos` keeps the tasks of a user as the
fields of a hash, `deleteUserTasks` expects a set, and `getUserTasks` asks for a parameter that its route
does not have. So a `GET` is never answered, and a `DELETE` never removes a task that a `POST` stored. -/

namespace TodoWatch
namespace Refinement
open Async Delete Post

variable {redis : NodeRedis} {s : Store} {task : Js} {calls : List Call} {user t : String} {tasks : List String}

/-! ### The map -/

/-- The open tasks of each user: what `POST`s stored under the key and no later `DELETE` for it named. -/
def openTasks (calls : List Call) : String → Finset String :=
  calls.foldl (fun m call => match call with
    | .post todo => Function.update m todo.entry.key (insert todo.entry.field (m todo.entry.key))
    | .get _ => m
    | .delete user tasks => Function.update m user (m user \ tasks.toFinset)) fun _ => ∅

/-- What a store holds under a key: the fields of a hash or the members of a set. -/
def heldTasks (s : Store) (key : String) : Set String := {t | t ∈ s.members key ∨ (s.fields key t).isSome = true}

/-- A `GET` after some calls is answered with the open tasks, in the form that `render` gives them, or with
    404 if there are none. -/
def GetAnswers (redis : NodeRedis) (render : Finset String → String) (calls : List Call) (user : String) : Prop :=
  if (openTasks calls user).Nonempty then
    (serve redis .none (.getWatch user) (served redis calls).2 (served redis calls).1).sent =
      [⟨200, render (openTasks calls user)⟩]
  else
    ∃ body, (serve redis .none (.getWatch user) (served redis calls).2 (served redis calls).1).sent = [⟨404, body⟩]

/-- `s'` is `s` with exactly the named tasks of the user moved to `completed`. -/
structure Moves (s s' : Store) (user : String) (tasks : List String) : Prop where
  removed : heldTasks s' user = heldTasks s user \ {t | t ∈ tasks}
  completed : heldTasks s' "completed" = heldTasks s "completed" ∪ (heldTasks s user ∩ {t | t ∈ tasks})
  others : ∀ key, key ≠ user → key ≠ "completed" → s' key = s key

/-- No command of a call meets a key that holds a value of another type. -/
def TypesMatch (redis : NodeRedis) (calls : List Call) (call : Call) : Prop :=
  ∀ c ∈ (serve redis .none call.request (served redis calls).2 (served redis calls).1).commands,
    c.1.wrongType redis.encode c.2.1 = false

/-- Along the calls the API is the map from users to open tasks. -/
structure Refines (redis : NodeRedis) (render : Finset String → String) (calls : List Call) : Prop where
  get : ∀ pre, pre <+: calls → ∀ user, GetAnswers redis render pre user
  delete : ∀ pre user tasks, pre ++ [.delete user tasks] <+: calls →
    Moves (served redis pre).1 (served redis (pre ++ [.delete user tasks])).1 user tasks
  types : ∀ pre call, pre ++ [call] <+: calls → TypesMatch redis pre call

def Posted (calls : List Call) (key t : String) : Prop :=
  ∃ todo, Call.post todo ∈ calls ∧ todo.entry.key = key ∧ todo.entry.field = t

/-! ### One call -/

theorem brief_serve_get : (serve redis .none (.getWatch user) task s).brief = rejectedAt s 1 := by
  show (run _ (.await Command.getConnection _) _ _).brief = _
  rw [brief_run_await]
  show (run _ (.await (Command.exists .undefined) _) _ _).brief = _
  rw [brief_run_command (by simp) rfl, Redis.exec_exists_undefined]
  rfl

theorem store_serve_post {todo : Todo} (h : s.IsHash todo.entry.key) :
    (serve redis .none (.postNew todo.body) task s).store.1 = posted s todo.entry := by
  have hbrief := @brief_serve_post redis .none s task todo.body
  rw [if_neg (by simp [Faults.none]), todoItemOf_body] at hbrief
  simp only [Faults.none, Bool.false_eq_true, h, not_true_eq_false, or_self, ↓reduceIte] at hbrief
  exact congrArg (·.2.1.1) hbrief

theorem store_serve_delete (h : s.IsHash user) :
    (serve redis .none (.deleteWatch user (tasksBody tasks)) task s).store.1 = s := by
  have hbrief := @brief_serve_delete redis .none s user task tasks
  rw [if_neg (by simp [Faults.none]), if_neg (by simp [Faults.none])] at hbrief
  refine (congrArg (·.2.1.1) hbrief).trans ?_
  split
  · rename_i hsome
    obtain ⟨v, hv⟩ := Option.isSome_iff_exists.mp hsome
    obtain ⟨f, rfl⟩ := h v hv
    cases tasks with
    | nil => rfl
    | cons t tasks =>
      rw [List.map_cons, brief_loop_cons_of_bad (Or.inl (Store.not_isSet_of_hash hv))]
      rfl
  · rfl

theorem served_append (call : Call) : served redis (calls ++ [call]) =
    ((serve redis .none call.request (served redis calls).2 (served redis calls).1).store.1,
      (serve redis .none call.request (served redis calls).2 (served redis calls).1).shared) := by
  unfold served
  rw [List.foldl_append, List.foldl_cons, List.foldl_nil]

/-! ### What the store holds -/

/-- The store after some calls: the tasks that were posted, as fields of hashes. -/
structure HoldsPosted (calls : List Call) (s : Store) : Prop where
  hash : ∀ key, s.IsHash key
  field : ∀ key t, (s.fields key t).isSome = true ↔ Posted calls key t
  nonempty : ∀ key, s key ≠ none → ∃ t, Posted calls key t

theorem posted_append_of_not_post {call : Call} (h : ∀ todo, call ≠ .post todo) {key : String} :
    Posted (calls ++ [call]) key t ↔ Posted calls key t := by
  unfold Posted
  refine exists_congr fun todo => and_congr_left fun _ => ?_
  rw [List.mem_append, List.mem_singleton]
  exact or_iff_left fun hcall => h todo hcall.symm

theorem posted_append_post {todo : Todo} {key : String} :
    Posted (calls ++ [.post todo]) key t ↔ Posted calls key t ∨ key = todo.entry.key ∧ t = todo.entry.field := by
  constructor
  · rintro ⟨x, hx, hkey, hfield⟩
    rcases List.mem_append.mp hx with hx | hx
    · exact Or.inl ⟨x, hx, hkey, hfield⟩
    · obtain rfl := Call.post.inj (List.mem_singleton.mp hx)
      exact Or.inr ⟨hkey.symm, hfield.symm⟩
  · rintro (⟨x, hx, hkey, hfield⟩ | ⟨hkey, hfield⟩)
    · exact ⟨x, List.mem_append_left _ hx, hkey, hfield⟩
    · exact ⟨todo, List.mem_append_right _ (List.mem_singleton_self _), hkey.symm, hfield.symm⟩

theorem HoldsPosted.of_not_post {call : Call} (h : HoldsPosted calls s) (hcall : ∀ todo, call ≠ .post todo) :
    HoldsPosted (calls ++ [call]) s where
  hash := h.hash
  field key t := (h.field key t).trans (posted_append_of_not_post hcall).symm
  nonempty key hkey := (h.nonempty key hkey).imp fun _ => (posted_append_of_not_post hcall).mpr

theorem HoldsPosted.posted {todo : Todo} (h : HoldsPosted calls s) :
    HoldsPosted (calls ++ [.post todo]) (posted s todo.entry) where
  hash key := isHash_posted (h.hash key)
  field key t := by
    rw [posted_append_post, ← h.field, fields_posted]
    split
    · rename_i heq
      exact ⟨fun _ => Or.inr heq, fun _ => rfl⟩
    · rename_i hne
      exact (or_iff_left hne).symm
  nonempty key hkey := by
    by_cases heq : key = todo.entry.key
    · exact ⟨_, posted_append_post.mpr (Or.inr ⟨heq, rfl⟩)⟩
    · rw [Post.posted, Store.setFields_of_ne heq] at hkey
      exact (h.nonempty key hkey).imp fun _ ht => posted_append_post.mpr (Or.inl ht)

theorem holdsPosted_served (redis : NodeRedis) (calls : List Call) : HoldsPosted calls (served redis calls).1 := by
  induction calls using List.reverseRecOn with
  | nil =>
    refine ⟨fun _ v hv => ?_, fun key t => ⟨fun h => ?_, ?_⟩, fun _ h => absurd rfl h⟩
    · cases hv
    · cases h
    · rintro ⟨_, hx, -⟩
      cases hx
  | append_singleton calls call ih =>
    rw [served_append]
    cases call with
    | post todo =>
      dsimp only [Call.request]
      rw [store_serve_post (ih.hash _)]
      exact ih.posted
    | get user =>
      have hstore : (serve redis .none (.getWatch user) (served redis calls).2 (served redis calls).1).store.1 = _ :=
        congrArg (·.2.1.1) brief_serve_get
      dsimp only [Call.request]
      rw [hstore]
      exact ih.of_not_post (by simp)
    | delete user tasks =>
      dsimp only [Call.request]
      rw [store_serve_delete (ih.hash _)]
      exact ih.of_not_post (by simp)

theorem HoldsPosted.heldTasks_eq (h : HoldsPosted calls s) (key : String) :
    heldTasks s key = {t | Posted calls key t} := by
  ext t
  have hmem : t ∉ s.members key := by
    intro ht
    unfold Store.members at ht
    split at ht
    · rename_i m hm
      obtain ⟨f, hf⟩ := h.hash key _ hm
      cases hf
    · cases ht
  rw [heldTasks, Set.mem_ofPred_eq, Set.mem_ofPred_eq, ← h.field key t]
  exact or_iff_right hmem

theorem HoldsPosted.eq_none_iff (h : HoldsPosted calls s) (key : String) :
    s key = none ↔ ∀ t, ¬Posted calls key t := by
  constructor
  · intro hnone t ht
    have hfield := (h.field key t).mpr ht
    simp [Store.fields, hnone] at hfield
  · intro hno
    by_cases hnone : s key = none
    · exact hnone
    · obtain ⟨t, ht⟩ := h.nonempty key hnone
      exact absurd ht (hno t)

/-! ### The three parts -/

theorem not_getAnswers (render : Finset String → String) : ¬GetAnswers redis render calls user := by
  have hsent : ∀ s task, (serve redis .none (.getWatch user) task s).sent = [] := fun s task =>
    congrArg (·.2.2) (@brief_serve_get redis s task user)
  unfold GetAnswers
  split
  · rw [hsent]
    simp
  · rintro ⟨body, h⟩
    rw [hsent] at h
    cases h

theorem moves_served_iff : Moves (served redis calls).1 (served redis (calls ++ [.delete user tasks])).1 user tasks ↔
    ∀ t ∈ tasks, ¬Posted calls user t := by
  have hposted := holdsPosted_served redis calls
  have hsame : (served redis (calls ++ [.delete user tasks])).1 = (served redis calls).1 := by
    rw [served_append]
    exact store_serve_delete (hposted.hash user)
  rw [hsame]
  constructor
  · intro h t ht hpost
    have hmem : t ∈ heldTasks (served redis calls).1 user := by
      rw [hposted.heldTasks_eq]
      exact hpost
    rw [h.removed] at hmem
    exact hmem.2 ht
  · intro h
    have hnot : ∀ t ∈ heldTasks (served redis calls).1 user, t ∉ tasks := by
      intro t hmem ht
      rw [hposted.heldTasks_eq] at hmem
      exact h t ht hmem
    refine ⟨?_, ?_, fun _ _ _ => rfl⟩
    · exact Set.ext fun t => ⟨fun hmem => ⟨hmem, hnot t hmem⟩, And.left⟩
    · exact Set.ext fun t => ⟨Or.inl, fun hmem => hmem.resolve_right fun hx => hnot t hx.1 hx.2⟩

theorem typesMatch_post {todo : Todo} : TypesMatch redis calls (.post todo) := by
  have hhash := (holdsPosted_served redis calls).hash todo.entry.key
  intro c hc
  unfold serve at hc
  rw [show (Call.post todo).request.handler = postUsersTodos todo.body from rfl, postUsersTodos_eq, run_await] at hc
  simp only [execUnder, Faults.none, ↓reduceIte, Post.afterConnection, todoItemOf_body, run_await,
    Bool.false_eq_true, Redis.exec_exists, Post.afterExists, Redis.exec_hSet hhash, afterSet,
    Redis.exec_hGetAll Store.isHash_setFields_self, afterGetAll, run_send, run_pure, List.mem_cons,
    List.not_mem_nil, or_false] at hc
  rcases hc with rfl | rfl | rfl | rfl
  · rfl
  · rfl
  · simp [Command.wrongType, redis.encode_str, hhash]
  · simp [Command.wrongType, redis.encode_str]

theorem typesMatch_get : TypesMatch redis calls (.get user) := by
  intro c hc
  replace hc : c ∈ (run _ (.await Command.getConnection _) _ _).commands := hc
  rw [run_await] at hc
  rcases List.mem_cons.mp hc with rfl | hc
  · rfl
  · replace hc : c ∈ (run _ (.await (Command.exists .undefined) _) _ _).commands := hc
    rw [run_await, execUnder_of_not_fails (by simp) rfl, Redis.exec_exists_undefined] at hc
    rcases List.mem_cons.mp hc with rfl | hc
    · rfl
    · cases hc

theorem commands_serve_delete : (serve redis .none (.deleteWatch user (tasksBody tasks)) task s).commands =
    (Command.getConnection, (s, 0)) :: (.exists (.str user), (s, 0)) ::
      if (s user).isSome = true then
        (run (execUnder redis .none) (loop user (tasks.map .str)) task (s, 1)).commands
      else [] := by
  unfold serve
  rw [show (Request.deleteWatch user (tasksBody tasks)).handler = handler user tasks from rfl, handler_eq, run_await]
  simp only [execUnder, Faults.none, ↓reduceIte, Delete.afterConnection, run_await, Bool.false_eq_true,
    Redis.exec_exists]
  cases s user <;> rfl

theorem typesMatch_delete_iff : TypesMatch redis calls (.delete user tasks) ↔
    tasks = [] ∨ ∀ t, ¬Posted calls user t := by
  have hposted := holdsPosted_served redis calls
  rw [← hposted.eq_none_iff]
  unfold TypesMatch Call.request
  rw [commands_serve_delete]
  cases hkey : (served redis calls).1 user with
  | none =>
    refine ⟨fun _ => Or.inr rfl, fun _ c hc => ?_⟩
    simp only [Option.isSome_none, Bool.false_eq_true, ↓reduceIte, List.mem_cons, List.not_mem_nil, or_false] at hc
    rcases hc with rfl | rfl <;> rfl
  | some v =>
    obtain ⟨f, rfl⟩ := hposted.hash user v hkey
    cases tasks with
    | nil =>
      refine ⟨fun _ => Or.inl rfl, fun _ c hc => ?_⟩
      simp only [Option.isSome_some, ↓reduceIte, List.map_nil, loop_nil, run_send, run_pure, List.mem_cons,
        List.not_mem_nil, or_false] at hc
      rcases hc with rfl | rfl <;> rfl
    | cons t tasks =>
      refine ⟨fun h => ?_, fun h => by simp at h⟩
      have hwrong := h (.sIsMember (.str user) (.str t), ((served redis calls).1, 1)) (by
        rw [List.map_cons, loop_cons, run_assign, run_read, run_await]
        simp)
      simp [Command.wrongType, redis.encode_str, Store.not_isSet_of_hash hkey] at hwrong

end Refinement

open Refinement

/-- The API refines the map along no calls: whatever came before, a `GET` is not answered. A `DELETE` moves
    its tasks exactly when it names no posted task of its user, and no command meets a key of another type
    exactly when each `DELETE` is empty or for a user without posted tasks. -/
theorem api_not_refines (redis : NodeRedis) (render : Finset String → String) (calls : List Call) :
    ¬Refines redis render calls ∧
      (∀ pre, pre <+: calls → ∀ user, ¬GetAnswers redis render pre user) ∧
      ((∀ pre user tasks, pre ++ [.delete user tasks] <+: calls →
          Moves (served redis pre).1 (served redis (pre ++ [.delete user tasks])).1 user tasks) ↔
        ∀ pre user tasks, pre ++ [.delete user tasks] <+: calls → ∀ t ∈ tasks, ¬Posted pre user t) ∧
      ((∀ pre call, pre ++ [call] <+: calls → TypesMatch redis pre call) ↔
        ∀ pre user tasks, pre ++ [.delete user tasks] <+: calls → tasks = [] ∨ ∀ t, ¬Posted pre user t) := by
  refine ⟨fun h => not_getAnswers render (h.get [] List.nil_prefix ""), fun pre _ user => not_getAnswers render, ?_, ?_⟩
  · exact forall₄_congr fun pre user tasks _ => moves_served_iff
  · constructor
    · intro h pre user tasks hpre
      exact typesMatch_delete_iff.mp (h pre _ hpre)
    · intro h pre call hpre
      cases call with
      | post todo => exact typesMatch_post
      | get user => exact typesMatch_get
      | delete user tasks => exact typesMatch_delete_iff.mpr (h pre user tasks hpre)

def buyMilk : Todo := { assignee := "Will", task := "Buy milk", place := "STORE", time := "GENERAL", priority := "HIGH" }

/-- After a `POST` of a task of Will `GET /watch/123` sends nothing, and `DELETE /watch/123` of the task leaves
    it where it was. -/
theorem api_not_refines_post : openTasks [.post buyMilk] "123" = {"Buy milk"} ∧
    (serve nodeRedis .none (.getWatch "123") (served nodeRedis [.post buyMilk]).2
      (served nodeRedis [.post buyMilk]).1).sent = [] ∧
    ((served nodeRedis [.post buyMilk, .delete "123" ["Buy milk"]]).1.fields "123" "Buy milk").isSome = true ∧
    ¬Refines nodeRedis (fun _ => "Buy milk") [.post buyMilk] := by
  refine ⟨by decide +kernel, by decide +kernel, by decide +kernel, fun h => ?_⟩
  exact not_getAnswers _ (h.get [.post buyMilk] (List.prefix_refl _) "123")

end TodoWatch
