import TodoWatch.Theorems.TitleKeys

/-! # Stores as queues

Where titles repeat, a store is a queue under each title: `insertTodo` adds at its end, `updateTodo` replaces its
head and `deleteTodo` takes it. Stores with different keys share the preferences and nothing else. So in any order
of calls on any of them, each store holds what its own calls make of its queues. -/

namespace TodoWatch
namespace TodoDatabase

variable {gson : Gson} {db db' : TodoDatabase} {prefs prefs' : Preferences} {todos : List TodoItem} {operation : Operation}

/-- The items under each title, in the order in which they came. -/
abbrev Queues := String → List TodoItem

/-- What a call asks of the queues. -/
def Queues.step (q : Queues) : Operation → Queues
  | .insertTodo todoItem => Function.update q todoItem.title (q todoItem.title ++ [todoItem])
  | .updateTodo updated => match q updated.title with
    | [] => q
    | _ :: rest => Function.update q updated.title (updated :: rest)
  | .deleteTodo title => Function.update q title (q title).tail
  | .removeTodoList => fun _ => []

/-- Each store decodes to items in these queues. -/
def Holds (gson : Gson) (prefs : Preferences) (q : TodoDatabase → Queues) : Prop :=
  ∀ db : TodoDatabase, ∃ todos, db.getAllTodos gson prefs = .ok todos ∧ Keyed.queues TodoItem.title todos = q db

/-- A call on one of the stores. -/
def call (gson : Gson) (prefs : Preferences) (c : TodoDatabase × Operation) : Option Preferences :=
  step gson c.1 prefs c.2

/-! ### One call -/

theorem queues_on (todos : List TodoItem) (operation : Operation) :
    Keyed.queues TodoItem.title (operation.on todos) = Queues.step (Keyed.queues TodoItem.title todos) operation := by
  cases operation with
  | insertTodo todoItem => exact Keyed.queues_append
  | updateTodo updated =>
    unfold Operation.on Queues.step
    dsimp only
    cases hfind : todos.findIdx? (·.title == updated.title) with
    | none => rw [Keyed.queues_eq_nil hfind]
    | some i =>
      dsimp only
      rw [Keyed.queues_set hfind]
      cases hqueue : Keyed.queues TodoItem.title todos updated.title with
      | nil => exact absurd hqueue (Keyed.queues_ne_nil hfind)
      | cons x rest => rfl
  | deleteTodo title =>
    unfold Operation.on Queues.step
    dsimp only
    cases hfind : todos.findIdx? (·.title == title) with
    | none => rw [Keyed.queues_eq_nil hfind, List.tail_nil, ← Keyed.queues_eq_nil hfind, Function.update_eq_self]
    | some i => exact Keyed.queues_eraseIdx hfind
  | removeTodoList => rfl

/-- A call writes to no file but that of its store. -/
theorem prefs_apply_of_ne {key : String} (hkey : key ≠ db.key) (h : operation.apply gson db prefs = .ok prefs') :
    prefs' key = prefs key := by
  cases operation with
  | insertTodo todoItem =>
    obtain ⟨todos, -, h⟩ := bind_eq_ok.mp h
    rw [← Except.ok.inj h]
    exact Function.update_of_ne hkey _ _
  | updateTodo updated =>
    obtain ⟨todos, -, h⟩ := bind_eq_ok.mp h
    split at h <;>
    · rw [← Except.ok.inj h]
      exact Function.update_of_ne hkey _ _
  | deleteTodo title =>
    obtain ⟨todos, -, h⟩ := bind_eq_ok.mp h
    split at h <;>
    · rw [← Except.ok.inj h]
      exact Function.update_of_ne hkey _ _
  | removeTodoList =>
    rw [← Except.ok.inj h]
    exact Function.update_of_ne hkey _ _

theorem step_spec (h : getAllTodos gson db prefs = .ok todos) (operation : Operation) : ∃ prefs',
    step gson db prefs operation = some prefs' ∧ getAllTodos gson db prefs' = .ok (operation.on todos) ∧
      ∀ db' : TodoDatabase, db' ≠ db → getAllTodos gson db' prefs' = getAllTodos gson db' prefs := by
  obtain ⟨prefs', happly, hget⟩ : ∃ prefs', operation.apply gson db prefs = .ok prefs' ∧
    getAllTodos gson db prefs' = .ok (operation.on todos) := Operation.apply_of_ok h
  refine ⟨prefs', by rw [step, happly]; rfl, hget, fun db' hne => ?_⟩
  have hkey : db'.key ≠ db.key := fun heq => hne (by cases db; cases db'; cases heq; rfl)
  rw [getAllTodos, prefs_apply_of_ne hkey happly, getAllTodos]

/-! ### Runs -/

/-- The queues of a store after calls on this store and others: only its own count. -/
def queuesAfter (q : TodoDatabase → Queues) (calls : List (TodoDatabase × Operation)) : TodoDatabase → Queues :=
  fun db => ((calls.filter (·.1 == db)).map Prod.snd).foldl Queues.step (q db)

theorem queuesAfter_cons (q : TodoDatabase → Queues) (c : TodoDatabase × Operation) (calls : List (TodoDatabase × Operation)) :
    queuesAfter q (c :: calls) = queuesAfter (Function.update q c.1 (Queues.step (q c.1) c.2)) calls := by
  funext db
  unfold queuesAfter
  by_cases hdb : c.1 = db
  · subst hdb
    simp
  · rw [Function.update_of_ne (Ne.symm hdb), List.filter_cons_of_neg (by simpa using hdb)]

theorem holds_call {q : TodoDatabase → Queues} (h : Holds gson prefs q) (c : TodoDatabase × Operation) : ∃ prefs',
    call gson prefs c = some prefs' ∧ Holds gson prefs' (Function.update q c.1 (Queues.step (q c.1) c.2)) := by
  obtain ⟨todos, hget, hqueues⟩ := h c.1
  obtain ⟨prefs', hstep, hget', hothers⟩ := step_spec hget c.2
  refine ⟨prefs', hstep, fun db => ?_⟩
  by_cases hdb : db = c.1
  · subst hdb
    exact ⟨_, hget', by rw [queues_on, hqueues, Function.update_self]⟩
  · rw [hothers db hdb, Function.update_of_ne hdb]
    exact h db

end TodoDatabase

open TodoDatabase

/-- Calls on any stores, in any order, go through from stores that decode, and leave in each store the queues that its
    own calls make in their order. -/
theorem todoDatabase_queues (gson : Gson) (prefs : Preferences) (q : TodoDatabase → Queues) (h : Holds gson prefs q)
    (calls : List (TodoDatabase × Operation)) :
    ∃ prefs', Runs.run (call gson) prefs calls = some prefs' ∧ Holds gson prefs' (queuesAfter q calls) := by
  induction calls generalizing prefs q with
  | nil => exact ⟨prefs, rfl, h⟩
  | cons c calls ih =>
    obtain ⟨prefs', hcall, hholds⟩ := holds_call h c
    obtain ⟨prefs'', hrun, hholds'⟩ := ih prefs' _ hholds
    exact ⟨prefs'', Runs.run_cons.mpr ⟨prefs', hcall, hrun⟩, by rwa [queuesAfter_cons]⟩

/-- A title that is inserted twice and deleted once, while the other store has an item of this title as well. -/
theorem todoDatabase_queues_milk :
    let milk : TodoItem := .ofTitle "Buy milk"
    let calls : List (TodoDatabase × Operation) := [(⟨"groupTodo"⟩, .insertTodo milk),
      (⟨"personalTodoTemp"⟩, .insertTodo milk), (⟨"groupTodo"⟩, .insertTodo (milk.setDone true)),
      (⟨"groupTodo"⟩, .deleteTodo "Buy milk")]
    queuesAfter (fun _ _ => []) calls ⟨"groupTodo"⟩ "Buy milk" = [milk.setDone true] ∧
      queuesAfter (fun _ _ => []) calls ⟨"personalTodoTemp"⟩ "Buy milk" = [milk] ∧
      ∃ prefs', Runs.run (call gson) (fun _ => none) calls = some prefs' ∧
        Holds gson prefs' (queuesAfter (fun _ _ => []) calls) := by
  refine ⟨by decide, by decide, todoDatabase_queues gson (fun _ => none) (fun _ _ => []) (fun db => ⟨[], ?_, rfl⟩) _⟩
  rw [getAllTodos]
  exact gson.fromJson_empty

end TodoWatch
