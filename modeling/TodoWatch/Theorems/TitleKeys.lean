import TodoWatch.TodoDatabase
import TodoWatch.Lib.Runs

/-! # Is the title a key of the store?

`updateTodo` and `deleteTodo` stop at the first item with the title, so they rely on distinct titles. Only
`insertTodo` can break this: it adds an item whatever its title is. -/

namespace TodoWatch
namespace TodoDatabase

variable {gson : Gson} {db : TodoDatabase} {prefs prefs' : Preferences} {todos : List TodoItem} {operation : Operation}

/-- The store decodes, to items with distinct titles. -/
def DistinctTitles (gson : Gson) (db : TodoDatabase) (prefs : Preferences) : Prop :=
  ∃ todos, getAllTodos gson db prefs = .ok todos ∧ (todos.map TodoItem.title).Nodup

/-- An insertion brings a title that the store has not. -/
def InsertsNew (gson : Gson) (db : TodoDatabase) (prefs : Preferences) (operation : Operation) : Prop :=
  ∀ todoItem, operation = .insertTodo todoItem → ∀ todos, getAllTodos gson db prefs = .ok todos →
    todoItem.title ∉ todos.map TodoItem.title

/-- What a call with a title leaves under the title: nothing after `deleteTodo`, the new item after
    `updateTodo`. -/
def ActsOnTitle (gson : Gson) (db : TodoDatabase) (prefs' : Preferences) : Operation → Prop
  | .deleteTodo title => ∀ todos, getAllTodos gson db prefs' = .ok todos → ∀ item ∈ todos, item.title ≠ title
  | .updateTodo updated => ∀ todos, getAllTodos gson db prefs' = .ok todos → ∀ item ∈ todos,
      item.title = updated.title → item = updated
  | _ => True

/-! ### The calls on lists -/

namespace Operation

/-- What a call makes of the items. -/
def on (todos : List TodoItem) : Operation → List TodoItem
  | insertTodo todoItem => todos ++ [todoItem]
  | updateTodo updated => match todos.findIdx? (·.title == updated.title) with
    | some i => todos.set i updated
    | none => todos
  | deleteTodo title => match todos.findIdx? (·.title == title) with
    | some i => todos.eraseIdx i
    | none => todos
  | removeTodoList => []

/-- A call on a store that decodes does not throw, and does to the items what it does to the list. -/
theorem apply_of_ok (h : getAllTodos gson db prefs = .ok todos) :
    ∃ prefs', operation.apply gson db prefs = .ok prefs' ∧ getAllTodos gson db prefs' = .ok (operation.on todos) := by
  cases operation with
  | insertTodo todoItem => exact ⟨_, insertTodo_of_ok h todoItem, getAllTodos_saveTodos⟩
  | updateTodo updated =>
    refine ⟨saveTodos gson db prefs ((updateTodo updated).on todos), ?_, getAllTodos_saveTodos⟩
    simp only [apply, TodoDatabase.updateTodo, h, on, bind, Except.bind]
    cases todos.findIdx? (·.title == updated.title) <;> rfl
  | deleteTodo title =>
    refine ⟨saveTodos gson db prefs ((deleteTodo title).on todos), ?_, getAllTodos_saveTodos⟩
    simp only [apply, TodoDatabase.deleteTodo, h, on, bind, Except.bind]
    cases todos.findIdx? (·.title == title) <;> rfl
  | removeTodoList =>
    refine ⟨_, rfl, ?_⟩
    rw [getAllTodos, TodoDatabase.removeTodoList, Function.update_self]
    exact gson.fromJson_empty

theorem nodup_on (h : (todos.map TodoItem.title).Nodup)
    (hnew : ∀ todoItem, operation = .insertTodo todoItem → todoItem.title ∉ todos.map TodoItem.title) :
    ((operation.on todos).map TodoItem.title).Nodup := by
  cases operation with
  | insertTodo todoItem => exact (Keyed.nodup_append_iff h).mpr (hnew todoItem rfl)
  | updateTodo updated =>
    unfold on
    dsimp only
    split
    · rename_i i hfind
      obtain ⟨item, hi, htitle⟩ := Keyed.getElem?_of_findIdx? hfind
      rw [Keyed.map_set hi htitle.symm]
      exact h
    · exact h
  | deleteTodo title =>
    unfold on
    dsimp only
    split
    · exact Keyed.nodup_eraseIdx h
    · exact h
  | removeTodoList => exact List.nodup_nil

end Operation

/-! ### Steps -/

theorem exists_step (operation : Operation) (h : getAllTodos gson db prefs = .ok todos) :
    ∃ prefs', step gson db prefs operation = some prefs' ∧ getAllTodos gson db prefs' = .ok (operation.on todos) := by
  obtain ⟨prefs', happly, hget⟩ := Operation.apply_of_ok h
  exact ⟨prefs', by rw [step, happly]; rfl, hget⟩

theorem step_of_ok (h : getAllTodos gson db prefs = .ok todos) (hs : step gson db prefs operation = some prefs') :
    getAllTodos gson db prefs' = .ok (operation.on todos) := by
  obtain ⟨prefs'', hs', hget⟩ := exists_step operation h
  obtain rfl := Option.some.inj (hs.symm.trans hs')
  exact hget

theorem distinctTitles_step (h : DistinctTitles gson db prefs) (hnew : InsertsNew gson db prefs operation)
    (hs : step gson db prefs operation = some prefs') : DistinctTitles gson db prefs' := by
  obtain ⟨todos, hget, hnodup⟩ := h
  exact ⟨_, step_of_ok hget hs, Operation.nodup_on hnodup fun todoItem hop => hnew todoItem hop todos hget⟩

theorem not_distinctTitles_step (h : DistinctTitles gson db prefs) (hold : ¬InsertsNew gson db prefs operation)
    (hs : step gson db prefs operation = some prefs') : ¬DistinctTitles gson db prefs' := by
  obtain ⟨todos, hget, hnodup⟩ := h
  rintro ⟨todos', hget', hnodup'⟩
  rw [step_of_ok hget hs] at hget'
  obtain rfl := Except.ok.inj hget'
  refine hold fun todoItem hop todos'' hget'' => ?_
  obtain rfl := Except.ok.inj (hget.symm.trans hget'')
  rw [hop] at hnodup'
  exact (Keyed.nodup_append_iff hnodup).mp hnodup'

/-- Distinct titles make the first item with a title the only one. -/
theorem actsOnTitle_step (h : DistinctTitles gson db prefs) (hs : step gson db prefs operation = some prefs') :
    ActsOnTitle gson db prefs' operation := by
  obtain ⟨todos, hget, hnodup⟩ := h
  have hget' := step_of_ok hget hs
  cases operation with
  | insertTodo _ => trivial
  | removeTodoList => trivial
  | deleteTodo title =>
    intro todos' htodos' item hitem
    obtain rfl := Except.ok.inj (hget'.symm.trans htodos')
    unfold Operation.on at hitem
    dsimp only at hitem
    split at hitem
    · rename_i i hfind
      obtain ⟨found, hi, htitle⟩ := Keyed.getElem?_of_findIdx? hfind
      rw [← htitle]
      exact Keyed.key_ne_of_mem_eraseIdx hnodup hi hitem
    · rename_i hfind
      exact Keyed.findIdx?_eq_none hfind item hitem
  | updateTodo updated =>
    intro todos' htodos' item hitem htitle
    obtain rfl := Except.ok.inj (hget'.symm.trans htodos')
    unfold Operation.on at hitem
    dsimp only at hitem
    split at hitem
    · rename_i i hfind
      obtain ⟨found, hi, hfound⟩ := Keyed.getElem?_of_findIdx? hfind
      exact Keyed.eq_of_mem_set hnodup hi hfound.symm hitem htitle
    · rename_i hfind
      exact absurd htitle (Keyed.findIdx?_eq_none hfind item hitem)

end TodoDatabase

open TodoDatabase

/-- In a run of calls from an empty store titles stay distinct, and `deleteTodo` and `updateTodo` act on whatever
    has the title, exactly when every insertion brings a new title. -/
theorem todoDatabase_title_iff (gson : Gson) (db : TodoDatabase) (prefs : Preferences)
    (hempty : getAllTodos gson db prefs = .ok []) (operations : List Operation) :
    Runs.Always (step gson db) (DistinctTitles gson db) prefs operations ∧
        Runs.Meets (step gson db) (fun s operation => ∀ t, step gson db s operation = some t →
          ActsOnTitle gson db t operation) prefs operations ↔
      Runs.Meets (step gson db) (InsertsNew gson db) prefs operations := by
  have hstart : DistinctTitles gson db prefs := ⟨[], hempty, List.nodup_nil⟩
  have hiff : Runs.Always (step gson db) (DistinctTitles gson db) prefs operations ↔
      Runs.Meets (step gson db) (InsertsNew gson db) prefs operations :=
    Runs.always_iff_meets (fun _ _ _ h hc hs => distinctTitles_step h hc hs) (fun _ h => h)
      (fun _ _ _ h hc hs => not_distinctTitles_step h hc hs) hstart
  refine ⟨fun h => hiff.mp h.1, fun hm => ⟨hiff.mpr hm, ?_⟩⟩
  exact Runs.meets_of_always (fun _ _ h t hs => actsOnTitle_step h hs) (hiff.mpr hm)

/-- A title that is inserted and deleted. -/
theorem todoDatabase_title_once :
    Runs.Always (step gson ⟨"groupTodo"⟩) (DistinctTitles gson ⟨"groupTodo"⟩) (fun _ => none)
        [.insertTodo (.ofTitle "Buy milk"), .deleteTodo "Buy milk"] ∧
      Runs.Meets (step gson ⟨"groupTodo"⟩) (fun s operation => ∀ t, step gson ⟨"groupTodo"⟩ s operation = some t →
          ActsOnTitle gson ⟨"groupTodo"⟩ t operation) (fun _ => none)
        [.insertTodo (.ofTitle "Buy milk"), .deleteTodo "Buy milk"] := by
  refine (todoDatabase_title_iff gson ⟨"groupTodo"⟩ (fun _ => none) gson.fromJson_empty _).mpr fun s _ => ⟨?_, ?_⟩
  · intro _ _ todos hget
    obtain rfl := Except.ok.inj (gson.fromJson_empty.symm.trans hget)
    exact List.not_mem_nil
  · exact fun _ _ => ⟨fun _ hop => (by cases hop), trivial⟩

/-- The same title is inserted twice, and one of the two items survives its deletion. -/
theorem todoDatabase_title_twice :
    let milk : TodoItem := .ofTitle "Buy milk"
    ∃ twice left,
      Runs.run (step gson ⟨"groupTodo"⟩) (fun _ => none) [.insertTodo milk, .insertTodo milk] = some twice ∧
      getAllTodos gson ⟨"groupTodo"⟩ twice = .ok [milk, milk] ∧
      step gson ⟨"groupTodo"⟩ twice (.deleteTodo "Buy milk") = some left ∧
      getAllTodos gson ⟨"groupTodo"⟩ left = .ok [milk] := by
  intro milk
  have hempty : getAllTodos gson ⟨"groupTodo"⟩ (fun _ => none) = .ok [] := gson.fromJson_empty
  obtain ⟨once, hs₁, honce⟩ := exists_step (.insertTodo milk) hempty
  obtain ⟨twice, hs₂, htwice⟩ := exists_step (.insertTodo milk) honce
  obtain ⟨left, hs₃, hleft⟩ := exists_step (.deleteTodo "Buy milk") htwice
  refine ⟨twice, left, ?_, htwice, hs₃, hleft⟩
  rw [Runs.run, hs₁, Option.bind_some, Runs.run, hs₂]
  rfl

end TodoWatch
