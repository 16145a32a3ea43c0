import TodoWatch.Sorter
import TodoWatch.TodoDatabase

/-! # The screen

`MainActivity` with its two lists of items, the adapter of its pages, and the fragments that the adapter
has created. The lists are shared by reference: a fragment knows which list it shows, and a checkbox the
position of its item in it. Each handler runs to its end on the UI thread, or an exception leaves it. -/

namespace TodoWatch

/-- A list of items in memory: `personalTodoItems` or `groupTodoItems`. -/
inductive ItemList where
  | personal
  | group
  deriving DecidableEq, Repr

/-- The database that `fetchPersonalTodos` or `fetchGroupTodos` opened for the list. -/
def ItemList.database : ItemList → TodoDatabase
  | personal => ⟨"personalTodoTemp"⟩
  | group => ⟨"groupTodo"⟩

inductive FilterStrategy where
  | groupFilter
  | allFilter
  deriving DecidableEq, Repr

def getFilter (filterType : String) : FilterStrategy :=
  if filterType = "Group" then .groupFilter else .allFilter

structure CheckBox where
  item : Nat
  isChecked : Bool
  deriving DecidableEq, Repr

/-- The two sections of a view. Done items have no checkbox. -/
structure TodoListView where
  notDone : List CheckBox
  done : List Nat
  deriving DecidableEq, Repr

structure FilteredTodoFragment where
  filterStrategy : FilterStrategy
  allTodoItems : ItemList
  todoDatabase : TodoDatabase
  user : User
  lat : ℚ
  lng : ℚ
  time : Int
  /-- `getView()`, which is `null` until the view is created. -/
  view : Option TodoListView
  deriving DecidableEq, Repr

structure TodoPageAdapter where
  todoItems : ItemList
  currentFilter : String
  todoDatabase : TodoDatabase
  user : User
  deriving DecidableEq, Repr

namespace TodoPageAdapter

def updateItems (adapter : TodoPageAdapter) (newItems : ItemList) (filter : String) (todoDatabase : TodoDatabase) :
    TodoPageAdapter :=
  { adapter with todoItems := newItems, currentFilter := filter, todoDatabase }

def newFragment (adapter : TodoPageAdapter) (filterStrategy : FilterStrategy) : FilteredTodoFragment where
  filterStrategy := filterStrategy
  allTodoItems := adapter.todoItems
  todoDatabase := adapter.todoDatabase
  user := adapter.user
  lat := 0
  lng := 0
  time := 0
  view := none

@[simp] theorem newFragment_allTodoItems (adapter : TodoPageAdapter) (filterStrategy : FilterStrategy) :
    (adapter.newFragment filterStrategy).allTodoItems = adapter.todoItems := rfl

@[simp] theorem newFragment_todoDatabase (adapter : TodoPageAdapter) (filterStrategy : FilterStrategy) :
    (adapter.newFragment filterStrategy).todoDatabase = adapter.todoDatabase := rfl

def createFragment (adapter : TodoPageAdapter) (position : Nat) : Except JavaException FilteredTodoFragment :=
  match position with
  | 0 =>
    if adapter.currentFilter = "Personal" then .ok (adapter.newFragment (getFilter "Personal"))
    else .ok (adapter.newFragment (getFilter "Group"))
  | 1 =>
    if adapter.currentFilter = "Group" then .ok (adapter.newFragment (getFilter "Group"))
    else .ok (adapter.newFragment (getFilter "Personal"))
  | _ => .error (.illegalState "Invalid position for fragment creation")

/-- Only the two pages get a fragment, and it has all but its filter from the adapter. -/
theorem createFragment_eq_ok {adapter : TodoPageAdapter} {position : Nat} {x : FilteredTodoFragment}
    (h : adapter.createFragment position = .ok x) :
    (position = 0 ∨ position = 1) ∧ ∃ filter, x = adapter.newFragment filter := by
  unfold createFragment at h
  split at h
  · refine ⟨Or.inl rfl, ?_⟩
    split at h <;> exact ⟨_, (Except.ok.inj h).symm⟩
  · refine ⟨Or.inr rfl, ?_⟩
    split at h <;> exact ⟨_, (Except.ok.inj h).symm⟩
  · cases h

end TodoPageAdapter

structure Screen where
  personalTodoItems : List TodoItem
  groupTodoItems : List TodoItem
  prefs : Preferences
  adapter : TodoPageAdapter
  fragments : List FilteredTodoFragment

namespace Screen

def items (s : Screen) : ItemList → List TodoItem
  | .personal => s.personalTodoItems
  | .group => s.groupTodoItems

def setItems (s : Screen) (list : ItemList) (items : List TodoItem) : Screen :=
  match list with
  | .personal => { s with personalTodoItems := items }
  | .group => { s with groupTodoItems := items }

/-- `MainActivity.onCreate`, after the lists are fetched. -/
def onCreate (personalTodoItems groupTodoItems : List TodoItem) (prefs : Preferences) (user : User) : Screen where
  personalTodoItems := personalTodoItems
  groupTodoItems := groupTodoItems
  prefs := prefs
  adapter :=
    { todoItems := .personal
      currentFilter := "Personal"
      todoDatabase := ItemList.database .personal
      user }
  fragments := []

def onPageSelected (s : Screen) (position : Nat) : Screen :=
  if position = 0 then
    { s with adapter := s.adapter.updateItems .personal "Personal" (ItemList.database .personal) }
  else
    { s with adapter := s.adapter.updateItems .group "Group" (ItemList.database .group) }

/-- How a handler ends: the screen that it leaves, and the exception if one left it. -/
structure Ended where
  screen : Screen
  thrown : Option JavaException

def Ended.andThen (x : Ended) (next : Screen → Ended) : Ended :=
  match x.thrown with
  | none => next x.screen
  | some _ => x

def setFragment (s : Screen) (f : Nat) (fragment : FilteredTodoFragment) : Screen :=
  { s with fragments := s.fragments.set f fragment }

def setPrefs (s : Screen) (prefs : Preferences) : Screen := { s with prefs }

/-- `renderTodoList`. The view is cleared first. `zone` is the offset of the default time zone. -/
def renderTodoList (zone : Int → Int) (f : Nat) (fragment : FilteredTodoFragment) (s : Screen) : Ended :=
  let allTodoItems := (s.items fragment.allTodoItems).zipIdx
  let doneItems := allTodoItems.filter fun item => item.1.isDone
  let notDoneItems := allTodoItems.filter fun item => !item.1.isDone
  -- `TodoSorter.sortNotDoneItems` on the references.
  let sorted := Sorting.sortByKey (fun item => (getItemScore item.1 fragment.user fragment.lat fragment.lng
    fragment.time (zone fragment.time)).map (-·)) notDoneItems
  match sorted with
  | .ok notDoneItems =>
    let view : TodoListView :=
      { notDone := notDoneItems.map fun item => { item := item.2, isChecked := item.1.isDone }
        done := doneItems.map Prod.snd }
    { screen := s.setFragment f { fragment with view := some view }, thrown := none }
  | .error e =>
    { screen := s.setFragment f { fragment with view := some { notDone := [], done := [] } }, thrown := some e }

def updateTodo (gson : Gson) (db : TodoDatabase) (item : TodoItem) (s : Screen) : Ended :=
  match db.updateTodo gson s.prefs item with
  | .ok prefs => { screen := s.setPrefs prefs, thrown := none }
  | .error e => { screen := s, thrown := some e }

/-- The listener of a checkbox, for the item at a position of the fragment's list. -/
def onCheckedChanged (gson : Gson) (zone : Int → Int) (f : Nat) (fragment : FilteredTodoFragment) (i : Nat)
    (item : TodoItem) (isChecked : Bool) (s : Screen) : Ended :=
  let item := item.setDone isChecked
  let s := s.setItems fragment.allTodoItems ((s.items fragment.allTodoItems).set i item)
  (renderTodoList zone f fragment s).andThen (updateTodo gson fragment.todoDatabase item)

def updateLocationAndTime (zone : Int → Int) (f : Nat) (fragment : FilteredTodoFragment) (lat lng : ℚ)
    (curTime : Int) (s : Screen) : Ended :=
  let fragment := { fragment with lat, lng, time := curTime }
  match fragment.view with
  | some _ => renderTodoList zone f fragment s
  | none => { screen := s.setFragment f fragment, thrown := none }

inductive Event where
  | onPageSelected (position : Nat)
  | createFragment (position : Nat)
  | onViewCreated (f : Nat)
  | updateLocationAndTime (f : Nat) (lat lng : ℚ) (curTime : Int)
  | tick (f box : Nat)

/-- The checkbox at a place of a fragment's view, with the item that it is for. -/
def attached (s : Screen) (fragment : FilteredTodoFragment) (box : Nat) : Option (CheckBox × TodoItem) := do
  let view ← fragment.view
  let checkBox ← view.notDone[box]?
  let item ← (s.items fragment.allTodoItems)[checkBox.item]?
  return (checkBox, item)

/-- What the handler of an event does, if the event is possible. -/
def handle (gson : Gson) (zone : Int → Int) (s : Screen) : Event → Option Ended
  | .onPageSelected position => some { screen := s.onPageSelected position, thrown := none }
  | .createFragment position => match s.adapter.createFragment position with
    | .ok fragment => some { screen := { s with fragments := s.fragments ++ [fragment] }, thrown := none }
    | .error e => some { screen := s, thrown := some e }
  | .onViewCreated f => s.fragments[f]?.map fun fragment => renderTodoList zone f fragment s
  | .updateLocationAndTime f lat lng curTime =>
    s.fragments[f]?.map fun fragment => updateLocationAndTime zone f fragment lat lng curTime s
  | .tick f box => do
    let fragment ← s.fragments[f]?
    let (checkBox, item) ← s.attached fragment box
    return onCheckedChanged gson zone f fragment checkBox.item item (!checkBox.isChecked) s

/-- What a handler leaves, also when an exception ends it. -/
def next (gson : Gson) (zone : Int → Int) (s : Screen) (e : Event) : Option Screen :=
  (s.handle gson zone e).map Ended.screen

/-- The next state of a run in which no handler throws. -/
def step (gson : Gson) (zone : Int → Int) (s : Screen) (e : Event) : Option Screen :=
  match s.handle gson zone e with
  | some { screen, thrown := none } => some screen
  | _ => none

end Screen

end TodoWatch
