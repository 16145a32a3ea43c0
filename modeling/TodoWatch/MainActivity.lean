import TodoWatch.TodoDatabase

/-! # The activity's user and lists

`MainActivity.createUser` with the preferences of `UserData`, which hold at most one user, and the two functions
that fetch the lists of the pages. -/

namespace TodoWatch

/-- The user in the preferences, if one was saved. -/
abbrev UserPrefs := Option User

def UserPrefs.getUser (prefs : UserPrefs) : Option User := prefs

def UserPrefs.saveUser (_ : UserPrefs) (user : User) : UserPrefs := some user

/-- `MainActivity.createUser`: the saved user, or a new one, which is saved. `uuid` is the random id that
    the constructor of `User` draws. -/
def createUser (prefs : UserPrefs) (uuid : String) : User × UserPrefs :=
  match prefs.getUser with
  | some retrievedUser => (retrievedUser, prefs)
  | none =>
    let locationMap : Entries LocationRange := Entries.put (Entries.put (Entries.put []
      "home" ⟨32.870, 32.871, -117.217, -117.216⟩)
      "school" ⟨32.871, 32.891, -117.242, -117.228⟩)
      "store" ⟨32.868, 32.872, -117.213, -117.208⟩
    let timeMap : Entries TimeRange := Entries.put (Entries.put (Entries.put (Entries.put []
      "before_working" ⟨7, 0, 8, 59⟩)
      "working" ⟨9, 0, 16, 59⟩)
      "rest" ⟨17, 0, 22, 59⟩)
      "sleep" ⟨23, 0, 6, 59⟩
    let user : User := { id := uuid, name := "Steve Jobs", locationMap, timeMap }
    (user, prefs.saveUser user)

/-! ### The lists -/

def insertTodos (gson : Gson) (db : TodoDatabase) : Preferences → List TodoItem → Except JavaException Preferences
  | prefs, [] => .ok prefs
  | prefs, item :: items => do insertTodos gson db (← db.insertTodo gson prefs item) items

/-- What `fetchPersonalTodos` and `fetchGroupTodos` have in common. `mock` are the items of an empty store, and
    `fetched` is what `RedisHelper.getTodos` returns. -/
def fetchTodos (gson : Gson) (db : TodoDatabase) (mock fetched : List TodoItem) (prefs : Preferences) :
    Except JavaException (List TodoItem × Preferences) := do
  let todoItems ← db.getAllTodos gson prefs
  if todoItems.isEmpty then
    let todos := mock ++ fetched
    let prefs ← insertTodos gson db prefs todos
    return (todos, prefs)
  else
    let prefs ← insertTodos gson db prefs fetched
    return (todoItems, prefs)

def personalMock : List TodoItem :=
  [⟨"Buy concert ticket", .medium, .general, .general, false, ""⟩,
    ⟨"Buy groceries", .low, .store, .working, false, ""⟩,
    ⟨"Submit next week's progress", .low, .school, .working, false, ""⟩]

def groupMock : List TodoItem :=
  [⟨"Plan group presentation", .high, .work, .working, false, "Will"⟩,
    ⟨"Review project milestones", .medium, .work, .working, false, "Chuong"⟩]

def fetchPersonalTodos (gson : Gson) (fetched : List TodoItem) (prefs : Preferences) :
    Except JavaException (List TodoItem × Preferences) :=
  fetchTodos gson ⟨"personalTodoTemp"⟩ personalMock fetched prefs

def fetchGroupTodos (gson : Gson) (fetched : List TodoItem) (prefs : Preferences) :
    Except JavaException (List TodoItem × Preferences) :=
  fetchTodos gson ⟨"groupTodo"⟩ groupMock fetched prefs

section Fetch
variable {gson : Gson} {db : TodoDatabase} {prefs : Preferences} {todos : List TodoItem}

theorem insertTodos_of_ok (h : db.getAllTodos gson prefs = .ok todos) (items : List TodoItem) :
    ∃ prefs', insertTodos gson db prefs items = .ok prefs' ∧ db.getAllTodos gson prefs' = .ok (todos ++ items) := by
  induction items generalizing prefs todos with
  | nil => exact ⟨prefs, rfl, by rwa [List.append_nil]⟩
  | cons item items ih =>
    have hsaved : db.getAllTodos gson (db.saveTodos gson prefs (todos ++ [item])) = .ok (todos ++ [item]) :=
      TodoDatabase.getAllTodos_saveTodos
    obtain ⟨prefs', hinsert, hget⟩ := ih hsaved
    refine ⟨prefs', ?_, by rw [hget, List.append_assoc, List.singleton_append]⟩
    rw [insertTodos, TodoDatabase.insertTodo_of_ok h]
    exact hinsert

/-- An empty store gets the mock items as well, and only then is what was fetched in the list. -/
theorem fetchTodos_of_ok (h : db.getAllTodos gson prefs = .ok todos) (mock fetched : List TodoItem) :
    ∃ prefs', fetchTodos gson db mock fetched prefs = .ok (if todos = [] then mock ++ fetched else todos, prefs') ∧
      db.getAllTodos gson prefs' = .ok (if todos = [] then mock ++ fetched else todos ++ fetched) := by
  cases todos with
  | nil =>
    obtain ⟨prefs', hinsert, hget⟩ := insertTodos_of_ok h (mock ++ fetched)
    refine ⟨prefs', ?_, hget⟩
    rw [fetchTodos, h]
    show (insertTodos gson db prefs (mock ++ fetched) >>= _) = _
    rw [hinsert]
    rfl
  | cons item rest =>
    obtain ⟨prefs', hinsert, hget⟩ := insertTodos_of_ok h fetched
    refine ⟨prefs', ?_, hget⟩
    rw [fetchTodos, h]
    show (insertTodos gson db prefs fetched >>= _) = _
    rw [hinsert]
    rfl

end Fetch

end TodoWatch
