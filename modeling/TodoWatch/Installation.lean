import TodoWatch.Lib.WriteBack
import TodoWatch.MainActivity
import TodoWatch.PeriodicCheck
import TodoWatch.ReminderLoop
import TodoWatch.Screen

/-! # The app on a watch

All of the app together, from its installation on: the preferences files, in memory and on disk, the process with
its static fields, the activity with its screen, and the services with their checks. The editors of the app call
`apply`, which changes the preferences in memory and writes the file later. Everything runs on the main thread of
the process; an exception there ends it. -/

namespace TodoWatch

/-! ### Files -/

/-- The preferences files: those of the stores, by the text under `todo_list`, `UserPrefs`, and
    `todo_notifications`. -/
structure Files where
  todos : String → WriteBack (Option String)
  user : WriteBack UserPrefs
  notified : WriteBack NotificationCache

namespace RedisHelper

def getTodos (_key : String) : List TodoItem := []

end RedisHelper

namespace Files

def installed : Files where
  todos _ := .saved none
  user := .saved none
  notified := .saved fun _ => none

def prefs (files : Files) : Preferences := fun key => (files.todos key).memory

def onDisk (files : Files) : Preferences := fun key => (files.todos key).disk

/-- The editors write the files that they change. -/
def apply (files : Files) (prefs : Preferences) : Files :=
  { files with
    todos := fun key =>
      if prefs key = (files.todos key).memory then files.todos key else (files.todos key).write (prefs key) }

def applyUser (files : Files) (prefs : UserPrefs) : Files :=
  { files with user := if prefs = files.user.memory then files.user else files.user.write prefs }

def applyNotified (files : Files) (cache : NotificationCache) : Files :=
  { files with notified := files.notified.write cache }

def crash (files : Files) : Files where
  todos key := (files.todos key).crash
  user := files.user.crash
  notified := files.notified.crash

/-- Each `insertTodo` is an `apply` of its own. -/
def insertTodos (gson : Gson) (db : TodoDatabase) : Files → List TodoItem → Except JavaException Files
  | files, [] => .ok files
  | files, item :: items => do insertTodos gson db (files.apply (← db.insertTodo gson files.prefs item)) items

def fetchTodos (gson : Gson) (db : TodoDatabase) (mock fetched : List TodoItem) (files : Files) :
    Except JavaException (List TodoItem × Files) := do
  let todoItems ← db.getAllTodos gson files.prefs
  if todoItems.isEmpty then
    let todos := mock ++ fetched
    let files ← insertTodos gson db files todos
    return (todos, files)
  else
    let files ← insertTodos gson db files fetched
    return (todoItems, files)

def fetchPersonalTodos (gson : Gson) (userId : String) (files : Files) :
    Except JavaException (List TodoItem × Files) :=
  files.fetchTodos gson (ItemList.database .personal) personalMock (RedisHelper.getTodos userId)

def fetchGroupTodos (gson : Gson) (groupId : String) (files : Files) : Except JavaException (List TodoItem × Files) :=
  files.fetchTodos gson (ItemList.database .group) groupMock (RedisHelper.getTodos groupId)

end Files

/-! ### The app -/

/-- `userManager` and `todoDatabase` are the static fields of the process, `screen` is that of the activity, if there
    is one. The services are listed by the numbers that `process` gives them. -/
structure Watch where
  files : Files
  process : Reminder.Process
  userManager : Option User
  todoDatabase : Option TodoDatabase
  screen : Option Screen
  services : List TodoNotificationService
  reminded : List Reminded

namespace Watch

def installed : Watch where
  files := .installed
  process := .start
  userManager := none
  todoDatabase := none
  screen := none
  services := []
  reminded := []

/-- The process ends, and another one begins with what is on disk. -/
def die (w : Watch) : Watch :=
  { w with files := w.files.crash, process := w.process.die, userManager := none, todoDatabase := none, screen := none }

/-- `MainActivity.onCreate`, with the random id that a new user would get. It comes without saved instance state: with
    saved fragments it does not get past `super.onCreate`, and that is `Event.recreate`. -/
def launch (gson : Gson) (w : Watch) (uuid : String) : Except JavaException Watch := do
  let (user, userPrefs) := createUser w.files.user.memory uuid
  let files := w.files.applyUser userPrefs
  let (personalTodoItems, files) ← files.fetchPersonalTodos gson user.id
  let (groupTodoItems, files) ← files.fetchGroupTodos gson "Group 4"
  return { w with
    files
    userManager := some user
    screen := some (Screen.onCreate personalTodoItems groupTodoItems files.prefs user) }

def onScreen (gson : Gson) (zone : Int → Int) (w : Watch) (s : Screen) (e : Screen.Event) : Option Watch :=
  (s.handle gson zone e).map fun ended =>
    match ended.thrown with
    | none => { w with files := w.files.apply ended.screen.prefs, screen := some ended.screen }
    | some _ => w.die

/-- `TodoNotificationService.onCreate`. -/
def onCreate (w : Watch) : Watch :=
  let (service, todoDatabase) := TodoNotificationService.onCreate w.todoDatabase w.userManager
  { w with todoDatabase, services := w.services ++ [service] }

/-- What the environment gives to a check: the answer of the context detector, the permission, and the clock. -/
structure Surroundings where
  isHighCognitiveLoad : Bool
  postNotifications : Bool
  now : Int

def moment (zone : Int → Int) (w : Watch) (service : TodoNotificationService) (x : Surroundings) : Moment :=
  ⟨service, w.files.prefs, x.isHighCognitiveLoad, x.postNotifications, x.now, zone x.now⟩

/-- The pending runnable at a position runs, for the service that posted it. -/
def run (gson : Gson) (isTestMode : Bool) (zone : Int → Int) (w : Watch) (i : Nat) (x : Surroundings) : Option Watch := do
  let owner ← w.process.pending[i]?
  let service ← w.services[owner]?
  match Reminders.check gson isTestMode ⟨w.files.notified.memory, w.reminded⟩ (w.moment zone service x) with
  | .ok r =>
    let process ← w.process.step (.run i false)
    return { w with files := w.files.applyNotified r.cache, process, reminded := r.reminded }
  | .error _ =>
    let process ← w.process.step (.run i true)
    return { w.die with process }

inductive Event where
  | launch (uuid : String)
  | recreate
  | finish
  | onScreen (e : Screen.Event)
  | onCreate
  | onStartCommand
  | onDestroy
  | onLocation (service : Nat) (lat lng : ℚ)
  | run (i : Nat) (x : Surroundings)
  | flushTodos (key : String) (n : Nat)
  | flushUser (n : Nat)
  | flushNotified (n : Nat)
  | killed

/-- The next state of the app. A launch takes the place of an activity that was there before. The system can also
    make an activity again from its saved instance state. -/
def step (gson : Gson) (isTestMode : Bool) (zone : Int → Int) (w : Watch) : Event → Option Watch
  | .launch uuid => match w.launch gson uuid with
    | .ok t => some t
    | .error _ => some w.die
  -- A saved fragment is made by a constructor without arguments, which `FilteredTodoFragment` does not have.
  | .recreate => some w.die
  | .finish => some { w with screen := none }
  | .onScreen e => w.screen.bind fun s => w.onScreen gson zone s e
  | .onCreate => (w.process.step .onCreate).map fun process => { w.onCreate with process }
  | .onStartCommand => (w.process.step .onStartCommand).map fun process => { w with process }
  | .onDestroy => (w.process.step .onDestroy).map fun process => { w with process }
  | .onLocation service lat lng => w.services[service]?.map fun x =>
    { w with services := w.services.set service (x.located lat lng) }
  | .run i x => w.run gson isTestMode zone i x
  | .flushTodos key n => ((w.files.todos key).flush n).map fun file =>
    { w with files := { w.files with todos := Function.update w.files.todos key file } }
  | .flushUser n => (w.files.user.flush n).map fun file => { w with files := { w.files with user := file } }
  | .flushNotified n => (w.files.notified.flush n).map fun file => { w with files := { w.files with notified := file } }
  | .killed => some w.die

end Watch

end TodoWatch
