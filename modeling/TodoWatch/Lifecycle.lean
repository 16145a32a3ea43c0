import TodoWatch.MainActivity
import TodoWatch.ReminderLoop
import TodoWatch.TodoNotificationService

/-! # The lifecycle of the app

The static fields of `UserManager` and `TodoDatabase` belong to the process: they start out `null` in each, and
only `MainActivity.onCreate` gives `UserManager` a user. The preferences outlive the process. The service takes
the user of `UserManager` when it is created, also in a fresh process: `onStartCommand` returns `START_STICKY`. -/

namespace TodoWatch

/-- A service by its field `user`, and whether an activity was launched in the process before it was created. -/
structure Started where
  user : Option User
  afterLaunch : Bool
  deriving DecidableEq, Repr

/-- A periodic check that ran: whether a user was saved by then, and the field `user` of its service. -/
structure Checked where
  saved : Bool
  user : Option User
  deriving DecidableEq, Repr

/-- The services are listed by the numbers that `process` gives them. -/
structure App where
  process : Reminder.Process
  saved : UserPrefs
  userManager : Option User
  todoDatabase : Option TodoDatabase
  launched : Bool
  services : List Started
  checks : List Checked
  deriving DecidableEq, Repr

namespace App

/-- No process yet, with the preferences of earlier ones. -/
def start (saved : UserPrefs) : App where
  process := .start
  saved := saved
  userManager := none
  todoDatabase := none
  launched := false
  services := []
  checks := []

inductive Event where
  /-- `MainActivity.onCreate`, with the random id that a new user would get. -/
  | launch (uuid : String)
  | service (event : Reminder.Event)
  deriving DecidableEq, Repr

def launch (s : App) (uuid : String) : App :=
  let (user, saved) := createUser s.saved uuid
  { s with saved, userManager := some user, launched := true }

def onCreate (s : App) : App :=
  let (service, todoDatabase) := TodoNotificationService.onCreate s.todoDatabase s.userManager
  { s with todoDatabase, services := s.services ++ [⟨service.user, s.launched⟩] }

/-- The service that posted the runnable at a position. -/
def owner (s : App) (i : Nat) : Option Started := s.process.pending[i]?.bind fun owner => s.services[owner]?

def check (s : App) (i : Nat) : App :=
  { s with checks := s.checks ++ (s.owner i).toList.map fun started => ⟨s.saved.isSome, started.user⟩ }

/-- The process ends. -/
def die (s : App) : App := { s with userManager := none, todoDatabase := none, launched := false }

def step (s : App) : Event → Option App
  | .launch uuid => some (s.launch uuid)
  | .service event => (s.process.step event).map fun process =>
    let t := match event with
      | .onCreate => s.onCreate
      | .onStartCommand => s
      | .run i throws => if throws then (s.check i).die else s.check i
      | .onDestroy => s
      | .killed => s.die
    { t with process }

end App

end TodoWatch
