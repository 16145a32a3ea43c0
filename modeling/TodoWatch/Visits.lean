import TodoWatch.ContextDetector
import TodoWatch.Looper

/-! # Visits

What `MainActivity` does each time it is shown, and what comes of it. It asks for the location and starts the service,
if the permissions are there. The system delivers such a start later, to the service that lives or to a new one, and by
itself it starts the service again that has died with its process (`START_STICKY`). -/

namespace TodoWatch
open Reminder

/-! ### The activity -/

/-- The permissions that are granted at a moment, and whether the location is enabled. -/
structure Granted where
  accessFineLocation : Bool
  bodySensors : Bool
  postNotifications : Bool
  locationEnabled : Bool
  deriving DecidableEq, Repr

/-- What the activity asks of the system, and what it shows. -/
inductive SystemCall where
  | requestPermissions (permission : String) (requestCode : Int)
  | getCurrentLocation
  | showDialog (title message : String)
  | showToast (text : String)
  | startService
  | createNotificationChannel (channelId channelName description : String)
  deriving DecidableEq, Repr

/-- The spinner, and the location requests whose listener has not been called yet. -/
structure MainActivity where
  loadingSpinner : Bool
  requests : Nat
  deriving DecidableEq, Repr

namespace MainActivity

def requestBodySensorsPermission : Int := 1

def locationPermissionRequestCode : Int := 100

def requestNotificationPermission : Int := 1001

/-- `PackageManager.PERMISSION_GRANTED`. -/
def permissionGranted : Int := 0

/-- `Build.VERSION_CODES.TIRAMISU`. -/
def tiramisu : Nat := 33

/-- The layout has the spinner gone. -/
def onCreate : MainActivity where
  loadingSpinner := false
  requests := 0

def showLocationEnableDialog : SystemCall :=
  .showDialog "Location Services Disabled" "Please enable location services to use this feature"

def createNotificationChannel : SystemCall :=
  .createNotificationChannel "todo_channel" "To-Do Notifications" "Channel for to-do list notifications"

def startTodoNotificationService (g : Granted) : SystemCall :=
  if !g.postNotifications then
    .requestPermissions "android.permission.POST_NOTIFICATIONS" requestNotificationPermission
  else
    .startService

def getCurrentLocation (a : MainActivity) (g : Granted) : MainActivity × List SystemCall :=
  let a := { a with loadingSpinner := true }
  if !g.accessFineLocation then
    ({ a with loadingSpinner := false },
      [.requestPermissions "android.permission.ACCESS_FINE_LOCATION" locationPermissionRequestCode])
  else if !g.locationEnabled then
    ({ a with loadingSpinner := false }, [showLocationEnableDialog])
  else
    ({ a with requests := a.requests + 1 }, [.getCurrentLocation])

/-- The listener of a location request. `located` is whether it has a location, which goes to the current page. -/
def onComplete (a : MainActivity) (located : Bool) : MainActivity × List SystemCall :=
  ({ loadingSpinner := false, requests := a.requests - 1 },
    if located then [] else [.showToast "Unable to fetch location. Please try again."])

def onResume (sdkInt : Nat) (a : MainActivity) (g : Granted) : MainActivity × List SystemCall :=
  let (a, calls) := a.getCurrentLocation g
  if !g.bodySensors then
    (a, calls ++ [.requestPermissions "android.permission.BODY_SENSORS" requestBodySensorsPermission])
  else
    let calls := if sdkInt ≥ tiramisu then calls ++ [startTodoNotificationService g] else calls
    (a, calls ++ [createNotificationChannel])

def onRequestPermissionsResult (sdkInt : Nat) (a : MainActivity) (requestCode : Int) (grantResults : List Int)
    (g : Granted) : MainActivity × List SystemCall :=
  if requestCode = locationPermissionRequestCode then
    if grantResults.head? = some permissionGranted then a.getCurrentLocation g
    else (a, [.showToast "Location permission denied！"])
  else if requestCode = requestBodySensorsPermission then
    if grantResults.head? = some permissionGranted then
      (a, if sdkInt ≥ tiramisu then [startTodoNotificationService g] else [])
    else (a, [.showToast "Permission denied!"])
  else (a, [])

end MainActivity

/-! ### The app -/

/-- An answer that a check had from the detector of its service. -/
structure Answer where
  service : Nat
  isHighCognitiveLoad : Bool
  deriving DecidableEq, Repr

/-- `intents` are the starts of the service that are not delivered yet. The detectors go with the services, by their
    numbers. -/
structure Visits where
  looper : Looper
  activity : Option MainActivity
  intents : Nat
  detectors : List ContextDetector
  answers : List Answer
  deriving DecidableEq, Repr

namespace Visits

def start : Visits where
  looper := .start
  activity := none
  intents := 0
  detectors := []
  answers := []

/-- A handler of the activity has run, with its calls. -/
def perform (v : Visits) (x : MainActivity × List SystemCall) : Visits :=
  { v with activity := some x.1, intents := v.intents + x.2.count .startService }

/-- The system delivers a start to the service, and creates one if there is none. -/
def startCommand (sensors : Sensors) (v : Visits) : Visits :=
  match v.looper.service with
  | some owner => { v with looper := v.looper.onStartCommand owner }
  | none =>
    { v with
      looper := v.looper.onCreate.onStartCommand v.looper.created
      detectors := v.detectors ++ [(ContextDetector.new sensors).startListening] }

/-- The process dies, with its activity and its listeners. -/
def die (v : Visits) : Visits :=
  { v with
    looper := v.looper.die
    activity := none
    detectors := v.detectors.map ContextDetector.unregisterListener }

def onDestroy (v : Visits) : Option Visits := do
  let owner ← v.looper.service
  let detector ← v.detectors[owner]?
  match detector.stopListening with
  | some detector => some { v with looper := v.looper.onDestroy, detectors := v.detectors.set owner detector }
  | none => some v.die

/-- The first check that is due. It asks the detector outside test mode. -/
def run (isTestMode : Bool) (v : Visits) (throws : Bool) (ms : Nat) : Option Visits := do
  let m ← v.looper.queue.head?
  let looper ← v.looper.step isTestMode (.run throws ms)
  let detector ← v.detectors[m.owner]?
  let answers := if isTestMode then v.answers else v.answers ++ [⟨m.owner, detector.isHighCognitiveLoad⟩]
  return if throws then { v.die with looper, answers } else { v with looper, answers }

inductive Event where
  | onCreate
  | onResume (g : Granted)
  | onRequestPermissionsResult (requestCode : Int) (grantResults : List Int) (g : Granted)
  | onComplete (located : Bool)
  | finish
  | deliver
  | restart
  | onDestroy
  | onSensorChanged (service : Nat) (e : SensorEvent)
  | run (throws : Bool) (ms : Nat)
  | passes (ms : Nat)
  | killed
  deriving DecidableEq, Repr

/-- What is the same all the time: the version of the system, the mode of the app, and the sensors of the watch. -/
structure Setting where
  sdkInt : Nat
  isTestMode : Bool
  sensors : Sensors
  magnitude : ℚ → ℚ → ℚ → ℚ

def step (x : Setting) (v : Visits) : Event → Option Visits
  | .onCreate => some { v with activity := some .onCreate }
  | .onResume g => v.activity.map fun a => v.perform (a.onResume x.sdkInt g)
  | .onRequestPermissionsResult requestCode grantResults g =>
    v.activity.map fun a => v.perform (a.onRequestPermissionsResult x.sdkInt requestCode grantResults g)
  | .onComplete located => v.activity.bind fun a =>
    if 0 < a.requests then some (v.perform (a.onComplete located)) else none
  | .finish => some { v with activity := none }
  | .deliver => if 0 < v.intents then some { v.startCommand x.sensors with intents := v.intents - 1 } else none
  | .restart => if v.looper.service = none then some (v.startCommand x.sensors) else none
  | .onDestroy => v.onDestroy
  | .onSensorChanged service e => v.detectors[service]?.bind fun detector =>
    if detector.Hears e then
      some { v with detectors := v.detectors.set service (detector.onSensorChanged x.magnitude e) }
    else none
  | .run throws ms => v.run x.isTestMode throws ms
  | .passes ms => (v.looper.step x.isTestMode (.passes ms)).map fun looper => { v with looper }
  | .killed => some v.die

end Visits

end TodoWatch
