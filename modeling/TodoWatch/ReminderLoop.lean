import Mathlib.Logic.Basic

/-! # The lifecycle of the reminder service

`TodoNotificationService` posts its periodic check as a runnable on the main looper. The looper belongs to
the process and keeps a runnable whatever becomes of the service that posted it; `onDestroy` stops the
sensors only. A check ends by posting itself again, unless it throws, which ends the process. -/

namespace TodoWatch
namespace Reminder

/-- The process: the service that lives, the services created so far, the runnables that are pending, each
    as the service that posted it, and the number of checks that ran after `onDestroy` of their service. -/
structure Process where
  service : Option Nat
  created : Nat
  pending : List Nat
  late : Nat
  deriving DecidableEq, Repr

inductive Event where
  | onCreate
  /-- Each `startService`, for instance by `MainActivity.onResume`, delivers one. -/
  | onStartCommand
  | run (i : Nat) (throws : Bool)
  | onDestroy
  | killed
  deriving DecidableEq, Repr

namespace Process

def start : Process where
  service := none
  created := 0
  pending := []
  late := 0

def onCreate (p : Process) : Process := { p with service := some p.created, created := p.created + 1 }

def postDelayed (p : Process) (owner : Nat) : Process := { p with pending := p.pending ++ [owner] }

def die (p : Process) : Process := { p with service := none, pending := [] }

/-- The runnable at a position, taken from the looper, runs. -/
def check (p : Process) (i owner : Nat) (throws : Bool) : Process :=
  let p := { p with
    pending := p.pending.eraseIdx i
    late := if p.service = some owner then p.late else p.late + 1 }
  if throws then p.die else p.postDelayed owner

def onDestroy (p : Process) : Process := { p with service := none }

/-- The next state. The system has one service at a time and calls `onStartCommand` and `onDestroy` on it. -/
def step (p : Process) : Event → Option Process
  | .onCreate => if p.service = none then some p.onCreate else none
  | .onStartCommand => p.service.map fun owner => p.postDelayed owner
  | .run i throws => p.pending[i]?.map fun owner => p.check i owner throws
  | .onDestroy => p.service.map fun _ => p.onDestroy
  | .killed => some p.die

end Process

end Reminder
end TodoWatch
