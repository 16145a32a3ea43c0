import TodoWatch.ReminderLoop
import Mathlib.Data.List.Sort

/-! # The looper and its clock

`onStartCommand` posts a runnable of its own with a delay, and the runnable posts itself again with the period of
the checks. The queue of the looper is sorted by the uptime at which its messages are due, and messages of one
uptime are in the order in which they came. -/

namespace TodoWatch
namespace Reminder

def delay : Nat := 60000

/-- The delay with which `run` posts itself again. -/
def period (isTestMode : Bool) : Nat := if isTestMode then delay else 5 * delay

/-- A runnable in the queue, with the service that posted it. -/
structure Message where
  due : Nat
  owner : Nat
  runnable : Nat
  deriving DecidableEq, Repr

/-- A check that ran, of a runnable, from an uptime on. -/
structure Check where
  runnable : Nat
  time : Nat
  deriving DecidableEq, Repr

/-- The looper of a process. Runnables are numbered by the deliveries of `onStartCommand` to the process, whose
    uptimes are in `started`; `checks` are those of the process so far. -/
structure Looper where
  uptime : Nat
  service : Option Nat
  created : Nat
  queue : List Message
  started : List Nat
  checks : List Check
  deriving DecidableEq, Repr

namespace Looper

def start : Looper where
  uptime := 0
  service := none
  created := 0
  queue := []
  started := []
  checks := []

/-- A message goes before the first one that is due later. -/
def postDelayed (l : Looper) (owner runnable ms : Nat) : Looper :=
  { l with queue := l.queue.orderedInsert (fun a b : Message => a.due < b.due) ⟨l.uptime + ms, owner, runnable⟩ }

def onCreate (l : Looper) : Looper := { l with service := some l.created, created := l.created + 1 }

def onStartCommand (l : Looper) (owner : Nat) : Looper :=
  { l.postDelayed owner l.started.length delay with started := l.started ++ [l.uptime] }

def onDestroy (l : Looper) : Looper := { l with service := none }

/-- Another process begins. -/
def die (l : Looper) : Looper := { l with service := none, queue := [], started := [], checks := [] }

/-- The first message of the queue runs, and takes its time. Its last statement posts it again. -/
def check (isTestMode : Bool) (l : Looper) (m : Message) (rest : List Message) (throws : Bool) (ms : Nat) : Looper :=
  let checks := l.checks ++ [(⟨m.runnable, l.uptime⟩ : Check)]
  let l := { l with uptime := l.uptime + ms, queue := rest, checks }
  if throws then l.die else l.postDelayed m.owner m.runnable (period isTestMode)

inductive Event where
  | passes (ms : Nat)
  | onCreate
  | onStartCommand
  | run (throws : Bool) (ms : Nat)
  | onDestroy
  | killed
  deriving DecidableEq, Repr

def step (isTestMode : Bool) (l : Looper) : Event → Option Looper
  | .passes ms => some { l with uptime := l.uptime + ms }
  | .onCreate => if l.service = none then some l.onCreate else none
  | .onStartCommand => l.service.map fun owner => l.onStartCommand owner
  | .run throws ms => match l.queue with
    | [] => none
    | m :: rest => if m.due ≤ l.uptime then some (l.check isTestMode m rest throws ms) else none
  | .onDestroy => l.service.map fun _ => l.onDestroy
  | .killed => some l.die

/-- Only the first message runs, when it is due. -/
theorem step_run {isTestMode throws : Bool} {l l' : Looper} {ms : Nat}
    (hs : l.step isTestMode (.run throws ms) = some l') :
    ∃ m rest, l.queue = m :: rest ∧ m.due ≤ l.uptime ∧ l' = l.check isTestMode m rest throws ms := by
  simp only [step] at hs
  split at hs
  · cases hs
  · rename_i m rest hqueue
    obtain ⟨hdue, hs⟩ := Option.ite_none_right_eq_some.mp hs
    exact ⟨m, rest, hqueue, hdue, (Option.some.inj hs).symm⟩

end Looper

end Reminder
end TodoWatch
