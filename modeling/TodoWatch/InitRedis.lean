import Mathlib.Logic.Function.Basic

/-! # The connection object

`initRedis` exports one object with a flag and a client. Calls of `getConnection` suspend while they
connect, and the handlers of every client ever created write the flag. The events of the clients come
from the library, which reopens a client by itself after an `error`; a client is open from `connect()`
until it emits `end` or its `connect()` rejects. -/

namespace TodoWatch

/-- The exported object. A client is named by the number of clients created before it. -/
structure RedisObject where
  connected : Bool
  client : Option Nat
  deriving DecidableEq, Repr

namespace RedisObject

inductive Started where
  | returned (client : Option Nat)
  | connecting (client : Nat)

/-- `getConnection` up to its await. `fresh` is what `createClient` returns. -/
def getConnection (obj : RedisObject) (fresh : Nat) : RedisObject × Started :=
  if obj.connected then (obj, .returned obj.client)
  else ({ obj with client := some fresh }, .connecting fresh)

def onReady (obj : RedisObject) : RedisObject := { obj with connected := true }

def onError (obj : RedisObject) : RedisObject := { obj with connected := false }

def onEnd (obj : RedisObject) : RedisObject := { obj with connected := false }

/-- `getConnection` after `connect()`. It returns the client that the object stores by then. -/
def afterConnect (obj : RedisObject) : RedisObject × Option Nat :=
  let obj := { obj with connected := true }
  (obj, obj.client)

/-- `getConnection` after `connect()` has rejected. -/
def catchConnect (obj : RedisObject) : RedisObject × Option Nat := (obj, none)

end RedisObject

namespace Connection

structure Client where
  isOpen : Bool
  /-- It has become ready and has emitted neither `error` nor `end` since. -/
  ready : Bool
  wasReady : Bool
  /-- A call awaits its `connect()`, and began after so many faults. -/
  awaited : Option Nat
  deriving DecidableEq, Repr

/-- A call that has returned: with which client, after how many faults it began and returned, and whether
    its client was ready then. -/
structure Return where
  client : Option Nat
  began : Nat
  ended : Nat
  ready : Bool
  deriving DecidableEq, Repr

/-- The object with all clients. `faults` counts the `error` and `end` events. -/
structure World where
  obj : RedisObject
  created : Nat
  clients : Nat → Client
  faults : Nat
  returns : List Return

inductive Event where
  | call
  | ready (c : Nat)
  | error (c : Nat)
  | ended (c : Nat)
  | resolved (c : Nat)
  | rejected (c : Nat)
  deriving DecidableEq, Repr

namespace World

def start : World where
  obj := ⟨false, none⟩
  created := 0
  clients _ := ⟨false, false, false, none⟩
  faults := 0
  returns := []

def isReady (w : World) : Option Nat → Bool
  | some c => (w.clients c).ready
  | none => false

def setClient (w : World) (c : Nat) (client : Client) : World := { w with clients := Function.update w.clients c client }

def finish (w : World) (x : RedisObject × Option Nat) (began : Nat) : World :=
  { w with obj := x.1, returns := ⟨x.2, began, w.faults, w.isReady x.2⟩ :: w.returns }

def call (w : World) : World :=
  match w.obj.getConnection w.created with
  | (obj, .returned client) => w.finish (obj, client) w.faults
  | (obj, .connecting c) =>
    { w with obj, created := w.created + 1 }.setClient c ⟨true, false, false, some w.faults⟩

def ready (w : World) (c : Nat) : World :=
  { w with obj := w.obj.onReady }.setClient c { w.clients c with ready := true, wasReady := true }

def error (w : World) (c : Nat) : World :=
  { w with obj := w.obj.onError, faults := w.faults + 1 }.setClient c { w.clients c with ready := false }

def ended (w : World) (c : Nat) : World :=
  { w with obj := w.obj.onEnd, faults := w.faults + 1 }.setClient c { w.clients c with ready := false, isOpen := false }

def resolved (w : World) (c began : Nat) : World :=
  (w.setClient c { w.clients c with awaited := none }).finish w.obj.afterConnect began

def rejected (w : World) (c began : Nat) : World :=
  (w.setClient c { w.clients c with awaited := none, isOpen := false }).finish w.obj.catchConnect began

/-- The next state. Only an open client has events; `connect()` resolves once its client was ready, and
    rejects only before. -/
def step (w : World) : Event → Option World
  | .call => some w.call
  | .ready c => if (w.clients c).isOpen then some (w.ready c) else none
  | .error c => if (w.clients c).isOpen then some (w.error c) else none
  | .ended c => if (w.clients c).isOpen then some (w.ended c) else none
  | .resolved c => match (w.clients c).awaited with
    | some began => if (w.clients c).wasReady then some (w.resolved c began) else none
    | none => none
  | .rejected c => match (w.clients c).awaited with
    | some began => if (w.clients c).wasReady then none else some (w.rejected c began)
    | none => none

end World

end Connection

end TodoWatch
