import TodoWatch.Lib.Async
import TodoWatch.Redis

/-! # The handlers of the API

`echoController` and `watchController` as programs over the commands of Redis, and the routes to them.
`task` of `deleteUserTasks` is declared nowhere, so it is a global, which all handlers share. -/

namespace TodoWatch

/-- `res.status(status).send(body)`. A `null` body is sent as an empty one. -/
structure Response where
  status : Nat
  body : String
  deriving DecidableEq, Repr

/-- A handler with the global `task` as its shared variable. -/
abbrev Handler := Async.Prog Js Command Command.Reply Response

namespace Handler

def getConnection : Handler (Option Unit) := Async.Prog.call Command.getConnection

/-- `await redis.command(…)`. A `null` client has no commands. -/
def command (redis : Option Unit) (c : Command) : Handler c.Reply :=
  match redis with
  | some () => Async.Prog.call c
  | none => .throw

def eval {α : Type} (x : Option α) : Handler α :=
  match x with
  | some a => pure a
  | none => .throw

end Handler

open Handler Async

/-! ### `echoController` -/

structure HashEntry where
  key : String
  field : String
  value : String
  deriving DecidableEq, Repr

/-- One device under the name of Will has a key of its own. -/
def willItem (task place time priority : String) : HashEntry where
  key := "123"
  field := task
  value := s!"Title: {task}, Priority: {priority}, Place: {place}, Time: {time}, Assignee: , isDone: false"

def teamItem (assignee task place time priority : String) : HashEntry where
  key := "team4"
  field := task
  value := s!"Title: {task}, Priority: {priority}, Place: {place}, Time: {time}, Assignee: {assignee}, isDone: false"

/-- The entry for a todo whose assignee is a string. -/
def todoItem (assignee task place time priority : String) : HashEntry :=
  if assignee = "Will" then willItem task place time priority else teamItem assignee task place time priority

/-- `assignee === "Will"`: the value itself is compared, not the text that it converts to. -/
def isWill : Js → Bool
  | .str s => s == "Will"
  | _ => false

/-- The object `todoItem` of `postUsersTodos`, unless a template cannot convert a value of the body. The
    assignee is converted only where a template names it. -/
def todoItemOf (todo : Js) : Option HashEntry := do
  let assignee ← todo.prop "assignee"
  let task ← (← todo.prop "task").toText
  let priority ← (← todo.prop "priority").toText
  let place ← (← todo.prop "place").toText
  let time ← (← todo.prop "time").toText
  if isWill assignee then
    return willItem task place time priority
  else
    return teamItem (← assignee.toText) task place time priority

/-- An array with the one name converts to that name, but it is not the name. -/
example : (todoItemOf (.obj [("assignee", .arr [.str "Will"])])).map HashEntry.key = some "team4" := by
  simp [todoItemOf, Js.prop, Js.field, Js.toText, Js.toTexts, isWill, teamItem]

def postUsersTodos (body : Js) : Handler Unit := do
  let redis ← getConnection
  let item ← eval (todoItemOf body)
  let exists_ ← command redis (.exists (.str item.key))
  -- The branches differ only in what they log.
  if exists_ = 1 then
    let _insert ← command redis (.hSet (.str item.key) (.str item.field) (.str item.value))
  else
    let _insert ← command redis (.hSet (.str item.key) (.str item.field) (.str item.value))
  let _all ← command redis (.hGetAll (.str item.key))
  .reply ⟨200, "Successfully created new TODOs."⟩

/-- The connection is awaited and then not used. `send` turns the array into JSON. -/
def getCompletedTodos : Handler Unit := do
  let _redis ← getConnection
  .reply ⟨200, "[\"task1\",\"task2\",\"task3\"]"⟩

/-! ### `watchController` -/

def getUserTasks (params : String → Js) : Handler Unit := do
  let redis ← getConnection
  let userId := params "userId"
  let exists_ ← command redis (.exists userId)
  if exists_ ≠ 0 then
    let tasks ← command redis (.get userId)
    .reply ⟨200, tasks.getD ""⟩
  else
    .reply ⟨404, "The user does not exist!"⟩

/-- The loop of `deleteUserTasks`. Each mention of `task` reads the global again. -/
def deleteTasks (redis : Option Unit) (user : Js) : List Js → Handler Unit
  | [] => pure ()
  | item :: items => do
    Prog.set item
    let exists_ ← command redis (.sIsMember user (← Prog.get))
    if exists_ then
      let _ ← command redis (.sRem user (← Prog.get))
      let _log ← eval (← Prog.get).toText
      let _ ← command redis (.sAdd (.str "completed") (← Prog.get))
    else
      let _log ← eval (← Prog.get).toText
    deleteTasks redis user items

def deleteUserTasks (params : String → Js) (body : Js) : Handler Unit := do
  let redis ← getConnection
  let user := params "user"
  let tasks ← eval (body.prop "tasks")
  let reply ← command redis (.exists user)
  if reply ≠ 1 then
    .reply ⟨404, "The user does not exist!"⟩
  else
    let items ← eval tasks.iterate
    deleteTasks redis user items
    .reply ⟨200, "Your tasks are registered to be completed."⟩

/-! ### Routes -/

/-- `POST /echo/new`, `GET /watch/:user` and `DELETE /watch/:user`. -/
inductive Request where
  | postNew (body : Js)
  | getWatch (user : String)
  | deleteWatch (user : String) (body : Js)

/-- `req.params` under the pattern `/:user`, which both routes of `watchRouter` have. -/
def watchParams (user : String) (name : String) : Js := if name = "user" then .str user else .undefined

def Request.handler : Request → Handler Unit
  | postNew body => postUsersTodos body
  | getWatch user => getUserTasks (watchParams user)
  | deleteWatch user body => deleteUserTasks (watchParams user) body

/-! ### Requests with string fields -/

structure Todo where
  assignee : String
  task : String
  place : String
  time : String
  priority : String
  deriving DecidableEq, Repr

def Todo.body (todo : Todo) : Js :=
  .obj [("assignee", .str todo.assignee), ("task", .str todo.task), ("place", .str todo.place),
    ("time", .str todo.time), ("priority", .str todo.priority)]

def Todo.entry (todo : Todo) : HashEntry :=
  todoItem todo.assignee todo.task todo.place todo.time todo.priority

theorem todoItemOf_body (todo : Todo) : todoItemOf todo.body = some todo.entry := by
  by_cases h : todo.assignee = "Will"
  · simp [todoItemOf, Todo.body, Todo.entry, todoItem, Js.prop, Js.field, isWill, h]
  · simp [todoItemOf, Todo.body, Todo.entry, todoItem, Js.prop, Js.field, isWill, h]

def tasksBody (tasks : List String) : Js := .obj [("tasks", .arr (tasks.map .str))]

inductive Call where
  | post (todo : Todo)
  | get (user : String)
  | delete (user : String) (tasks : List String)
  deriving DecidableEq, Repr

def Call.request : Call → Request
  | post todo => .postNew todo.body
  | get user => .getWatch user
  | delete user tasks => .deleteWatch user (tasksBody tasks)

/-! ### Serving -/

/-- What can go wrong while a request is served: the connection attempt, and each command by its number.
    A command that fails is not executed. -/
structure Faults where
  connects : Bool
  fails : Nat → Bool

def Faults.none : Faults := ⟨true, fun _ => false⟩

/-- Nothing is executed after the first `n` commands. -/
def Faults.stop (n : Nat) : Faults := ⟨true, fun i => decide (n ≤ i)⟩

@[simp] theorem Faults.stop_fails {n i : Nat} : (Faults.stop n).fails i = decide (n ≤ i) := rfl

/-- The reply to a command under faults. The store comes with the number of commands issued so far. -/
def execUnder (redis : NodeRedis) (faults : Faults) : (c : Command) → Store × Nat → Option c.Reply × (Store × Nat)
  | .getConnection, s => (some (if faults.connects then some () else Option.none), s)
  | c, (s, n) =>
    if faults.fails n then (Option.none, (s, n + 1))
    else let x := Redis.exec redis c s; (x.1, (x.2, n + 1))

/-- A request served alone, from the value that earlier requests left in `task`. -/
def serve (redis : NodeRedis) (faults : Faults) (request : Request) (task : Js) (s : Store) :
    Run Js Command Response (Store × Nat) Unit :=
  run (execUnder redis faults) request.handler task (s, 0)

/-- The store and the global `task` after calls that were served one at a time, from an empty store and
    without failures. -/
def served (redis : NodeRedis) (calls : List Call) : Store × Js :=
  calls.foldl (fun x call =>
    let y := serve redis .none call.request x.2 x.1
    (y.store.1, y.shared)) (fun _ => none, .undefined)

end TodoWatch
