import TodoWatch.Api

/-! # The points of `deleteUserTasks`

A `DELETE /watch/:user` request whose tasks are strings, seen from its awaits: the continuation of each
command, and what the handler does from there up to its next await. `Next` says what one step does to the
handler and to the store, when `task` still holds the item of the handler. -/

namespace TodoWatch
namespace Delete
open Async

def handler (user : String) (tasks : List String) : Handler Unit :=
  (Request.deleteWatch user (tasksBody tasks)).handler

/-! ### Continuations -/

def loop (user : String) (items : List Js) : Handler Unit := do
  deleteTasks (some ()) (.str user) items
  .reply ⟨200, "Your tasks are registered to be completed."⟩

def afterExists (user : String) (items : List Js) : Option Nat → Handler Unit
  | some n => if n ≠ 1 then .reply ⟨404, "The user does not exist!"⟩ else loop user items
  | none => .throw

def afterConnection (user : String) (items : List Js) : Option (Option Unit) → Handler Unit
  | some (some ()) => .await (.exists (.str user)) (afterExists user items)
  | _ => .throw

def afterAdd (user : String) (rest : List Js) : Option Nat → Handler Unit
  | some _ => loop user rest
  | none => .throw

def afterRem (user : String) (rest : List Js) : Option Nat → Handler Unit
  | some _ => .read fun task => match task.toText with
    | some _ => .read fun task => .await (.sAdd (.str "completed") task) (afterAdd user rest)
    | none => .throw
  | none => .throw

def afterIsMember (user : String) (rest : List Js) : Option Bool → Handler Unit
  | some true => .read fun task => .await (.sRem (.str user) task) (afterRem user rest)
  | some false => .read fun task => match task.toText with
    | some _ => loop user rest
    | none => .throw
  | none => .throw

theorem handler_eq (user : String) (tasks : List String) :
    handler user tasks = .await .getConnection (afterConnection user (tasks.map .str)) := by
  unfold handler Request.handler deleteUserTasks
  refine Prog.await_congr fun r => ?_
  rcases r with _ | _ | _
  · rfl
  · rfl
  · refine Prog.await_congr fun n => ?_
    cases n with
    | none => rfl
    | some n =>
      show (if n ≠ 1 then _ else _ : Handler Unit) = if n ≠ 1 then _ else _
      split <;> rfl

theorem loop_nil (user : String) :
    loop user [] = .send ⟨200, "Your tasks are registered to be completed."⟩ (pure ()) := rfl

theorem loop_cons (user : String) (item : Js) (rest : List Js) : loop user (item :: rest) =
    .assign item (.read fun task => .await (.sIsMember (.str user) task) (afterIsMember user rest)) := by
  show Prog.assign _ (Prog.read _) = Prog.assign _ (Prog.read _)
  congr 2
  funext task
  refine Prog.await_congr fun b => ?_
  rcases b with _ | _ | _
  · rfl
  · refine Prog.read_congr fun task => ?_
    show ((Handler.eval task.toText).bind _).bind _ = _
    cases task.toText <;> rfl
  · refine Prog.read_congr fun task => ?_
    refine Prog.await_congr fun n => ?_
    cases n with
    | none => rfl
    | some n =>
      refine Prog.read_congr fun task => ?_
      show ((Handler.eval task.toText).bind _).bind _ = _
      cases task.toText with
      | none => rfl
      | some text =>
        refine Prog.read_congr fun task => ?_
        refine Prog.await_congr fun n => ?_
        cases n <;> rfl

/-! ### Points -/

/-- Where a handler stands. In the loop, `done` are the items before the current one, `t` is the current
    item, and `rest` are the items after it. -/
inductive Point where
  | start
  | connecting
  | connected
  | checking
  | checked (n : Nat)
  | testing (done : List String) (t : String) (rest : List String)
  | tested (found : Bool) (done : List String) (t : String) (rest : List String)
  | removing (done : List String) (t : String) (rest : List String)
  | removed (n : Nat) (done : List String) (t : String) (rest : List String)
  | adding (done : List String) (t : String) (rest : List String)
  | added (n : Nat) (done : List String) (t : String) (rest : List String)
  | finished

namespace Point

def enter (done : List String) : List String → Point
  | [] => finished
  | t :: rest => testing done t rest

def proc (user : String) (tasks : List String) : Point → Proc Js Command Command.Reply Response
  | start => .idle (handler user tasks)
  | connecting => .sent .getConnection (afterConnection user (tasks.map .str))
  | connected => .answered .getConnection (some (some ())) (afterConnection user (tasks.map .str))
  | checking => .sent (.exists (.str user)) (afterExists user (tasks.map .str))
  | checked n => .answered (.exists (.str user)) (some n) (afterExists user (tasks.map .str))
  | testing _ t rest => .sent (.sIsMember (.str user) (.str t)) (afterIsMember user (rest.map .str))
  | tested found _ t rest => .answered (.sIsMember (.str user) (.str t)) (some found) (afterIsMember user (rest.map .str))
  | removing _ t rest => .sent (.sRem (.str user) (.str t)) (afterRem user (rest.map .str))
  | removed n _ t rest => .answered (.sRem (.str user) (.str t)) (some n) (afterRem user (rest.map .str))
  | adding _ t rest => .sent (.sAdd (.str "completed") (.str t)) (afterAdd user (rest.map .str))
  | added n _ t rest => .answered (.sAdd (.str "completed") (.str t)) (some n) (afterAdd user (rest.map .str))
  | finished => .fulfilled

end Point

/-- A step of a handler that finds its own item in `task`, with what it does to the store. -/
inductive Next (user : String) (tasks : List String) : Point → Store → Point → Store → Prop
  | arrive (s : Store) : Next user tasks .start s .connecting s
  | connect (s : Store) : Next user tasks .connecting s .connected s
  | check (s : Store) : Next user tasks .connected s .checking s
  | exists (s : Store) : Next user tasks .checking s (.checked (if (s user).isSome then 1 else 0)) s
  | absent (s : Store) (n : Nat) : n ≠ 1 → Next user tasks (.checked n) s .finished s
  | present (s : Store) : Next user tasks (.checked 1) s (.enter [] tasks) s
  | test (s : Store) (done : List String) (t : String) (rest : List String) :
      Next user tasks (.testing done t rest) s (.tested (decide (t ∈ s.members user)) done t rest) s
  | skip (s : Store) (done : List String) (t : String) (rest : List String) :
      Next user tasks (.tested false done t rest) s (.enter (done ++ [t]) rest) s
  | found (s : Store) (done : List String) (t : String) (rest : List String) :
      Next user tasks (.tested true done t rest) s (.removing done t rest) s
  | rem (s : Store) (n : Nat) (done : List String) (t : String) (rest : List String) :
      Next user tasks (.removing done t rest) s (.removed n done t rest)
        (s.setMembers user ((s.members user).erase t))
  | take (s : Store) (n : Nat) (done : List String) (t : String) (rest : List String) :
      Next user tasks (.removed n done t rest) s (.adding done t rest) s
  | add (s : Store) (n : Nat) (done : List String) (t : String) (rest : List String) :
      Next user tasks (.adding done t rest) s (.added n done t rest)
        (s.setMembers "completed" (insert t (s.members "completed")))
  | next (s : Store) (n : Nat) (done : List String) (t : String) (rest : List String) :
      Next user tasks (.added n done t rest) s (.enter (done ++ [t]) rest) s

/-- A handler that goes on after `sIsMember` or `sRem` finds in `task` the item that it asked for. -/
def steady (p : Proc Js Command Command.Reply Response) (task : Js) : Bool :=
  match p with
  | .answered (.sIsMember _ item) (some true) _ => task.sameString item
  | .answered (.sRem _ item) _ _ => task.sameString item
  | _ => true

/-- `task` converts to a text, as every value does that the handlers here write to it. -/
def HasText (task : Js) : Prop := ∃ text, task.toText = some text

theorem advance_loop (user : String) (tasks done rest : List String) {task : Js} (htask : HasText task) :
    ∃ task' out, HasText task' ∧
      advance (loop user (rest.map .str)) task = ((Point.enter done rest).proc user tasks, task', out) := by
  cases rest with
  | nil => exact ⟨task, _, htask, rfl⟩
  | cons t rest => exact ⟨.str t, [], ⟨t, Js.toText_str t⟩, by rw [List.map_cons, loop_cons]; rfl⟩

section Step
variable {ι : Type} [DecidableEq ι] {redis : NodeRedis}

abbrev Handlers (ι : Type) := Pool Js Command Command.Reply Response ι Store

variable {w w' : Handlers ι} {i : ι} {user : String} {tasks : List String} {p : Point}

/-- One step of a handler at a point is a `Next` step of that point, and leaves the other handlers where
    they stand. -/
theorem step_next (hp : w.procs i = p.proc user tasks) (hsteady : steady (w.procs i) w.shared = true)
    (htext : HasText w.shared) (huser : w.store.IsSet user) (hdone : w.store.IsSet "completed")
    (hs : w.step (Redis.exec redis) i = some w') :
    ∃ p', Next user tasks p w.store p' w'.store ∧ w'.procs = Function.update w.procs i (p'.proc user tasks) ∧
      HasText w'.shared := by
  obtain ⟨text, htext'⟩ := htext
  unfold Pool.step at hs
  rw [hp] at hs hsteady
  -- A handler that goes on at the head of the loop.
  have enter : ∀ done rest, w.resume i (advance (loop user (rest.map .str)) w.shared) = w' →
      w'.store = w.store ∧ w'.procs = Function.update w.procs i ((Point.enter done rest).proc user tasks) ∧
        HasText w'.shared := by
    intro done rest hw
    obtain ⟨task', out, ht, hadv⟩ := advance_loop user tasks done rest ⟨text, htext'⟩
    rw [hadv] at hw
    subst hw
    exact ⟨rfl, rfl, ht⟩
  cases p with
  | start =>
    cases hs
    refine ⟨.connecting, .arrive _, ?_, ?_⟩
    · rw [handler_eq]
      rfl
    · rw [handler_eq]
      exact ⟨text, htext'⟩
  | connecting =>
    cases hs
    exact ⟨.connected, .connect _, rfl, text, htext'⟩
  | connected =>
    cases hs
    exact ⟨.checking, .check _, rfl, text, htext'⟩
  | checking =>
    simp only [Point.proc, Redis.exec_exists] at hs
    cases hs
    exact ⟨_, .exists _, rfl, text, htext'⟩
  | checked n =>
    by_cases hn : n = 1
    · subst hn
      obtain ⟨hstore, hprocs, ht⟩ := enter [] tasks (Option.some.inj hs)
      exact ⟨_, hstore ▸ .present _, hprocs, ht⟩
    · simp only [Point.proc, afterExists, ne_eq, hn, not_false_eq_true, ↓reduceIte] at hs
      cases hs
      exact ⟨.finished, .absent _ n hn, rfl, text, htext'⟩
  | testing done t rest =>
    simp only [Point.proc, Redis.exec_sIsMember huser] at hs
    cases hs
    exact ⟨_, .test _ done t rest, rfl, text, htext'⟩
  | tested found done t rest =>
    cases found with
    | false =>
      simp only [Point.proc, afterIsMember, advance, htext'] at hs
      obtain ⟨hstore, hprocs, ht⟩ := enter (done ++ [t]) rest (Option.some.inj hs)
      exact ⟨_, hstore ▸ .skip _ done t rest, hprocs, ht⟩
    | true =>
      have htask : w.shared = .str t := Js.sameString_str.mp hsteady
      simp only [Point.proc, afterIsMember, advance, htask] at hs
      cases hs
      exact ⟨_, .found _ done t rest, rfl, t, Js.toText_str t⟩
  | removing done t rest =>
    simp only [Point.proc, Redis.exec_sRem huser] at hs
    cases hs
    exact ⟨_, .rem _ _ done t rest, rfl, text, htext'⟩
  | removed n done t rest =>
    have htask : w.shared = .str t := Js.sameString_str.mp hsteady
    simp only [Point.proc, afterRem, advance, htask, Js.toText_str] at hs
    cases hs
    exact ⟨_, .take _ n done t rest, rfl, t, Js.toText_str t⟩
  | adding done t rest =>
    simp only [Point.proc, Redis.exec_sAdd hdone] at hs
    cases hs
    exact ⟨_, .add _ _ done t rest, rfl, text, htext'⟩
  | added n done t rest =>
    obtain ⟨hstore, hprocs, ht⟩ := enter (done ++ [t]) rest (Option.some.inj hs)
    exact ⟨_, hstore ▸ .next _ n done t rest, hprocs, ht⟩
  | finished => cases hs

end Step

end Delete
end TodoWatch
