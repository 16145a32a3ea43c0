import TodoWatch.Api
import TodoWatch.Lib.Guarantee

/-! # The server

`app.js`: the routes of the application, and the process that serves any number of requests over one Redis.
Requests come at any time, their handlers interleave at the awaits, commands fail, and the process may be
restarted, as after a rejection that nothing handles; Redis keeps its data then. What Express answers by itself,
to a path without a route or a body that is not JSON, is not part of it. -/

namespace TodoWatch
open Async

/-! ### Routes -/

inductive Route where
  | getHome
  | postHome (body : Js)
  | getCompleted
  | api (request : Request)

def Route.handler : Route → Handler Unit
  | getHome => .reply ⟨200, "Hello World"⟩
  | postHome _ => .reply ⟨200, "POST request to the homepage"⟩
  | getCompleted => getCompletedTodos
  | api request => request.handler

/-! ### Commands -/

/-- What becomes of a command: it is executed and answered, it is executed and its reply gets lost, or it is
    not executed. -/
inductive Outcome where
  | answered
  | lost
  | failed
  deriving DecidableEq

/-- A failed connection gives `null`; any other command that fails is rejected. -/
def Command.noReply : (c : Command) → Option c.Reply
  | .getConnection => some none
  | .exists _ => none
  | .get _ => none
  | .sIsMember _ _ => none
  | .sRem _ _ => none
  | .sAdd _ _ => none
  | .hSet _ _ _ => none
  | .hGetAll _ => none

def Redis.attempt (redis : NodeRedis) : Outcome → (c : Command) → Store → Option c.Reply × Store
  | .answered, c, s => exec redis c s
  | .lost, c, s => (c.noReply, (exec redis c s).2)
  | .failed, c, s => (c.noReply, s)

/-! ### The process -/

abbrev Server (ι : Type) := Pool Js Command Command.Reply Response ι Store

namespace Server
variable {ι : Type}

/-- No request has come yet. -/
def waiting (s : Store) (routes : ι → Route) : Server ι where
  store := s
  shared := .undefined
  procs i := .idle (routes i).handler
  out _ := []

/-- A restarted process has no global `task` again. -/
def step [DecidableEq ι] (redis : NodeRedis) : Server ι → Act ι Outcome → Option (Server ι) :=
  Pool.act (Redis.attempt redis) .undefined

end Server

/-! ### What a command does to the store -/

/-- The effects of the commands. A command that is rejected keeps the store, as one that only reads does. -/
inductive Effect (s : Store) : Command → Store → Prop
  | keep (c : Command) : Effect s c s
  | hSet {k f : String} (v : String) (h : s.IsHash k) :
      Effect s (.hSet (.str k) (.str f) (.str v)) (s.setFields k (Function.update (s.fields k) f (some v)))
  | sRem {k t : String} (h : s.IsSet k) :
      Effect s (.sRem (.str k) (.str t)) (s.setMembers k ((s.members k).erase t))
  | sAdd {k t : String} (h : s.IsSet k) :
      Effect s (.sAdd (.str k) (.str t)) (s.setMembers k (insert t (s.members k)))

def Command.reads : Command → Bool
  | .hSet _ _ _ => false
  | .sRem _ _ => false
  | .sAdd _ _ => false
  | _ => true

theorem Effect.eq_of_reads {s t : Store} {c : Command} (h : Effect s c t) (hc : c.reads = true) : t = s := by
  cases h with
  | keep => rfl
  | hSet => cases hc
  | sRem => cases hc
  | sAdd => cases hc

namespace Redis
variable {redis : NodeRedis} {s : Store}

/-- Only a string is encoded, and nothing happens without an argument. -/
theorem effect_withArg {β : Type} {c : Command} {v : Js} {f : String → Option β × Store}
    (h : ∀ k, v = .str k → Effect s c (f k).2) : Effect s c (withArg redis v s f).2 := by
  by_cases hv : ∀ k, v ≠ .str k
  · rw [withArg_of_ne_str hv]
    exact .keep c
  · obtain ⟨k, hk⟩ := not_forall.mp hv
    obtain rfl := not_not.mp hk
    rw [withArg_str]
    exact h k rfl

theorem effect_onSet {β : Type} {c : Command} {key member : Js} {f : String → String → Finset String → β × Store}
    (h : ∀ k t, key = .str k → member = .str t → s.IsSet k → Effect s c (f k t (s.members k)).2) :
    Effect s c (onSet redis key member s f).2 := by
  refine effect_withArg fun k hk => effect_withArg fun t ht => ?_
  split
  · rename_i hset
    exact h k t hk ht hset
  · exact .keep c

theorem exec_effect (c : Command) : Effect s c (exec redis c s).2 := by
  cases c with
  | getConnection => exact .keep _
  | «exists» key => exact effect_withArg fun k _ => .keep _
  | get key =>
    refine effect_withArg fun k _ => ?_
    split <;> exact .keep _
  | sIsMember key member => exact effect_onSet fun k t _ _ _ => .keep _
  | sRem key member =>
    refine effect_onSet fun k t hk ht hset => ?_
    subst hk ht
    exact .sRem hset
  | sAdd key member =>
    refine effect_onSet fun k t hk ht hset => ?_
    subst hk ht
    exact .sAdd hset
  | hSet key field value =>
    refine effect_withArg fun k hk => effect_withArg fun f hf => effect_withArg fun v hv => ?_
    subst hk hf hv
    split
    · rename_i hhash
      exact .hSet v hhash
    · exact .keep _
  | hGetAll key =>
    refine effect_withArg fun k _ => ?_
    split <;> exact .keep _

theorem attempt_effect (o : Outcome) (c : Command) : Effect s c (attempt redis o c s).2 := by
  cases o with
  | answered => exact exec_effect c
  | lost => exact exec_effect c
  | failed => exact .keep c

end Redis

end TodoWatch
