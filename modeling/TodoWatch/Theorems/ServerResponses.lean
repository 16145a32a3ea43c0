import TodoWatch.Server
import TodoWatch.Theorems.PostAlone

/-! # The responses of the server

Each handler is safe on its own: what it awaits, what it may do to the store, and that it answers once, as the
last thing it does. So a request is answered once at most, whatever the other requests do, whichever commands
fail and whenever the process is restarted. -/

namespace TodoWatch
namespace Server
open Async
open Runs (Growth)

variable {redis : NodeRedis} {G : Growth Store} {P : Promise Response Store} {sent : List Response} {s : Store}
  {user : String} {body : Js}

/-! ### Handlers -/

/-- A connection does nothing to the store, and is `null` or a client. -/
theorem safe_connect {p : Option (Option Unit) → Handler Unit} (hpend : P.pending sent)
    (h : ∀ t, G.grows s t → ∀ r, (p (some r)).Safe (Redis.attempt redis) G P sent t) :
    Prog.Safe (Redis.attempt redis) G P (.await .getConnection p) sent s := by
  refine ⟨hpend, fun t ht o => ?_⟩
  cases o with
  | answered => exact ⟨G.refl t, h t ht (some ())⟩
  | lost => exact ⟨G.refl t, h t ht none⟩
  | failed => exact ⟨G.refl t, h t ht none⟩

/-- A command that is awaited outside of a `catch`: only its answer lets the handler go on. -/
theorem safe_command {c : Command} {p : Option c.Reply → Handler Unit} (hc : c ≠ .getConnection)
    (hpend : P.pending sent) (hfail : p none = .throw) (heffect : ∀ t u, Effect t c u → G.grows t u)
    (h : ∀ t, G.grows s t → ∀ r, (Redis.exec redis c t).1 = some r →
      (p (some r)).Safe (Redis.attempt redis) G P sent (Redis.exec redis c t).2) :
    Prog.Safe (Redis.attempt redis) G P (.await c p) sent s := by
  refine ⟨hpend, fun t ht o => ⟨heffect t _ (Redis.attempt_effect o c), ?_⟩⟩
  have hthrow : ∀ u, (p none).Safe (Redis.attempt redis) G P sent u := fun u => by
    rw [hfail]
    exact hpend
  have hnone : c.noReply = none := by
    cases c <;> first | exact absurd rfl hc | rfl
  cases o with
  | answered =>
    show (p (Redis.exec redis c t).1).Safe _ _ _ _ _
    cases hr : (Redis.exec redis c t).1 with
    | none => exact hthrow _
    | some r => exact h t ht r hr
  | lost =>
    show (p c.noReply).Safe _ _ _ _ _
    rw [hnone]
    exact hthrow _
  | failed =>
    show (p c.noReply).Safe _ _ _ _ _
    rw [hnone]
    exact hthrow _

/-- A command that only reads. -/
theorem safe_query {c : Command} {p : Option c.Reply → Handler Unit} (hc : c ≠ .getConnection)
    (hreads : c.reads = true) (hpend : P.pending sent) (hfail : p none = .throw)
    (h : ∀ t, G.grows s t → ∀ r, (Redis.exec redis c t).1 = some r →
      (p (some r)).Safe (Redis.attempt redis) G P sent t) :
    Prog.Safe (Redis.attempt redis) G P (.await c p) sent s := by
  refine safe_command hc hpend hfail (fun t u hu => ?_) fun t ht r hr => ?_
  · rw [hu.eq_of_reads hreads]
    exact G.refl t
  · rw [(Redis.exec_effect c).eq_of_reads hreads]
    exact h t ht r hr

theorem safe_reply {r : Response} (h : ∀ t, G.grows s t → P.done (sent ++ [r]) t) :
    Prog.Safe (Redis.attempt redis) G P (.reply r : Handler Unit) sent s := h

theorem safe_getUserTasks (hpend : P.pending sent) :
    (getUserTasks (watchParams user)).Safe (Redis.attempt redis) G P sent s := by
  show Prog.Safe _ _ _ (.await Command.getConnection _) _ _
  refine safe_connect hpend fun t _ r => ?_
  cases r with
  | none => exact hpend
  | some u =>
    show Prog.Safe _ _ _ (.await (Command.exists .undefined) _) _ _
    refine safe_query (by simp) rfl hpend rfl fun t _ r hr => ?_
    rw [Redis.exec_exists_undefined] at hr
    cases hr

theorem safe_getCompletedTodos (hpend : P.pending sent)
    (hdone : ∀ t, P.done (sent ++ [⟨200, "[\"task1\",\"task2\",\"task3\"]"⟩]) t) :
    getCompletedTodos.Safe (Redis.attempt redis) G P sent s :=
  safe_connect hpend fun _ _ _ => safe_reply fun t _ => hdone t

theorem safe_postUsersTodos (hpend : P.pending sent)
    (hposted : ∀ item, todoItemOf body = some item → ∀ t, t.IsHash item.key → G.grows t (Post.posted t item))
    (hdone : ∀ item, todoItemOf body = some item → ∀ t u, t.IsHash item.key → G.grows (Post.posted t item) u →
      P.done (sent ++ [⟨200, "Successfully created new TODOs."⟩]) u) :
    (postUsersTodos body).Safe (Redis.attempt redis) G P sent s := by
  rw [Post.postUsersTodos_eq]
  refine safe_connect hpend fun t _ r => ?_
  unfold Post.afterConnection
  cases hitem : todoItemOf body with
  | none => exact hpend
  | some item =>
    cases r with
    | none => exact hpend
    | some u =>
      refine safe_query (by simp) rfl hpend rfl fun t _ n _ => ?_
      refine safe_command (by simp) hpend rfl (fun t u h => ?_) fun t _ n hn => ?_
      · cases h with
        | keep => exact G.refl t
        | hSet v h => exact hposted item hitem t h
      · have hhash : t.IsHash item.key := by
          by_contra h
          rw [Redis.exec_hSet_of_not_isHash h] at hn
          cases hn
        rw [Redis.exec_hSet hhash]
        refine safe_query (by simp) rfl hpend rfl fun u hu r _ => ?_
        exact safe_reply fun v hv => hdone item hitem t v hhash (G.trans hu hv)

/-- The loop. Each mention of `task` may find any value there. -/
theorem safe_loop {items : List Js} (hpend : P.pending sent)
    (hrem : ∀ t x, t.IsSet user → G.grows t (Delete.without t user x))
    (hadd : ∀ t x, t.IsSet "completed" → G.grows t (t.setMembers "completed" (insert x (t.members "completed"))))
    (hdone : ∀ t, P.done (sent ++ [⟨200, "Your tasks are registered to be completed."⟩]) t) :
    (Delete.loop user items).Safe (Redis.attempt redis) G P sent s := by
  induction items generalizing s with
  | nil => exact safe_reply fun t _ => hdone t
  | cons item rest ih =>
    rw [Delete.loop_cons]
    intro task
    refine safe_query (by simp) rfl hpend rfl fun t _ found _ => ?_
    cases found with
    | false =>
      unfold Delete.afterIsMember
      intro task
      dsimp only
      cases task.toText with
      | none => exact hpend
      | some text => exact ih
    | true =>
      intro task
      refine safe_command (by simp) hpend rfl (fun t u h => ?_) fun t _ n _ => ?_
      · cases h with
        | keep => exact G.refl t
        | sRem h => exact hrem t _ h
      · unfold Delete.afterRem
        intro task
        dsimp only
        cases task.toText with
        | none => exact hpend
        | some text =>
          intro task
          refine safe_command (by simp) hpend rfl (fun t u h => ?_) fun _ _ _ _ => ih
          cases h with
          | keep => exact G.refl t
          | sAdd h => exact hadd t _ h

theorem safe_deleteUserTasks (hpend : P.pending sent)
    (habsent : ∀ t, P.done (sent ++ [⟨404, "The user does not exist!"⟩]) t)
    (hloop : ∀ tasks items t, body.prop "tasks" = some tasks → tasks.iterate = some items → G.grows s t →
      (t user).isSome = true → (Delete.loop user items).Safe (Redis.attempt redis) G P sent t) :
    (Request.deleteWatch user body).handler.Safe (Redis.attempt redis) G P sent s := by
  rw [Delete.deleteWatch_eq]
  refine safe_connect hpend fun t ht r => ?_
  unfold Delete.afterBody
  cases htasks : body.prop "tasks" with
  | none => exact hpend
  | some tasks =>
    cases r with
    | none => exact hpend
    | some u =>
      refine safe_query (by simp) rfl hpend rfl fun u hu n hn => ?_
      rw [Redis.exec_exists] at hn
      obtain rfl := Option.some.inj hn
      unfold Delete.afterReply
      cases huser : u user with
      | none => exact safe_reply fun t _ => habsent t
      | some v =>
        simp only [Option.isSome_some, ↓reduceIte, ne_eq, not_true_eq_false]
        cases hitems : tasks.iterate with
        | none => exact hpend
        | some items => exact hloop tasks items u htasks hitems (G.trans ht hu) (by rw [huser]; rfl)

/-! ### Responses -/

/-- The responses that a route can give. `GET /watch/:user` gives none. -/
def responses : Route → List Response
  | .getHome => [⟨200, "Hello World"⟩]
  | .postHome _ => [⟨200, "POST request to the homepage"⟩]
  | .getCompleted => [⟨200, "[\"task1\",\"task2\",\"task3\"]"⟩]
  | .api (.postNew _) => [⟨200, "Successfully created new TODOs."⟩]
  | .api (.getWatch _) => []
  | .api (.deleteWatch _ _) =>
    [⟨404, "The user does not exist!"⟩, ⟨200, "Your tasks are registered to be completed."⟩]

/-- The request has one of the responses of its route if its handler is through, and else none. -/
structure RespondsOnce (route : Route) (p : Proc Js Command Command.Reply Response) (out : List Response) : Prop where
  ended : p = .fulfilled → ∃ r ∈ responses route, out = [r]
  pending : p ≠ .fulfilled → out = []

def anyGrowth : Growth Store where
  grows _ _ := True
  refl _ := trivial
  trans _ _ := trivial

def oneResponse (route : Route) : Promise Response Store where
  pending sent := sent = []
  done sent _ := ∃ r ∈ responses route, sent = [r]

theorem safe_oneResponse (route : Route) (s : Store) :
    route.handler.Safe (Redis.attempt redis) anyGrowth (oneResponse route) [] s := by
  cases route with
  | getHome => exact safe_reply fun _ _ => ⟨_, List.mem_singleton_self _, rfl⟩
  | postHome body => exact safe_reply fun _ _ => ⟨_, List.mem_singleton_self _, rfl⟩
  | getCompleted => exact safe_getCompletedTodos rfl fun _ => ⟨_, List.mem_singleton_self _, rfl⟩
  | api request =>
    cases request with
    | postNew body =>
      exact safe_postUsersTodos rfl (fun _ _ _ _ => trivial) fun _ _ _ _ _ _ => ⟨_, List.mem_singleton_self _, rfl⟩
    | getWatch user => exact safe_getUserTasks rfl
    | deleteWatch user body =>
      refine safe_deleteUserTasks rfl (fun _ => ⟨_, List.mem_cons_self, rfl⟩) fun _ _ _ _ _ _ _ => ?_
      exact safe_loop rfl (fun _ _ _ => trivial) (fun _ _ _ => trivial)
        fun _ => ⟨_, List.mem_cons_of_mem _ List.mem_cons_self, rfl⟩

/-! ### Bounds -/

/-- How many values a `DELETE` with this body loops over. -/
def itemCount (body : Js) : Nat := ((body.prop "tasks").bind Js.iterate).elim 0 List.length

/-- The commands that a route awaits at most. -/
def awaits : Route → Nat
  | .getHome => 0
  | .postHome _ => 0
  | .getCompleted => 1
  | .api (.postNew _) => 4
  | .api (.getWatch _) => 3
  | .api (.deleteWatch _ body) => 2 + 3 * itemCount body

theorem within_postUsersTodos : (postUsersTodos body).Within 4 := by
  rw [Post.postUsersTodos_eq]
  intro r
  unfold Post.afterConnection
  cases r with
  | none => trivial
  | some redis =>
    cases todoItemOf body with
    | none => trivial
    | some item =>
      cases redis with
      | none => trivial
      | some u =>
        intro n
        cases n with
        | none => trivial
        | some n =>
          intro k
          cases k with
          | none => trivial
          | some k =>
            intro all
            cases all <;> trivial

theorem within_getUserTasks (params : String → Js) : (getUserTasks params).Within 3 := by
  intro r
  rcases r with _ | _ | _
  · trivial
  · trivial
  · intro n
    cases n with
    | none => trivial
    | some n =>
      show Prog.Within (if n ≠ 0 then _ else _ : Handler Unit) 1
      split
      · intro tasks
        cases tasks <;> trivial
      · trivial

theorem within_loop (user : String) (items : List Js) : (Delete.loop user items).Within (3 * items.length) := by
  induction items with
  | nil => trivial
  | cons item rest ih =>
    rw [Delete.loop_cons, List.length_cons, Nat.mul_add_one]
    intro task found
    rcases found with _ | _ | _
    · trivial
    · unfold Delete.afterIsMember
      intro task
      dsimp only
      cases task.toText with
      | none => trivial
      | some text => exact ih.mono (Nat.le_add_right _ 2)
    · intro task n
      cases n with
      | none => trivial
      | some n =>
        unfold Delete.afterRem
        intro task
        dsimp only
        cases task.toText with
        | none => trivial
        | some text =>
          intro task n
          cases n with
          | none => trivial
          | some n => exact ih

theorem within_deleteUserTasks :
    (Request.deleteWatch user body).handler.Within (2 + 3 * itemCount body) := by
  rw [Delete.deleteWatch_eq, show 2 + 3 * itemCount body = 3 * itemCount body + 1 + 1 by omega]
  intro r
  unfold Delete.afterBody
  cases r with
  | none => trivial
  | some redis =>
    unfold itemCount
    cases body.prop "tasks" with
    | none => trivial
    | some tasks =>
      cases redis with
      | none => trivial
      | some u =>
        intro n
        cases n with
        | none => trivial
        | some n =>
          show Prog.Within (if n ≠ 1 then _ else _ : Handler Unit) _
          split
          · trivial
          · simp only [Option.bind_some]
            cases tasks.iterate with
            | none => trivial
            | some items => exact within_loop user items

theorem within_awaits (route : Route) : route.handler.Within (awaits route) := by
  cases route with
  | getHome => trivial
  | postHome body => trivial
  | getCompleted =>
    intro r
    cases r <;> trivial
  | api request =>
    cases request with
    | postNew body => exact within_postUsersTodos
    | getWatch user => exact within_getUserTasks _
    | deleteWatch user body => exact within_deleteUserTasks

end Server

open Async Server

/-- Whatever the requests, their order, the failing commands and the restarts: at any time a request has one
    response of its route if its handler is through, and else none. -/
theorem server_respondsOnce {ι : Type} [DecidableEq ι] (redis : NodeRedis) (s₀ : Store) (routes : ι → Route)
    (acts : List (Act ι Outcome)) :
    Runs.Always (Server.step redis) (fun w => ∀ i, RespondsOnce (routes i) (w.procs i) (w.out i))
      (waiting s₀ routes) acts := by
  have hsafe : (waiting s₀ routes).Safe (Redis.attempt redis) anyGrowth (fun i => oneResponse (routes i)) s₀ :=
    ⟨fun i => ⟨rfl, safe_oneResponse (routes i) s₀⟩, trivial⟩
  refine hsafe.always.imp fun w hw i => ⟨fun hp => ?_, (hw.procs i).pending⟩
  have hi := hw.procs i
  rw [hp] at hi
  exact hi.done

/-- No request waits for another one: until it has ended its next step is possible, and in any run it takes at
    most two steps for each command that its route may await and one to start; with these it has ended. -/
theorem server_bounded {ι : Type} [DecidableEq ι] (redis : NodeRedis) (s₀ : Store) (routes : ι → Route)
    (acts : List (Act ι Outcome)) (w : Server ι) (h : Runs.run (Server.step redis) (waiting s₀ routes) acts = some w)
    (i : ι) :
    (∀ o, (Server.step redis w (.go i o)).isSome = !(w.procs i).ended) ∧
      acts.countP (Act.isOf i) ≤ 2 * awaits (routes i) + 1 ∧
      (acts.countP (Act.isOf i) = 2 * awaits (routes i) + 1 → (w.procs i).ended = true) := by
  have hleft : ((waiting s₀ routes).procs i).Left (2 * awaits (routes i) + 1) :=
    ⟨_, within_awaits (routes i), le_rfl⟩
  obtain ⟨hle, hrest⟩ := Pool.steps_le hleft h
  refine ⟨fun o => Pool.step_isSome _ w i, hle, fun heq => Proc.Left.ended ?_⟩
  rwa [heq, Nat.sub_self] at hrest

/-- A `DELETE` of the one item of a user: it starts, and awaits the connection and four commands, three of them for the
    item. -/
theorem server_bounded_delete : ∃ w : Server Unit,
    Runs.run (Server.step nodeRedis)
        (waiting (Store.setMembers (fun _ => none) "123" {"Buy milk"})
          fun _ => .api (.deleteWatch "123" (tasksBody ["Buy milk"])))
        (List.replicate 11 (.go () .answered)) = some w ∧
      (∀ o, (Server.step nodeRedis w (.go () o)).isSome = !(w.procs ()).ended) ∧ (w.procs ()).ended = true ∧
      "Buy milk" ∈ w.store.members "completed" := by
  have hrun : (Runs.run (Server.step nodeRedis)
      (waiting (Store.setMembers (fun _ => none) "123" {"Buy milk"})
        fun _ => .api (.deleteWatch "123" (tasksBody ["Buy milk"])))
      (List.replicate 11 (.go () .answered))).any
      (fun w => decide ("Buy milk" ∈ w.store.members "completed")) = true := by decide +kernel
  obtain ⟨w, hw, hmoved⟩ := (Option.any_eq_true _ _).mp hrun
  obtain ⟨hpossible, -, hended⟩ := server_bounded nodeRedis _ _ _ w hw ()
  exact ⟨w, hw, hpossible, hended rfl, of_decide_eq_true hmoved⟩

end TodoWatch
