import TodoWatch.Server
import TodoWatch.Theorems.ApiRefinement
import TodoWatch.Theorems.CompletionOrder
import TodoWatch.Theorems.ConcurrentPosts

/-! # Requests of all routes, one at a time

Posts, completions and requests that only read. A post writes to a hash and a completion to sets, so what completions
leave is determined as it is without posts, but over the store as the posts have made it. -/

namespace TodoWatch

theorem Store.members_of_isHash {s : Store} {k : String} (h : s.IsHash k) : s.members k = ∅ := by
  unfold Store.members
  cases hk : s k with
  | none => rfl
  | some v =>
    obtain ⟨f, rfl⟩ := h v hk
    rfl

theorem Store.IsHash.congr {s t : Store} {k : String} (h : t.IsHash k) (heq : s k = t k) : s.IsHash k :=
  fun v hv => h v (heq ▸ hv)

/-! ### A post beside completions -/

namespace Delete
open Post (posted posted_of_ne isHash_posted)

variable {ι : Type} {named : String → String → Prop} {s₀ s : Store} {item : HashEntry} {reqs : ι → DeleteRequest}
  {points : ι → Point} {u : String}

theorem members_posted (h : s.IsHash item.key) : (posted s item).members u = s.members u := by
  by_cases hu : u = item.key
  · subst hu
    rw [Store.members_of_isHash h, Store.members_of_isHash (isHash_posted h)]
  · rw [Store.members, posted_of_ne hu, Store.members]

theorem isSet_posted (hu : u ≠ item.key) : (posted s item).IsSet u ↔ s.IsSet u := by
  unfold Store.IsSet
  rw [posted_of_ne hu]

/-- After the post its key holds no set. -/
theorem isSet_posted_of_isSet (h : ∀ u, s₀.IsSet u → s.IsSet u) (hu : (posted s₀ item).IsSet u) :
    (posted s item).IsSet u := by
  by_cases heq : u = item.key
  · subst heq
    obtain ⟨m, hm⟩ := hu _ (Function.update_self ..)
    cases hm
  · exact (isSet_posted heq).mpr (h u ((isSet_posted heq).mp hu))

theorem posted_congr (h : s item.key = s₀ item.key) {key : String} (hkey : s key = s₀ key) :
    posted s item key = posted s₀ item key := by
  by_cases heq : key = item.key
  · subst heq
    simp only [posted, Store.setFields, Function.update_self, Store.fields, h]
  · rw [posted_of_ne heq, posted_of_ne heq, hkey]

theorem CompletesNamed.posted (h : CompletesNamed named s₀ s) (h₀ : s₀.IsHash item.key) (hs : s.IsHash item.key)
    (hkey : item.key ≠ "completed") (hnone : ∀ t, ¬named item.key t) :
    CompletesNamed named (posted s₀ item) (posted s item) where
  sets _ hu := isSet_posted_of_isSet h.sets hu
  remaining u t hne := by
    rw [members_posted hs, members_posted h₀]
    exact h.remaining u t hne
  done t := by
    simp only [members_posted hs, members_posted h₀]
    exact h.done t
  others key hne hnamed := posted_congr (h.others item.key hkey hnone) (h.others key hne hnamed)

theorem Inv.posted (h : Inv s₀ reqs points s) (h₀ : s₀.IsHash item.key) (hs : s.IsHash item.key)
    (hkey : item.key ≠ "completed") (huser : ∀ i, (reqs i).user ≠ item.key) :
    Inv (posted s₀ item) reqs points (posted s item) where
  fits := h.fits
  users i := (isSet_posted (huser i)).mpr (h.users i)
  completed := (isSet_posted hkey.symm).mpr h.completed
  named u t := by
    rw [members_posted hs, members_posted h₀]
    exact h.named u t
  passed i t := by
    rw [members_posted hs]
    exact h.passed i t
  kept i t := by
    simp only [members_posted hs, members_posted h₀]
    exact h.kept i t

theorem Moved.posted (h : Moved s₀ reqs points s) (h₀ : s₀.IsHash item.key) (hs : s.IsHash item.key)
    (hkey : item.key ≠ "completed") (huser : ∀ i, (reqs i).user ≠ item.key) :
    Moved (posted s₀ item) reqs points (posted s item) where
  shrinks u t := by
    rw [members_posted hs, members_posted h₀]
    exact h.shrinks u t
  grows t := by
    rw [members_posted hs, members_posted h₀]
    exact h.grows t
  source t := by
    simp only [members_posted hs, members_posted h₀]
    exact h.source t
  sets _ hu := isSet_posted_of_isSet h.sets hu
  others key hne hnone :=
    posted_congr (h.others item.key hkey fun i hi => absurd hi (huser i)) (h.others key hne hnone)
  holding i t := by
    rw [members_posted h₀]
    exact h.holding i t

end Delete

/-! ### Routes in turn -/

/-- The route reads from Redis at most. -/
def Route.reads : Route → Bool
  | .api (.postNew _) => false
  | .api (.deleteWatch _ _) => false
  | _ => true

namespace Server
open Async Delete
open Post (posted isHash_posted)

variable {P D R : Type} {redis : NodeRedis} {s₀ s : Store} {todos : P → Todo} {reqs : D → DeleteRequest}
  {reads : R → Route}

/-- Posts, completions and requests that only read. -/
def routes (todos : P → Todo) (reqs : D → DeleteRequest) (reads : R → Route) : P ⊕ D ⊕ R → Route
  | .inl p => .api (.postNew (todos p).body)
  | .inr (.inl d) => .api (.deleteWatch (reqs d).user (tasksBody (reqs d).tasks))
  | .inr (.inr r) => reads r

/-- What a request leaves that is served alone. -/
def servedAlone (redis : NodeRedis) (route : Route) (s : Store) : Store :=
  (run (Redis.exec redis) route.handler .undefined s).store

def servedInTurn {ι : Type} (redis : NodeRedis) (s₀ : Store) (routes : ι → Route) (order : List ι) : Store :=
  order.foldl (fun s i => servedAlone redis (routes i) s) s₀

theorem servedInTurn_concat {ι : Type} {routes : ι → Route} {order : List ι} {i : ι} :
    servedInTurn redis s₀ routes (order ++ [i]) = servedAlone redis (routes i) (servedInTurn redis s₀ routes order) :=
  List.foldl_concat ..

def postedInTurn (s₀ : Store) (todos : P → Todo) (posts : List P) : Store :=
  posts.foldl (fun s p => posted s (todos p).entry) s₀

def post? : P ⊕ D ⊕ R → Option P
  | .inl p => some p
  | _ => none

def delete? : P ⊕ D ⊕ R → Option D
  | .inr (.inl d) => some d
  | _ => none

/-- Without faults the count of the commands makes no difference. -/
theorem store_run_execUnder {α : Type} (p : Handler α) (task : Js) (k : Nat) :
    (run (execUnder redis .none) p task (s, k)).store.1 = (run (Redis.exec redis) p task s).store := by
  induction p generalizing task s k with
  | pure a => rfl
  | throw => rfl
  | send r p ih => exact ih task k
  | assign g p ih => exact ih g k
  | read p ih => exact ih task task k
  | await c p ih =>
    cases c with
    | getConnection => exact ih _ task k
    | _ => exact ih _ task (k + 1)

theorem servedAlone_post {todo : Todo} (h : s.IsHash todo.entry.key) :
    servedAlone redis (.api (.postNew todo.body)) s = posted s todo.entry :=
  (store_run_execUnder _ _ 0).symm.trans (Refinement.store_serve_post h)

theorem servedAlone_delete {user : String} {tasks : List String} :
    servedAlone redis (.api (.deleteWatch user (tasksBody tasks))) s = deleted redis s user tasks .undefined :=
  (store_run_execUnder _ _ 0).symm

theorem store_run_of_quiet {α : Type} {p : Handler α} (h : p.Quiet fun c => c.reads = true) (task : Js) :
    (run (Redis.exec redis) p task s).store = s := by
  induction p generalizing task s with
  | pure a => rfl
  | throw => rfl
  | send r p ih => exact ih h task
  | assign g p ih => exact h.elim
  | read p ih => exact ih task (h task) task
  | await c p ih => exact (ih _ (h.2 _) task).trans ((Redis.exec_effect c).eq_of_reads h.1)

/-! ### Quiet handlers -/

theorem quiet_await {P : Command → Prop} {c : Command} {p : Option c.Reply → Handler Unit} (hc : P c)
    (hfail : p none = .throw) (h : ∀ r, (p (some r)).Quiet P) : Prog.Quiet P (.await c p) := by
  refine ⟨hc, fun r => ?_⟩
  cases r with
  | none =>
    rw [hfail]
    exact trivial
  | some r => exact h r

theorem quiet_getUserTasks (user : String) : (getUserTasks (watchParams user)).Quiet fun c => c.reads = true := by
  refine quiet_await rfl rfl fun r => ?_
  cases r with
  | none => exact trivial
  | some u =>
    refine quiet_await rfl rfl fun n => ?_
    show Prog.Quiet _ (if n ≠ 0 then _ else _ : Handler Unit)
    split
    · exact quiet_await rfl rfl fun _ => trivial
    · exact trivial

theorem quiet_reads {route : Route} (h : route.reads = true) : route.handler.Quiet fun c => c.reads = true := by
  cases route with
  | getHome => exact trivial
  | postHome body => exact trivial
  | getCompleted => exact quiet_await rfl rfl fun _ => trivial
  | api request =>
    cases request with
    | getWatch user => exact quiet_getUserTasks user
    | postNew body => cases h
    | deleteWatch user body => cases h

theorem quiet_postUsersTodos (body : Js) : (postUsersTodos body).Quiet fun _ => True := by
  rw [Post.postUsersTodos_eq]
  refine ⟨trivial, fun r => ?_⟩
  unfold Post.afterConnection
  cases r with
  | none => exact trivial
  | some redis =>
    cases todoItemOf body with
    | none => exact trivial
    | some item =>
      cases redis with
      | none => exact trivial
      | some u =>
        exact quiet_await trivial rfl fun _ => quiet_await trivial rfl fun _ => quiet_await trivial rfl fun _ => trivial

/-! ### Posts in turn -/

theorem postedInTurn_concat {posts : List P} {p : P} :
    postedInTurn s₀ todos (posts ++ [p]) = posted (postedInTurn s₀ todos posts) (todos p).entry :=
  List.foldl_concat ..

theorem isHash_postedInTurn {posts : List P} {key : String} (h : s₀.IsHash key) :
    (postedInTurn s₀ todos posts).IsHash key := by
  induction posts using List.reverseRecOn with
  | nil => exact h
  | append_singleton posts p ih =>
    rw [postedInTurn_concat]
    exact isHash_posted ih

theorem isSet_postedInTurn {posts : List P} {key : String} (h : s₀.IsSet key) (hkey : ∀ p, key ≠ (todos p).entry.key) :
    (postedInTurn s₀ todos posts).IsSet key := by
  induction posts using List.reverseRecOn with
  | nil => exact h
  | append_singleton posts p ih =>
    rw [postedInTurn_concat]
    exact (isSet_posted (hkey p)).mpr ih

/-! ### One at a time -/

/-- The posts write to keys of hashes, which no completion names. -/
structure Apart (s₀ : Store) (todos : P → Todo) (reqs : D → DeleteRequest) : Prop where
  hash : ∀ p, s₀.IsHash (todos p).entry.key
  user : ∀ d p, (reqs d).user ≠ (todos p).entry.key
  completed : Users reqs

theorem key_ne_completed (todo : Todo) : todo.entry.key ≠ "completed" := by
  rcases Post.key_entry todo with h | h <;> rw [h] <;> decide

theorem completesNamed_inTurn (hapart : Apart s₀ todos reqs) (huser : ∀ d, s₀.IsSet (reqs d).user)
    (hdone : s₀.IsSet "completed") (hreads : ∀ r, (reads r).reads = true) (order : List (P ⊕ D ⊕ R)) :
    CompletesNamed (NamedBy reqs (order.filterMap delete?)) (postedInTurn s₀ todos (order.filterMap post?))
      (servedInTurn redis s₀ (routes todos reqs reads) order) := by
  induction order using List.reverseRecOn with
  | nil =>
    rw [List.filterMap_nil, namedBy_nil]
    exact .refl s₀
  | append_singleton order i ih =>
    rw [List.filterMap_append, List.filterMap_append, servedInTurn_concat]
    rcases i with p | d | r
    · have hhash : (servedInTurn redis s₀ (routes todos reqs reads) order).IsHash (todos p).entry.key :=
        (isHash_postedInTurn (hapart.hash p)).congr
          (ih.others _ (key_ne_completed _) fun t ⟨d, _, hd, _⟩ => hapart.user d p hd)
      show CompletesNamed (NamedBy reqs (_ ++ [])) (postedInTurn s₀ todos (_ ++ [p]))
        (servedAlone redis (.api (.postNew (todos p).body)) _)
      rw [List.append_nil, postedInTurn_concat, servedAlone_post hhash]
      exact ih.posted (isHash_postedInTurn (hapart.hash p)) hhash (key_ne_completed _)
        fun t ⟨d, _, hd, _⟩ => hapart.user d p hd
    · have hset : (postedInTurn s₀ todos (order.filterMap post?)).IsSet (reqs d).user :=
        isSet_postedInTurn (huser d) (hapart.user d)
      have hcompleted : (postedInTurn s₀ todos (order.filterMap post?)).IsSet "completed" :=
        isSet_postedInTurn hdone fun p => (key_ne_completed _).symm
      show CompletesNamed (NamedBy reqs (_ ++ [d])) (postedInTurn s₀ todos (_ ++ []))
        (servedAlone redis (.api (.deleteWatch (reqs d).user (tasksBody (reqs d).tasks))) _)
      rw [List.append_nil, namedBy_concat, servedAlone_delete]
      exact ih.next (completes_deleted (hapart.completed d) (ih.sets _ hset) (ih.sets _ hcompleted))
        (hapart.completed d) hset
    · show CompletesNamed (NamedBy reqs (_ ++ [])) (postedInTurn s₀ todos (_ ++ [])) (servedAlone redis (reads r) _)
      rw [List.append_nil, List.append_nil, servedAlone, store_run_of_quiet (quiet_reads (hreads r))]
      exact ih

end Server

end TodoWatch
