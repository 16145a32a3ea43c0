import TodoWatch.Theorems.ServerResponses

/-! # What the server keeps in Redis

Two facts of any run of the server, with failing commands and restarts. A todo whose post was answered stays in
its hash. And since no route ever creates the set of a user, over a Redis without sets `DELETE` has nothing that
it could complete: the posted todos are in hashes, on which the commands for sets fail. -/

namespace TodoWatch
namespace Server
open Async Post
open Runs (Growth)

/-- The route posts the entry. -/
def Posts (route : Route) (item : HashEntry) : Prop :=
  ∃ body, route = .api (.postNew body) ∧ todoItemOf body = some item

section Hashes
variable {s : Store} {k k' : String} {m : Finset String}

theorem fields_setMembers (h : s.IsSet k) : (s.setMembers k m).fields k' = s.fields k' := by
  by_cases hk : k' = k
  · subst hk
    have hnone : ∀ u : Store, u.IsSet k' → u.fields k' = fun _ => none := fun u hu => by
      unfold Store.fields
      cases huser : u k' with
      | none => rfl
      | some v =>
        obtain ⟨m, rfl⟩ := hu v huser
        rfl
    rw [hnone s h, hnone _ Store.isSet_setMembers_self]
  · rw [Store.fields, Store.setMembers_of_ne hk, Store.fields]

end Hashes

section Kept
variable {ι : Type} (s₀ : Store) (routes : ι → Route)

/-! ### Posted todos -/

/-- No field of a hash gets lost, and each value is an old one or the entry of a post. -/
structure Keeps (s t : Store) : Prop where
  kept : ∀ key field, (s.fields key field).isSome = true → (t.fields key field).isSome = true
  written : ∀ key field v, t.fields key field = some v →
    s.fields key field = some v ∨ ∃ i, Posts (routes i) ⟨key, field, v⟩

def keeping : Growth Store where
  grows := Keeps routes
  refl _ := ⟨fun _ _ => id, fun _ _ _ => Or.inl⟩
  trans h h' := by
    refine ⟨fun key field hs => h'.kept key field (h.kept key field hs), fun key field v hv => ?_⟩
    rcases h'.written key field v hv with hv | hv
    · exact h.written key field v hv
    · exact Or.inr hv

/-- The field of the entry holds the entry of a post, of this one or of another one. -/
def Stored (item : HashEntry) (s : Store) : Prop :=
  ∃ v, s.fields item.key item.field = some v ∧ ∃ j, Posts (routes j) ⟨item.key, item.field, v⟩

def storing (i : ι) : Promise Response Store where
  pending sent := sent = []
  done _ s := ∀ item, Posts (routes i) item → Stored routes item s

variable {s₀ routes} {redis : NodeRedis} {s t : Store} {item : HashEntry} {i : ι}

theorem Stored.grows (h : Stored routes item s) (ht : Keeps routes s t) : Stored routes item t := by
  obtain ⟨v, hv, hpost⟩ := h
  obtain ⟨v', hv'⟩ := Option.isSome_iff_exists.mp (ht.kept item.key item.field (by rw [hv]; rfl))
  refine ⟨v', hv', ?_⟩
  rcases ht.written _ _ _ hv' with hold | hpost'
  · obtain rfl := Option.some.inj (hv.symm.trans hold)
    exact hpost
  · exact hpost'

theorem keeps_posted (h : Posts (routes i) item) : Keeps routes s (posted s item) := by
  refine ⟨fun key field hs => ?_, fun key field v hv => ?_⟩
  · rw [fields_posted]
    split
    · rfl
    · exact hs
  · rw [fields_posted] at hv
    split at hv
    · rename_i heq
      obtain ⟨rfl, rfl⟩ := heq
      obtain rfl := Option.some.inj hv
      exact Or.inr ⟨i, h⟩
    · exact Or.inl hv

theorem keeps_setMembers {k : String} {m : Finset String} (h : s.IsSet k) : Keeps routes s (s.setMembers k m) := by
  refine ⟨fun key field hs => ?_, fun key field v hv => ?_⟩
  · rwa [fields_setMembers h]
  · rw [fields_setMembers h] at hv
    exact Or.inl hv

theorem stored_posted (h : Posts (routes i) item) : Stored routes item (posted s item) :=
  ⟨item.value, by rw [fields_posted, if_pos ⟨rfl, rfl⟩], i, h⟩

theorem safe_storing (i : ι) :
    (routes i).handler.Safe (Redis.attempt redis) (keeping routes) (storing routes i) [] s := by
  -- Only a post has to store something.
  have other : (∀ body, routes i ≠ .api (.postNew body)) → ∀ sent t, (storing routes i).done sent t :=
    fun h _ _ _ hpost => by
      obtain ⟨body, hbody, -⟩ := hpost
      exact absurd hbody (h body)
  cases hroute : routes i with
  | getHome => exact safe_reply fun t _ => other (by simp [hroute]) _ t
  | postHome body => exact safe_reply fun t _ => other (by simp [hroute]) _ t
  | getCompleted => exact safe_getCompletedTodos rfl fun t => other (by simp [hroute]) _ t
  | api request =>
    cases request with
    | postNew body =>
      have hposts : ∀ item, todoItemOf body = some item → Posts (routes i) item := fun item h => ⟨body, hroute, h⟩
      refine safe_postUsersTodos rfl (fun item h t _ => keeps_posted (hposts item h)) fun item h t u _ hu item' h' => ?_
      obtain ⟨body', hroute', hbody'⟩ := h'
      obtain rfl : body = body' := by simpa [hroute] using hroute'
      obtain rfl := Option.some.inj (h.symm.trans hbody')
      exact (stored_posted (hposts item h)).grows hu
    | getWatch user => exact safe_getUserTasks rfl
    | deleteWatch user body =>
      refine safe_deleteUserTasks rfl (fun t => other (by simp [hroute]) _ t) fun _ _ _ _ _ _ _ => ?_
      exact safe_loop rfl (fun _ _ => keeps_setMembers) (fun _ _ => keeps_setMembers)
        fun t => other (by simp [hroute]) _ t

/-- The todos in Redis: what was there stays, each post that was answered has its field, and what is new
    there was posted. -/
structure TodosKept (s₀ : Store) (routes : ι → Route) (w : Server ι) : Prop extends Keeps routes s₀ w.store where
  stored : ∀ i item, Posts (routes i) item → w.out i ≠ [] → Stored routes item w.store

/-! ### Without sets -/

def NoSets (s : Store) : Prop := ∀ key m, s key ≠ some (.set m)

/-- Over a store without sets none is created, no key gets lost, and only posts write to a key. -/
structure Inert (routes : ι → Route) (s t : Store) : Prop where
  noSets : NoSets t
  present : ∀ key, (s key).isSome = true → (t key).isSome = true
  others : ∀ key, (∀ i item, Posts (routes i) item → item.key ≠ key) → t key = s key

def inert (routes : ι → Route) : Growth Store where
  grows s t := NoSets s → Inert routes s t
  refl _ h := ⟨h, fun _ => id, fun _ _ => rfl⟩
  trans h h' hs := by
    have hst := h hs
    have htu := h' hst.noSets
    exact ⟨htu.noSets, fun key hkey => htu.present key (hst.present key hkey),
      fun key hkey => (htu.others key hkey).trans (hst.others key hkey)⟩

/-- A body without a list of tasks, or with an empty one. -/
def NamesNothing (body : Js) : Prop := (body.prop "tasks").bind Js.iterate = some []

/-- A `DELETE` that answers 200 had nothing to complete. -/
def completing (route : Route) : Promise Response Store where
  pending sent := sent = []
  done sent _ := ∀ user body, route = .api (.deleteWatch user body) →
    ⟨200, "Your tasks are registered to be completed."⟩ ∈ sent → NamesNothing body

theorem inert_posted (h : Posts (routes i) item) (hs : NoSets s) : Inert routes s (posted s item) := by
  refine ⟨fun key m hm => ?_, fun key hkey => ?_, fun key hkey => posted_of_ne (hkey i item h).symm⟩
  · by_cases hk : key = item.key
    · subst hk
      rw [posted, Store.setFields, Function.update_self] at hm
      cases hm
    · rw [posted_of_ne hk] at hm
      exact hs key m hm
  · by_cases hk : key = item.key
    · subst hk
      rw [posted, Store.setFields, Function.update_self]
      rfl
    · rwa [posted_of_ne hk]

/-- The loop over the items of a user whose key holds no set: already the first command fails. -/
theorem safe_loop_of_not_set {user : String} {body : Js} {items : List Js} (hs : NoSets s)
    (huser : (s user).isSome = true) (hitems : items = [] → NamesNothing body) :
    (Delete.loop user items).Safe (Redis.attempt redis) (inert routes)
      (completing (.api (.deleteWatch user body))) [] s := by
  cases items with
  | nil =>
    refine safe_reply fun _ _ user' body' hroute _ => ?_
    cases hroute
    exact hitems rfl
  | cons item rest =>
    rw [Delete.loop_cons]
    intro task
    refine safe_query (by simp) rfl rfl rfl fun t ht found hfound => ?_
    have hinert : Inert routes s t := ht hs
    have hset : ¬t.IsSet user := fun h => by
      obtain ⟨v, hv⟩ := Option.isSome_iff_exists.mp (hinert.present user huser)
      obtain ⟨m, rfl⟩ := h v hv
      exact hinert.noSets user m hv
    rw [Redis.exec_sIsMember_of_not_isSet hset] at hfound
    cases hfound

theorem safe_completing (i : ι) (hs : NoSets s) :
    (routes i).handler.Safe (Redis.attempt redis) (inert routes) (completing (routes i)) [] s := by
  have other : (∀ user body, routes i ≠ .api (.deleteWatch user body)) → ∀ sent t,
      (completing (routes i)).done sent t := fun h _ _ user body hroute => absurd hroute (h user body)
  cases hroute : routes i with
  | getHome => exact safe_reply fun t _ => hroute ▸ other (by simp [hroute]) _ t
  | postHome body => exact safe_reply fun t _ => hroute ▸ other (by simp [hroute]) _ t
  | getCompleted => exact safe_getCompletedTodos rfl fun t => hroute ▸ other (by simp [hroute]) _ t
  | api request =>
    cases request with
    | postNew body =>
      exact safe_postUsersTodos rfl (fun item h t _ => inert_posted ⟨body, hroute, h⟩)
        fun _ _ _ u _ _ => hroute ▸ other (by simp [hroute]) _ u
    | getWatch user => exact safe_getUserTasks rfl
    | deleteWatch user body =>
      refine safe_deleteUserTasks rfl (fun _ _ _ _ hmem => by simp at hmem) fun tasks items t htasks hitems ht huser => ?_
      refine safe_loop_of_not_set (ht hs).noSets huser fun hnil => ?_
      rw [NamesNothing, htasks, Option.bind_some, hitems, hnil]

/-- No set ever exists, a key to which no request posts keeps its value, and a `DELETE` that answers 200 had
    nothing to complete. -/
structure CompletesNothing (s₀ : Store) (routes : ι → Route) (w : Server ι) : Prop where
  noSets : NoSets w.store
  others : ∀ key, (∀ i item, Posts (routes i) item → item.key ≠ key) → w.store key = s₀ key
  deletes : ∀ i user body, routes i = .api (.deleteWatch user body) →
    ⟨200, "Your tasks are registered to be completed."⟩ ∈ w.out i → NamesNothing body

end Kept

end Server

open Async Server

/-- In any run of the server no step loses a field of a hash or writes anything that was not posted, and a post that
    was answered has its field, with its own entry or the entry of another post of the same task. -/
theorem server_keepsTodos {ι : Type} [DecidableEq ι] (redis : NodeRedis) (s₀ : Store) (routes : ι → Route)
    (acts : List (Act ι Outcome)) :
    Runs.Always (Server.step redis)
      (fun w => TodosKept s₀ routes w ∧ ∀ a w', Server.step redis w a = some w' → Keeps routes w.store w'.store)
      (waiting s₀ routes) acts := by
  have hsafe : (waiting s₀ routes).Safe (Redis.attempt redis) (keeping routes) (storing routes) s₀ :=
    ⟨fun i => ⟨rfl, safe_storing i⟩, (keeping routes).refl s₀⟩
  refine hsafe.always.imp fun w hw => ⟨⟨hw.grown, fun i item hposts hout => ?_⟩, fun a w' hs => (hw.act hs).2⟩
  have hi := hw.procs i
  by_cases hp : w.procs i = .fulfilled
  · rw [hp] at hi
    exact hi.done item hposts
  · exact absurd (hi.pending hp) hout

/-- In any run of the server over a Redis without sets no `DELETE` completes anything. -/
theorem server_completesNothing {ι : Type} [DecidableEq ι] (redis : NodeRedis) (s₀ : Store) (routes : ι → Route)
    (hs : NoSets s₀) (acts : List (Act ι Outcome)) :
    Runs.Always (Server.step redis) (CompletesNothing s₀ routes) (waiting s₀ routes) acts := by
  have hsafe : (waiting s₀ routes).Safe (Redis.attempt redis) (inert routes) (fun i => completing (routes i)) s₀ :=
    ⟨fun i => ⟨rfl, safe_completing i hs⟩, (inert routes).refl s₀⟩
  refine hsafe.always.imp fun w hw => ?_
  have hinert : Inert routes s₀ w.store := hw.grown hs
  refine ⟨hinert.noSets, hinert.others, fun i user body hroute hout => ?_⟩
  have hi := hw.procs i
  by_cases hp : w.procs i = .fulfilled
  · rw [hp] at hi
    exact hi.done user body hroute hout
  · have hnil : w.out i = [] := hi.pending hp
    rw [hnil] at hout
    cases hout

def milkForAnn : Todo := ⟨"Ann", "Buy milk", "STORE", "REST", "HIGH"⟩

def postThenDelete : Bool → Route
  | true => .api (.postNew milkForAnn.body)
  | false => .api (.deleteWatch "team4" (tasksBody ["Buy milk"]))

def inTurn : List (Act Bool Outcome) := List.replicate 9 (.go true .answered) ++ List.replicate 7 (.go false .answered)

/-- A todo is posted, and the `DELETE` that names it is left by an exception. -/
theorem server_completesNothing_posted : ∃ w,
    Runs.run (Server.step nodeRedis) (waiting (fun _ => none) postThenDelete) inTurn = some w ∧
      CompletesNothing (fun _ => none) postThenDelete w ∧ (w.procs false).ended = true ∧ w.out false = [] ∧
      w.store.fields "team4" "Buy milk" = some milkForAnn.entry.value := by
  have hall := server_completesNothing nodeRedis (fun _ => none) postThenDelete (fun _ _ h => by cases h) inTurn
  have hrun : (Runs.run (Server.step nodeRedis) (waiting (fun _ => none) postThenDelete) inTurn).any
      (fun w => (w.procs false).ended && w.out false == [] &&
        w.store.fields "team4" "Buy milk" == some milkForAnn.entry.value) = true := by decide +kernel
  obtain ⟨w, hw, hcheck⟩ := (Option.any_eq_true _ _).mp hrun
  simp only [Bool.and_eq_true, beq_iff_eq] at hcheck
  exact ⟨w, hw, hall.last hw, hcheck.1.1, hcheck.1.2, hcheck.2⟩

end TodoWatch
