import TodoWatch.Theorems.PostAlone

/-! # Concurrent posts

Any number of `POST /echo/new` requests over one Redis. A handler asks whether its key exists and writes later,
so another one can create the key in between; but both branches write the same field. The log of the executed
commands says whose write was the last one. -/

namespace TodoWatch

/-- The command writes the field of the hash under the key. -/
def Command.writes (key field : String) : Command → Bool
  | .hSet (.str k) (.str t) _ => k == key && t == field
  | _ => false

/-- The program whose write to the field was executed last. -/
def lastWriter {ι : Type} (log : List (ι × Command)) (key field : String) : Option ι :=
  (log.reverse.find? fun x => x.2.writes key field).map Prod.fst

theorem lastWriter_append {ι : Type} {log : List (ι × Command)} {i : ι} {c : Command} {key field : String} :
    lastWriter (log ++ [(i, c)]) key field = if c.writes key field then some i else lastWriter log key field := by
  unfold lastWriter
  rw [List.reverse_append, List.reverse_singleton, List.singleton_append, List.find?_cons]
  cases c.writes key field <;> rfl

namespace Post
open Async

/-! ### Points -/

/-- Where a handler stands. -/
inductive Point where
  | start
  | connecting
  | connected
  | checking
  | checked (n : Nat)
  | writing
  | wrote (n : Nat)
  | reading
  | read (fields : String → Option String)
  | finished

namespace Point

def proc (todo : Todo) : Point → Proc Js Command Command.Reply Response
  | start => .idle (postUsersTodos todo.body)
  | connecting => .sent .getConnection (afterConnection todo.body)
  | connected => .answered .getConnection (some (some ())) (afterConnection todo.body)
  | checking => .sent (.exists (.str todo.entry.key)) (afterExists todo.entry)
  | checked n => .answered (.exists (.str todo.entry.key)) (some n) (afterExists todo.entry)
  | writing => .sent (.hSet (.str todo.entry.key) (.str todo.entry.field) (.str todo.entry.value)) (afterSet todo.entry)
  | wrote n => .answered (.hSet (.str todo.entry.key) (.str todo.entry.field) (.str todo.entry.value)) (some n)
      (afterSet todo.entry)
  | reading => .sent (.hGetAll (.str todo.entry.key)) afterGetAll
  | read fields => .answered (.hGetAll (.str todo.entry.key)) (some fields) afterGetAll
  | finished => .fulfilled

/-- The handler has written its entry. -/
def hasWritten : Point → Bool
  | wrote _ => true
  | reading => true
  | read _ => true
  | finished => true
  | _ => false

end Point

/-! ### Steps -/

/-- One step: the handler moves on, and nothing is written. -/
structure Moves {ι : Type} (p p' : Point) (s s' : Store) (log log' : List (ι × Command)) : Prop where
  store : s' = s
  log : ∀ key field, lastWriter log' key field = lastWriter log key field
  hasWritten : p'.hasWritten = p.hasWritten

/-- One step: the handler writes its entry. -/
structure Writes {ι : Type} (i : ι) (entry : HashEntry) (p' : Point) (s s' : Store) (log log' : List (ι × Command)) :
    Prop where
  store : s' = posted s entry
  log : log' = log ++ [(i, .hSet (.str entry.key) (.str entry.field) (.str entry.value))]
  hasWritten : p'.hasWritten = true

section Step
variable {ι : Type} [DecidableEq ι] {redis : NodeRedis} {w w' : Delete.Handlers ι} {log log' : List (ι × Command)}
  {i : ι} {todo : Todo} {p : Point}

theorem step_cases (hp : w.procs i = p.proc todo) (hhash : w.store.IsHash todo.entry.key)
    (hs : Pool.logStep (Redis.exec redis) (w, log) i = some (w', log')) :
    ∃ p', w'.procs = Function.update w.procs i (p'.proc todo) ∧
      (Moves p p' w.store w'.store log log' ∨ Writes i todo.entry p' w.store w'.store log log') := by
  unfold Pool.logStep at hs
  obtain ⟨w'', hstep, heq⟩ := Option.map_eq_some_iff.mp hs
  obtain ⟨rfl, rfl⟩ := Prod.mk.inj heq
  unfold Pool.step at hstep
  unfold Pool.executes
  rw [hp] at hstep
  simp only [hp]
  have silent : ∀ key field, lastWriter (log ++ []) key field = lastWriter log key field :=
    fun _ _ => congrArg (lastWriter · _ _) (List.append_nil log)
  cases p with
  | start =>
    cases hstep
    refine ⟨.connecting, ?_, Or.inl ⟨rfl, silent, rfl⟩⟩
    rw [postUsersTodos_eq]
    rfl
  | connecting =>
    cases hstep
    exact ⟨.connected, rfl, Or.inl ⟨rfl, fun _ _ => lastWriter_append, rfl⟩⟩
  | connected =>
    simp only [Point.proc, afterConnection, todoItemOf_body] at hstep
    cases hstep
    exact ⟨.checking, rfl, Or.inl ⟨rfl, silent, rfl⟩⟩
  | checking =>
    simp only [Point.proc, Redis.exec_exists] at hstep
    cases hstep
    exact ⟨.checked _, rfl, Or.inl ⟨rfl, fun _ _ => lastWriter_append, rfl⟩⟩
  | checked n =>
    cases hstep
    exact ⟨.writing, rfl, Or.inl ⟨rfl, silent, rfl⟩⟩
  | writing =>
    simp only [Point.proc, Redis.exec_hSet hhash] at hstep
    cases hstep
    exact ⟨.wrote _, rfl, Or.inr ⟨rfl, rfl, rfl⟩⟩
  | wrote n =>
    cases hstep
    exact ⟨.reading, rfl, Or.inl ⟨rfl, silent, rfl⟩⟩
  | reading =>
    simp only [Point.proc, Redis.exec_hGetAll hhash] at hstep
    cases hstep
    exact ⟨.read _, rfl, Or.inl ⟨rfl, fun _ _ => lastWriter_append, rfl⟩⟩
  | read fields =>
    cases hstep
    exact ⟨.finished, rfl, Or.inl ⟨rfl, silent, rfl⟩⟩
  | finished => cases hstep

end Step

/-! ### The invariant -/

variable {ι : Type} {s₀ s s' : Store} {todos : ι → Todo} {log log' : List (ι × Command)} {points : ι → Point} {i : ι}
  {p' : Point}

/-- The hashes hold the last writes, and otherwise what they held in `s₀`. -/
structure HoldsLast (s₀ : Store) (todos : ι → Todo) (s : Store) (log : List (ι × Command)) : Prop where
  written : ∀ key field i, lastWriter log key field = some i → (todos i).entry.key = key ∧
    (todos i).entry.field = field ∧ s.fields key field = some (todos i).entry.value
  kept : ∀ key field, lastWriter log key field = none → s.fields key field = s₀.fields key field
  others : ∀ key, (∀ i, (todos i).entry.key ≠ key) → s key = s₀ key

structure Inv (s₀ : Store) (todos : ι → Todo) (points : ι → Point) (s : Store) (log : List (ι × Command)) : Prop where
  hash : ∀ i, s.IsHash (todos i).entry.key
  holds : HoldsLast s₀ todos s log
  logged : ∀ i, (points i).hasWritten = true → lastWriter log (todos i).entry.key (todos i).entry.field ≠ none

theorem Inv.move [DecidableEq ι] (h : Inv s₀ todos points s log) (hm : Moves (points i) p' s s' log log') :
    Inv s₀ todos (Function.update points i p') s' log' := by
  obtain ⟨rfl, hlog, hp⟩ := hm
  refine ⟨h.hash, ⟨?_, ?_, h.holds.others⟩, fun j hj => ?_⟩
  · simpa only [hlog] using h.holds.written
  · simpa only [hlog] using h.holds.kept
  · rw [hlog]
    by_cases hji : j = i
    · subst hji
      rw [Function.update_self, hp] at hj
      exact h.logged j hj
    · rw [Function.update_of_ne hji] at hj
      exact h.logged j hj

theorem writes_hSet {k t key field value : String} :
    Command.writes key field (.hSet (.str k) (.str t) (.str value)) = true ↔ key = k ∧ field = t := by
  rw [Command.writes, Bool.and_eq_true, beq_iff_eq, beq_iff_eq]
  exact and_congr eq_comm eq_comm

theorem Inv.write [DecidableEq ι] (h : Inv s₀ todos points s log)
    (hw : Writes i (todos i).entry p' s s' log log') : Inv s₀ todos (Function.update points i p') s' log' := by
  obtain ⟨rfl, rfl, -⟩ := hw
  refine ⟨fun j => isHash_posted (h.hash j), ⟨fun key field j hj => ?_, fun key field hnone => ?_, fun key hkey => ?_⟩,
    fun j hj => ?_⟩
  · rw [lastWriter_append] at hj
    rw [fields_posted]
    split at hj
    · rename_i hwrites
      obtain ⟨hkey, hfield⟩ := writes_hSet.mp hwrites
      obtain rfl := Option.some.inj hj
      exact ⟨hkey.symm, hfield.symm, if_pos ⟨hkey, hfield⟩⟩
    · rename_i hwrites
      rw [if_neg fun heq => hwrites (writes_hSet.mpr heq)]
      exact h.holds.written key field j hj
  · rw [lastWriter_append] at hnone
    rw [fields_posted]
    split at hnone
    · cases hnone
    · rename_i hwrites
      rw [if_neg fun heq => hwrites (writes_hSet.mpr heq)]
      exact h.holds.kept key field hnone
  · rw [posted_of_ne (hkey i).symm]
    exact h.holds.others key hkey
  · rw [lastWriter_append]
    split
    · exact Option.some_ne_none i
    · rename_i hwrites
      by_cases hji : j = i
      · subst hji
        exact absurd (writes_hSet.mpr ⟨rfl, rfl⟩) hwrites
      · rw [Function.update_of_ne hji] at hj
        exact h.logged j hj

/-! ### Runs -/

def waiting (s₀ : Store) (todos : ι → Todo) (task : Js) : Delete.Handlers ι where
  store := s₀
  shared := task
  procs i := .idle (postUsersTodos (todos i).body)
  out _ := []

/-- Every handler stands at a point of its request, and the invariant holds of the points. -/
def PoolInv (s₀ : Store) (todos : ι → Todo) (x : Delete.Handlers ι × List (ι × Command)) : Prop :=
  ∃ points : ι → Point, (∀ i, x.1.procs i = (points i).proc (todos i)) ∧ Inv s₀ todos points x.1.store x.2

theorem poolInv_waiting {task : Js} (h : ∀ i, s₀.IsHash (todos i).entry.key) :
    PoolInv s₀ todos (waiting s₀ todos task, []) :=
  ⟨fun _ => .start, fun _ => rfl, h, ⟨fun _ _ _ hi => (by cases hi), fun _ _ _ => rfl, fun _ _ => rfl⟩,
    fun _ hi => (by cases hi)⟩

theorem PoolInv.step [DecidableEq ι] {redis : NodeRedis} {x x' : Delete.Handlers ι × List (ι × Command)}
    (h : PoolInv s₀ todos x) (hs : Pool.logStep (Redis.exec redis) x i = some x') : PoolInv s₀ todos x' := by
  obtain ⟨points, hprocs, hinv⟩ := h
  obtain ⟨p', hprocs', hcases⟩ := step_cases (hprocs i) (hinv.hash i) hs
  refine ⟨Function.update points i p', fun j => ?_, ?_⟩
  · rw [hprocs']
    by_cases hj : j = i
    · subst hj
      simp
    · simpa [hj] using hprocs j
  · rcases hcases with hm | hw
    · exact hinv.move hm
    · exact hinv.write hw

theorem eq_finished {todo : Todo} {p : Point} (h : (p.proc todo).ended = true) : p = .finished := by
  cases p <;> first | rfl | cases h

/-- What the posts leave in the store: under each field that one of them names the entry of the request that wrote
    it last, and everywhere else what `s₀` had. -/
structure LastWins (s₀ : Store) (todos : ι → Todo) (s : Store) (log : List (ι × Command)) : Prop where
  hash : ∀ i, s.IsHash (todos i).entry.key
  named : ∀ i, ∃ j, lastWriter log (todos i).entry.key (todos i).entry.field = some j ∧
    (todos j).entry.key = (todos i).entry.key ∧ (todos j).entry.field = (todos i).entry.field ∧
    s.fields (todos i).entry.key (todos i).entry.field = some (todos j).entry.value
  fields : ∀ key field, (∀ i, (todos i).entry.key = key → (todos i).entry.field ≠ field) →
    s.fields key field = s₀.fields key field
  others : ∀ key, (∀ i, (todos i).entry.key ≠ key) → s key = s₀ key

theorem PoolInv.lastWins {x : Delete.Handlers ι × List (ι × Command)} (h : PoolInv s₀ todos x) (hfin : x.1.Finished) :
    LastWins s₀ todos x.1.store x.2 := by
  obtain ⟨points, hprocs, hinv⟩ := h
  refine ⟨hinv.hash, fun i => ?_, fun key field hno => ?_, hinv.holds.others⟩
  · have hpoint : points i = .finished := eq_finished (by rw [← hprocs i]; exact hfin i)
    obtain ⟨j, hj⟩ := Option.ne_none_iff_exists'.mp (hinv.logged i (by rw [hpoint]; rfl))
    exact ⟨j, hj, hinv.holds.written _ _ j hj⟩
  · cases hlast : lastWriter x.2 key field with
    | none => exact hinv.holds.kept key field hlast
    | some j =>
      obtain ⟨hkey, hfield, -⟩ := hinv.holds.written key field j hlast
      exact absurd hfield (hno j hkey)

theorem key_entry (todo : Todo) : todo.entry.key = "123" ∨ todo.entry.key = "team4" := by
  unfold Todo.entry todoItem
  split
  · exact Or.inl rfl
  · exact Or.inr rfl

end Post

open Async Post

/-- However the commands of any number of posts interleave, once all handlers have ended each field that a post
    names holds the entry that was written last, and nothing else has changed. -/
theorem postUsersTodos_lastWins {ι : Type} [DecidableEq ι] (redis : NodeRedis) (s₀ : Store) (todos : ι → Todo)
    (h123 : s₀.IsHash "123") (hteam : s₀.IsHash "team4") (task : Js) (schedule : List ι) :
    Runs.Always (Pool.logStep (Redis.exec redis)) (fun x => x.1.Finished → LastWins s₀ todos x.1.store x.2)
      (waiting s₀ todos task, []) schedule := by
  have hhash : ∀ i, s₀.IsHash (todos i).entry.key := fun i => by
    rcases key_entry (todos i) with h | h
    · rw [h]
      exact h123
    · rw [h]
      exact hteam
  exact (Runs.always_of_inv (fun _ _ _ h _ hs => PoolInv.step h hs) (poolInv_waiting hhash) Runs.meets_true).imp
    fun _ h => h.lastWins

def sameTask : Bool → Todo
  | true => ⟨"Ann", "Buy milk", "STORE", "REST", "HIGH"⟩
  | false => ⟨"Bob", "Buy milk", "STORE", "WORKING", "LOW"⟩

/-- Both handlers find no key; then Bob's writes first, and Ann's entry stays. -/
theorem postUsersTodos_lastWins_same_task : ∃ w log,
    Runs.run (Pool.logStep (Redis.exec nodeRedis)) (waiting (fun _ => none) sameTask .undefined, [])
        (List.replicate 5 true ++ List.replicate 6 false ++ List.replicate 4 true ++ List.replicate 3 false) =
      some (w, log) ∧ w.Finished ∧ LastWins (fun _ => none) sameTask w.store log ∧
      w.store.fields "team4" "Buy milk" = some (sameTask true).entry.value := by
  have hall := postUsersTodos_lastWins nodeRedis (fun _ => none) sameTask (fun _ h => (by cases h))
    (fun _ h => (by cases h)) .undefined
    (List.replicate 5 true ++ List.replicate 6 false ++ List.replicate 4 true ++ List.replicate 3 false)
  have hrun : (Runs.run (Pool.logStep (Redis.exec nodeRedis)) (waiting (fun _ => none) sameTask .undefined, [])
      (List.replicate 5 true ++ List.replicate 6 false ++ List.replicate 4 true ++ List.replicate 3 false)).any
      (fun x => (x.1.procs true).ended && (x.1.procs false).ended &&
        lastWriter x.2 "team4" "Buy milk" == some true) = true := by decide +kernel
  obtain ⟨⟨w, log⟩, hw, hcheck⟩ := (Option.any_eq_true _ _).mp hrun
  simp only [Bool.and_eq_true, beq_iff_eq] at hcheck
  obtain ⟨⟨htrue, hfalse⟩, hlast⟩ := hcheck
  have hfin : w.Finished := fun i => by
    cases i
    · exact hfalse
    · exact htrue
  have hwins : LastWins (fun _ => none) sameTask w.store log := hall.last hw hfin
  refine ⟨w, log, hw, hfin, hwins, ?_⟩
  obtain ⟨j, hj, -, -, hfield⟩ := hwins.named true
  obtain rfl := Option.some.inj (hlast.symm.trans hj)
  exact hfield

end TodoWatch
