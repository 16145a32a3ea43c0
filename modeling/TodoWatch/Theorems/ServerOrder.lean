import TodoWatch.Theorems.ServedInTurn

/-! # Requests of all routes come to one after the other

Any number of posts, completions and requests that only read, interleaved over one Redis. The posts and the completions
each stand where they stand without the others. Posts of one task replace each other, so the order that counts is that
of their writes. -/

namespace TodoWatch
namespace Server
open Async Delete
open Post (posted)

variable {P D R : Type} {redis : NodeRedis} {s₀ s : Store} {todos : P → Todo} {reqs : D → DeleteRequest}
  {reads : R → Route}

/-! ### Steps -/

def writesHash : Command → Bool
  | .hSet _ _ _ => true
  | _ => false

/-- The posts that have written, in the order of their writes. -/
def posters (log : List ((P ⊕ D ⊕ R) × Command)) : List P :=
  (log.filter fun x => writesHash x.2).filterMap fun x => post? x.1

/-- Only the write of a post counts. -/
theorem posters_append {log : List ((P ⊕ D ⊕ R) × Command)} {c : Option Command} {i : P ⊕ D ⊕ R} :
    posters (log ++ c.toList.map (i, ·)) = posters log ++
      if c.any writesHash = true then (post? i).toList else [] := by
  unfold posters
  rw [List.filter_append, List.filterMap_append]
  cases c with
  | none => simp
  | some c =>
    cases hwrites : writesHash c with
    | false => simp [hwrites]
    | true =>
      cases hpost : post? i <;> simp [hwrites, hpost]

theorem posters_append_of_not_post {log : List ((P ⊕ D ⊕ R) × Command)} {c : Option Command} {i : P ⊕ D ⊕ R}
    (h : post? i = none) : posters (log ++ c.toList.map (i, ·)) = posters log := by
  rw [posters_append, h]
  split <;> exact List.append_nil _

section Step
variable {ι : Type} [DecidableEq ι] {w w' : Handlers ι} {i : ι} {todo : Todo} {point : Post.Point}

/-- One step of a post: its handler keeps the store, or writes its entry. -/
theorem post_step (hp : w.procs i = point.proc todo) (hhash : w.store.IsHash todo.entry.key)
    (hs : w.step (Redis.exec redis) i = some w') :
    ∃ point' : Post.Point, w'.procs = Function.update w.procs i (point'.proc todo) ∧
      ((w'.store = w.store ∧ point'.hasWritten = point.hasWritten ∧ (w.executes i).any writesHash = false) ∨
        (w'.store = posted w.store todo.entry ∧ point.hasWritten = false ∧ point'.hasWritten = true ∧
          (w.executes i).any writesHash = true)) := by
  have hlog : Pool.logStep (Redis.exec redis) (w, []) i = some (w', (w.executes i).toList.map (i, ·)) := by
    rw [Pool.logStep, hs]
    rfl
  obtain ⟨point', hprocs, hmoves | hwrites⟩ := Post.step_cases hp hhash hlog
  · refine ⟨point', hprocs, Or.inl ⟨hmoves.store, hmoves.hasWritten, ?_⟩⟩
    have hlast := hmoves.log todo.entry.key todo.entry.field
    rw [Pool.executes, hp] at hlast ⊢
    cases point with
    | writing =>
      -- The log would have the write.
      have hwriter : lastWriter
          ([] ++ [(i, .hSet (.str todo.entry.key) (.str todo.entry.field) (.str todo.entry.value))])
          todo.entry.key todo.entry.field = some i := by
        rw [lastWriter_append, if_pos (Post.writes_hSet.mpr ⟨rfl, rfl⟩)]
      cases hwriter.symm.trans hlast
    | _ => rfl
  · have hexecutes : w.executes i =
        some (.hSet (.str todo.entry.key) (.str todo.entry.field) (.str todo.entry.value)) := by
      have hwritten := hwrites.log
      cases hc : w.executes i with
      | none =>
        rw [hc] at hwritten
        cases hwritten
      | some c =>
        rw [hc] at hwritten
        exact congrArg some (Prod.mk.inj (List.cons.inj hwritten).1).2
    refine ⟨point', hprocs, Or.inr ⟨hwrites.store, ?_, hwrites.hasWritten, by rw [hexecutes]; rfl⟩⟩
    rw [Pool.executes, hp] at hexecutes
    cases point with
    | reading | wrote | read | finished => cases hexecutes
    | _ => rfl

end Step

/-! ### Interleaved -/

/-- Where the handlers stand. Those of posts and of requests that read are quiet. -/
structure Standing (todos : P → Todo) (reqs : D → DeleteRequest) (posting : P → Post.Point) (deleting : D → Point)
    (w : Handlers (P ⊕ D ⊕ R)) : Prop where
  posts : ∀ p, w.procs (.inl p) = (posting p).proc (todos p)
  deletes : ∀ d, w.procs (.inr (.inl d)) = (deleting d).proc (reqs d).user (reqs d).tasks
  quiet : ∀ p, (w.procs (.inl p)).Quiet fun _ => True
  reads : ∀ r, (w.procs (.inr (.inr r))).Quiet fun c => c.reads = true
  text : HasText w.shared

/-- What the handlers have done: over the store with the entries posted so far, the completions stand as they do
    without posts. -/
structure Progress (s₀ : Store) (todos : P → Todo) (reqs : D → DeleteRequest) (posting : P → Post.Point)
    (deleting : D → Point) (s : Store) (posts : List P) : Prop where
  written : ∀ p, p ∈ posts ↔ (posting p).hasWritten = true
  nodup : posts.Nodup
  inv : Inv (postedInTurn s₀ todos posts) reqs deleting s
  moved : Moved (postedInTurn s₀ todos posts) reqs deleting s

section Steps
variable {posting : P → Post.Point} {deleting : D → Point} {w w' : Handlers (P ⊕ D ⊕ R)} {posts : List P} {p : P}
  {d : D} {r : R} {point : Post.Point} {point' : Point}

/-- The hashes that the posts write to are as the posts have made them. -/
theorem Progress.isHash (h : Progress s₀ todos reqs posting deleting s posts) (hapart : Apart s₀ todos reqs) (p : P) :
    s.IsHash (todos p).entry.key :=
  (isHash_postedInTurn (hapart.hash p)).congr
    (h.moved.others _ (key_ne_completed _) fun d hd => absurd hd (hapart.user d p))

theorem Standing.read (h : Standing todos reqs posting deleting w)
    (hprocs : ∀ j, j ≠ .inr (.inr r) → w'.procs j = w.procs j)
    (hreads : (w'.procs (.inr (.inr r))).Quiet fun c => c.reads = true) (hshared : w'.shared = w.shared) :
    Standing todos reqs posting deleting w' where
  posts p := by rw [hprocs _ (by simp), h.posts p]
  deletes d := by rw [hprocs _ (by simp), h.deletes d]
  quiet p := by
    rw [hprocs _ (by simp)]
    exact h.quiet p
  reads q := by
    by_cases hq : q = r
    · exact hq ▸ hreads
    · rw [hprocs _ (by simpa using hq)]
      exact h.reads q
  text := hshared ▸ h.text

/-- `Standing` and `Progress` at some points. -/
def PoolInv (s₀ : Store) (todos : P → Todo) (reqs : D → DeleteRequest)
    (x : Handlers (P ⊕ D ⊕ R) × List ((P ⊕ D ⊕ R) × Command)) : Prop :=
  ∃ posting deleting, Standing todos reqs posting deleting x.1 ∧
    Progress s₀ todos reqs posting deleting x.1.store (posters x.2)

variable {x x' : Handlers (P ⊕ D ⊕ R) × List ((P ⊕ D ⊕ R) × Command)} {i : P ⊕ D ⊕ R}

/-- The completions alone, as the pool has them. -/
def completions (w : Handlers (P ⊕ D ⊕ R)) : Handlers D where
  store := w.store
  shared := w.shared
  procs d := w.procs (.inr (.inl d))
  out d := w.out (.inr (.inl d))

theorem PoolInv.completesNamed (h : PoolInv s₀ todos reqs x) (hfin : x.1.Finished) {order : List D}
    (hall : ∀ d, d ∈ order) :
    CompletesNamed (NamedBy reqs order) (postedInTurn s₀ todos (posters x.2)) x.1.store := by
  obtain ⟨posting, deleting, hstanding, hprogress⟩ := h
  have hmoved : MovedInv (postedInTurn s₀ todos (posters x.2)) reqs (completions x.1) :=
    ⟨deleting, hstanding.deletes, hstanding.text, hprogress.inv, hprogress.moved⟩
  exact hmoved.completesNamed (fun d => hfin (.inr (.inl d))) hall

theorem PoolInv.posted (h : PoolInv s₀ todos reqs x) (hfin : x.1.Finished) :
    (posters x.2).Nodup ∧ ∀ p, p ∈ posters x.2 := by
  obtain ⟨posting, deleting, hstanding, hprogress⟩ := h
  refine ⟨hprogress.nodup, fun p => ?_⟩
  have hpoint : posting p = .finished := Post.eq_finished (by rw [← hstanding.posts p]; exact hfin (.inl p))
  rw [hprogress.written, hpoint]
  rfl

variable [DecidableEq P]

theorem Progress.keep (h : Progress s₀ todos reqs posting deleting s posts)
    (hpoint : point.hasWritten = (posting p).hasWritten) :
    Progress s₀ todos reqs (Function.update posting p point) deleting s posts where
  written q := by
    rw [h.written]
    by_cases hq : q = p
    · subst hq
      rw [Function.update_self, hpoint]
    · rw [Function.update_of_ne hq]
  nodup := h.nodup
  inv := h.inv
  moved := h.moved

theorem Progress.write (h : Progress s₀ todos reqs posting deleting s posts) (hapart : Apart s₀ todos reqs)
    (hbefore : (posting p).hasWritten = false) (hpoint : point.hasWritten = true) :
    Progress s₀ todos reqs (Function.update posting p point) deleting (posted s (todos p).entry) (posts ++ [p]) where
  written q := by
    by_cases hq : q = p
    · subst hq
      simp [hpoint]
    · simpa [hq] using h.written q
  nodup := by
    refine List.nodup_append'.mpr ⟨h.nodup, List.nodup_singleton p, fun q hq hqp => ?_⟩
    rw [List.mem_singleton.mp hqp, h.written, hbefore] at hq
    cases hq
  inv := by
    rw [postedInTurn_concat]
    exact h.inv.posted (isHash_postedInTurn (hapart.hash p)) (h.isHash hapart p) (key_ne_completed _)
      fun d => hapart.user d p
  moved := by
    rw [postedInTurn_concat]
    exact h.moved.posted (isHash_postedInTurn (hapart.hash p)) (h.isHash hapart p) (key_ne_completed _)
      fun d => hapart.user d p

variable [DecidableEq D] [DecidableEq R]

theorem Standing.post (h : Standing todos reqs posting deleting w)
    (hprocs : w'.procs = Function.update w.procs (.inl p) (point.proc (todos p)))
    (hquiet : (w'.procs (.inl p)).Quiet fun _ => True) (hshared : w'.shared = w.shared) :
    Standing todos reqs (Function.update posting p point) deleting w' where
  posts q := by
    rw [hprocs]
    by_cases hq : q = p
    · subst hq
      simp
    · simpa [hq] using h.posts q
  deletes d := by simpa [hprocs] using h.deletes d
  quiet q := by
    by_cases hq : q = p
    · exact hq ▸ hquiet
    · simpa [hprocs, hq] using h.quiet q
  reads r := by simpa [hprocs] using h.reads r
  text := hshared ▸ h.text

theorem Standing.delete (h : Standing todos reqs posting deleting w)
    (hprocs : w'.procs = Function.update w.procs (.inr (.inl d)) (point'.proc (reqs d).user (reqs d).tasks))
    (htext : HasText w'.shared) : Standing todos reqs posting (Function.update deleting d point') w' where
  posts p := by simpa [hprocs] using h.posts p
  deletes e := by
    rw [hprocs]
    by_cases he : e = d
    · subst he
      simp
    · simpa [he] using h.deletes e
  quiet p := by simpa [hprocs] using h.quiet p
  reads r := by simpa [hprocs] using h.reads r
  text := htext

theorem PoolInv.step (h : PoolInv s₀ todos reqs x) (hapart : Apart s₀ todos reqs)
    (hsteady : steady (x.1.procs i) x.1.shared = true) (hs : Pool.logStep (Redis.exec redis) x i = some x') :
    PoolInv s₀ todos reqs x' := by
  obtain ⟨posting, deleting, hstanding, hprogress⟩ := h
  obtain ⟨hstep, hlog⟩ := Pool.logStep_eq_some hs
  rcases i with p | d | r
  · obtain ⟨point, hprocs, hcases⟩ := post_step (hstanding.posts p) (hprogress.isHash hapart p) hstep
    obtain ⟨hquiet, hshared, -⟩ := Pool.step_quiet (hstanding.quiet p) hstep
    refine ⟨Function.update posting p point, deleting, hstanding.post hprocs hquiet hshared, ?_⟩
    rw [hlog, posters_append]
    rcases hcases with ⟨hstore, hpoint, hno⟩ | ⟨hstore, hbefore, hpoint, hwrites⟩
    · rw [hstore, if_neg (by simp [hno]), List.append_nil]
      exact hprogress.keep hpoint
    · rw [hstore, if_pos hwrites]
      exact hprogress.write hapart hbefore hpoint
  · obtain ⟨point, hnext, hprocs, htext⟩ := step_next (hstanding.deletes d) hsteady hstanding.text
      (hprogress.inv.users d) hprogress.inv.completed hstep
    refine ⟨posting, Function.update deleting d point, hstanding.delete hprocs htext, ?_⟩
    rw [hlog, posters_append_of_not_post rfl]
    exact ⟨hprogress.written, hprogress.nodup, hprogress.inv.next hapart.completed hnext,
      hprogress.moved.next hprogress.inv hapart.completed hnext⟩
  · obtain ⟨hreads, hshared, hstore⟩ := Pool.step_quiet (hstanding.reads r) hstep
    refine ⟨posting, deleting, hstanding.read (fun j hj => Pool.procs_of_ne hj hstep) hreads hshared, ?_⟩
    have hsame : x'.1.store = x.1.store := by
      rcases hstore with hsame | ⟨c, hc, hexec⟩
      · exact hsame
      · exact hexec.trans ((Redis.exec_effect c).eq_of_reads hc)
    rw [hlog, posters_append_of_not_post rfl, hsame]
    exact hprogress

end Steps

theorem poolInv_waiting (huser : ∀ d, s₀.IsSet (reqs d).user) (hdone : s₀.IsSet "completed")
    (hreads : ∀ r, (reads r).reads = true) :
    PoolInv s₀ todos reqs (waiting s₀ (routes todos reqs reads), []) := by
  obtain ⟨deleting, hprocs, htext, hinv, hmoved⟩ := movedInv_waiting huser hdone
  refine ⟨fun _ => .start, deleting, ⟨fun _ => rfl, hprocs, fun p => quiet_postUsersTodos _, fun r => ?_, htext⟩,
    ⟨fun p => ?_, List.nodup_nil, hinv, hmoved⟩⟩
  · exact quiet_reads (hreads r)
  · exact iff_of_false List.not_mem_nil Bool.false_ne_true

end Server

open Async Delete Server

/-- Over a Redis in which the posts write to hashes and the completions name sets, requests of all routes leave, once
    all have ended, what they leave when they are served one at a time, in any order in which the posts come in the
    order of their writes. Each post writes once. -/
theorem server_serializable {P D R : Type} [DecidableEq P] [DecidableEq D] [DecidableEq R] (redis : NodeRedis)
    (s₀ : Store) (todos : P → Todo) (reqs : D → DeleteRequest) (reads : R → Route) (h123 : s₀.IsHash "123")
    (hteam : s₀.IsHash "team4") (huser : ∀ d, s₀.IsSet (reqs d).user)
    (hne : ∀ d, (reqs d).user ≠ "123" ∧ (reqs d).user ≠ "team4" ∧ (reqs d).user ≠ "completed")
    (hdone : s₀.IsSet "completed") (hreads : ∀ r, (reads r).reads = true) (schedule : List (P ⊕ D ⊕ R))
    (steady : Runs.Meets (Pool.logStep (Redis.exec redis)) (fun x i => steady (x.1.procs i) x.1.shared = true)
      (Server.waiting s₀ (Server.routes todos reqs reads), []) schedule) :
    Runs.Always (Pool.logStep (Redis.exec redis)) (fun x => x.1.Finished →
      (posters x.2).Nodup ∧ (∀ p, p ∈ posters x.2) ∧
      ∀ order : List (P ⊕ D ⊕ R), (∀ d, .inr (.inl d) ∈ order) → order.filterMap post? = posters x.2 →
        x.1.store = Server.servedInTurn redis s₀ (Server.routes todos reqs reads) order)
      (Server.waiting s₀ (Server.routes todos reqs reads), []) schedule := by
  have hapart : Apart s₀ todos reqs := by
    refine ⟨fun p => ?_, fun d p => ?_, fun d => (hne d).2.2⟩
    · rcases Post.key_entry (todos p) with h | h
      · exact h ▸ h123
      · exact h ▸ hteam
    · rcases Post.key_entry (todos p) with h | h
      · exact h ▸ (hne d).1
      · exact h ▸ (hne d).2.1
  refine (Runs.always_of_inv (fun _ _ _ h hc hs => PoolInv.step h hapart hc hs)
    (poolInv_waiting huser hdone hreads) steady).imp fun x hx hfin => ?_
  refine ⟨(hx.posted hfin).1, (hx.posted hfin).2, fun order hall hposts => ?_⟩
  have hdeletes : ∀ d, d ∈ order.filterMap delete? := fun d => List.mem_filterMap.mpr ⟨_, hall d, rfl⟩
  refine (hx.completesNamed hfin hdeletes).unique (hposts ▸ completesNamed_inTurn hapart huser hdone hreads order) ?_
    (isSet_postedInTurn hdone fun p => (key_ne_completed _).symm)
  rintro u t ⟨d, -, rfl, -⟩
  exact isSet_postedInTurn (huser d) (hapart.user d)

def milkForUser : Store := Store.setMembers (fun _ => none) "456" {"Buy milk"}

def milkRequest : Unit → DeleteRequest := fun _ => ⟨"456", ["Buy milk"]⟩

/-- A completion around two posts of one task, of which Bob's writes first. -/
def milkSchedule : List (Bool ⊕ Unit ⊕ Unit) :=
  List.replicate 8 (.inr (.inl ())) ++ List.replicate 5 (.inl true) ++ List.replicate 6 (.inl false) ++
    List.replicate 4 (.inl true) ++ List.replicate 3 (.inr (.inl ())) ++ List.replicate 3 (.inr (.inr ())) ++
    List.replicate 3 (.inl false)

theorem server_serializable_milk : ∃ w log,
    Runs.run (Pool.logStep (Redis.exec nodeRedis))
        (Server.waiting milkForUser (Server.routes sameTask milkRequest fun _ => .getCompleted), []) milkSchedule =
      some (w, log) ∧ w.Finished ∧
      w.store = Server.servedInTurn nodeRedis milkForUser (Server.routes sameTask milkRequest fun _ => .getCompleted)
        [.inl false, .inr (.inr ()), .inl true, .inr (.inl ())] := by
  have hall := server_serializable nodeRedis milkForUser sameTask milkRequest (fun _ => .getCompleted)
    (by decide) (by decide) (fun _ => Store.isSet_setMembers_self) (by simp [milkRequest])
    (Store.isSet_of_none (by decide)) (fun _ => rfl) milkSchedule (by decide +kernel)
  have hrun : (Runs.run (Pool.logStep (Redis.exec nodeRedis))
      (Server.waiting milkForUser (Server.routes sameTask milkRequest fun _ => .getCompleted), []) milkSchedule).any
      (fun x => (x.1.procs (.inl true)).ended && (x.1.procs (.inl false)).ended && (x.1.procs (.inr (.inl ()))).ended &&
        (x.1.procs (.inr (.inr ()))).ended && posters x.2 == [false, true]) = true := by decide +kernel
  obtain ⟨⟨w, log⟩, hw, hcheck⟩ := (Option.any_eq_true _ _).mp hrun
  simp only [Bool.and_eq_true, beq_iff_eq] at hcheck
  obtain ⟨⟨⟨⟨htrue, hfalse⟩, hdelete⟩, hread⟩, hposters⟩ := hcheck
  have hfin : w.Finished := by
    rintro ((_ | _) | _ | _)
    · exact hfalse
    · exact htrue
    · exact hdelete
    · exact hread
  exact ⟨w, log, hw, hfin, (hall.last hw hfin).2.2 _ (fun _ => by simp) hposters.symm⟩

end TodoWatch
