import TodoWatch.Theorems.DeleteAlone

/-! # One `POST /echo/new`

What `postUsersTodos` does when any of its commands may fail. The hash `fields` of its key has one field
more afterwards, or a new value of a field. -/

namespace TodoWatch

section Hashes
variable {s : Store} {k k' : String} {f : String → Option String}

namespace Store

@[simp] theorem fields_setFields_self : (s.setFields k f).fields k = f := by simp [fields, setFields]

theorem setFields_of_ne (h : k' ≠ k) : s.setFields k f k' = s k' := Function.update_of_ne h _ _

@[simp] theorem isHash_setFields_self : (s.setFields k f).IsHash k := by
  intro v hv
  rw [setFields, Function.update_self] at hv
  exact ⟨f, (Option.some.inj hv).symm⟩

theorem not_isSet_of_hash (h : s k = some (.hash f)) : ¬s.IsSet k := fun hs => by
  obtain ⟨m, hm⟩ := hs _ h
  cases hm

end Store

namespace Redis
variable {redis : NodeRedis} {t v : String}

theorem exec_hSet (h : s.IsHash k) : exec redis (.hSet (.str k) (.str t) (.str v)) s =
    (some (if (s.fields k t).isSome then (0 : Nat) else (1 : Nat)),
      s.setFields k (Function.update (s.fields k) t (some v))) := by
  simp [exec, h]

theorem exec_hSet_of_not_isHash (h : ¬s.IsHash k) :
    exec redis (.hSet (.str k) (.str t) (.str v)) s = (none, s) := by
  simp [exec, h]

theorem exec_hGetAll (h : s.IsHash k) : exec redis (.hGetAll (.str k)) s = (some (s.fields k), s) := by
  simp [exec, h]

end Redis
end Hashes

namespace Post
open Async Delete

variable {redis : NodeRedis} {faults : Faults} {s : Store} {task : Js}

def posted (s : Store) (item : HashEntry) : Store :=
  s.setFields item.key (Function.update (s.fields item.key) item.field (some item.value))

theorem fields_posted {item : HashEntry} {key field : String} : (posted s item).fields key field =
    if key = item.key ∧ field = item.field then some item.value else s.fields key field := by
  by_cases hkey : key = item.key
  · subst hkey
    rw [posted, Store.fields_setFields_self, Function.update_apply]
    simp
  · rw [if_neg fun h => hkey h.1, Store.fields, posted, Store.setFields_of_ne hkey, Store.fields]

theorem posted_of_ne {item : HashEntry} {key : String} (h : key ≠ item.key) : posted s item key = s key :=
  Store.setFields_of_ne h

theorem isHash_posted {item : HashEntry} {key : String} (h : s.IsHash key) : (posted s item).IsHash key := by
  by_cases hkey : key = item.key
  · subst hkey
    exact Store.isHash_setFields_self
  · intro v hv
    rw [posted_of_ne hkey] at hv
    exact h v hv

/-! ### Continuations -/

def afterGetAll : Option (String → Option String) → Handler Unit
  | some _ => .send ⟨200, "Successfully created new TODOs."⟩ (pure ())
  | none => .throw

def afterSet (item : HashEntry) : Option Nat → Handler Unit
  | some _ => .await (.hGetAll (.str item.key)) afterGetAll
  | none => .throw

def afterExists (item : HashEntry) : Option Nat → Handler Unit
  | some _ => .await (.hSet (.str item.key) (.str item.field) (.str item.value)) (afterSet item)
  | none => .throw

def afterConnection (body : Js) : Option (Option Unit) → Handler Unit
  | some redis => match todoItemOf body with
    | some item => match redis with
      | some () => .await (.exists (.str item.key)) (afterExists item)
      | none => .throw
    | none => .throw
  | none => .throw

theorem postUsersTodos_eq (body : Js) : postUsersTodos body = .await .getConnection (afterConnection body) := by
  unfold postUsersTodos
  refine Prog.await_congr fun r => ?_
  cases r with
  | none => rfl
  | some redis =>
    show (Handler.eval (todoItemOf body)).bind _ = _
    unfold afterConnection
    cases todoItemOf body with
    | none => rfl
    | some item =>
      cases redis with
      | none => rfl
      | some u =>
        refine Prog.await_congr fun n => ?_
        cases n with
        | none => rfl
        | some n =>
          -- Both branches issue the same command.
          show (if n = 1 then _ else _ : Handler Unit) = _
          rw [ite_self]
          refine Prog.await_congr fun x => ?_
          cases x with
          | none => rfl
          | some x =>
            refine Prog.await_congr fun all => ?_
            cases all <;> rfl

/-! ### The outcome -/

/-- A request: the connection, the conversion of the body, and the three commands. -/
theorem brief_serve_post {body : Js} :
    (serve redis faults (.postNew body) task s).brief =
      if faults.connects = false then rejectedAt s 0
      else match todoItemOf body with
      | none => rejectedAt s 0
      | some item =>
        if faults.fails 0 = true then rejectedAt s 1
        else if faults.fails 1 = true ∨ ¬s.IsHash item.key then rejectedAt s 2
        else if faults.fails 2 = true then rejectedAt (posted s item) 3
        else (some (), (posted s item, 3), [⟨200, "Successfully created new TODOs."⟩]) := by
  unfold serve
  rw [show (Request.postNew body).handler = postUsersTodos body from rfl, postUsersTodos_eq, brief_run_await]
  by_cases hc : faults.connects = true
  · rw [if_neg (by simp [hc])]
    simp only [execUnder, hc, ↓reduceIte, afterConnection]
    cases todoItemOf body with
    | none => rfl
    | some item =>
      dsimp only
      rw [brief_run_command (by simp) rfl, Redis.exec_exists]
      refine if_congr Iff.rfl rfl ?_
      simp only [afterExists]
      rw [brief_run_command (by simp) rfl]
      by_cases hhash : s.IsHash item.key
      · rw [Redis.exec_hSet hhash]
        refine if_congr (by simp [hhash]) rfl ?_
        simp only [afterSet]
        rw [brief_run_command (by simp) rfl, Redis.exec_hGetAll Store.isHash_setFields_self]
        rfl
      · rw [Redis.exec_hSet_of_not_isHash hhash, if_pos (Or.inr hhash)]
        exact ite_self _
  · rw [if_pos (by simpa using hc)]
    simp only [execUnder, hc, Bool.false_eq_true, ↓reduceIte, afterConnection]
    cases todoItemOf body <;> rfl

end Post
end TodoWatch
