import Mathlib.Data.Finset.Basic
import TodoWatch.Js

/-! # Redis

The store as the API sees it: each key holds a string, a hash or a set, and a command for one type fails
on a key of another. A set loses its key with its last member. -/

namespace TodoWatch

/-- A value under a key. A set has a member. -/
inductive Value where
  | string (text : String)
  | hash (fields : String → Option String)
  | set (members : {m : Finset String // m.Nonempty})

abbrev Store := String → Option Value

/-- The commands of the API. Their arguments are whatever values the handlers pass. -/
inductive Command where
  | getConnection
  | exists (key : Js)
  | get (key : Js)
  | sIsMember (key member : Js)
  | sRem (key member : Js)
  | sAdd (key member : Js)
  | hSet (key field value : Js)
  | hGetAll (key : Js)

abbrev Command.Reply : Command → Type
  -- `null` when the connection failed, or the client.
  | .getConnection => Option Unit
  | .exists _ => Nat
  | .get _ => Option String
  | .sIsMember _ _ => Bool
  | .sRem _ _ => Nat
  | .sAdd _ _ => Nat
  | .hSet _ _ _ => Nat
  | .hGetAll _ => String → Option String

/-- The client library, which is not part of the repository: a command argument has to be a string, and
    any other value of the API is a `TypeError`, which rejects the command before it is sent. -/
structure NodeRedis where
  encode : Js → Option String
  encode_str : ∀ s, encode (.str s) = some s
  encode_eq_none : ∀ v, (∀ s, v ≠ .str s) → encode v = none

def nodeRedis : NodeRedis where
  encode
    | .str s => some s
    | _ => none
  encode_str _ := rfl
  encode_eq_none v h := by
    cases v with
    | str s => exact absurd rfl (h s)
    | _ => rfl

namespace Store

def members (s : Store) (key : String) : Finset String :=
  match s key with
  | some (.set m) => m.1
  | _ => ∅

/-- The key is absent or holds a set. -/
def IsSet (s : Store) (key : String) : Prop := ∀ v, s key = some v → ∃ m, v = .set m

def fields (s : Store) (key : String) : String → Option String :=
  match s key with
  | some (.hash f) => f
  | _ => fun _ => none

def IsHash (s : Store) (key : String) : Prop := ∀ v, s key = some v → ∃ f, v = .hash f

/-- The store with a set of members under a key, which is dropped when there are none. -/
def setMembers (s : Store) (key : String) (m : Finset String) : Store :=
  Function.update s key (if h : m.Nonempty then some (.set ⟨m, h⟩) else none)

def setFields (s : Store) (key : String) (f : String → Option String) : Store :=
  Function.update s key (some (.hash f))

instance (s : Store) (key : String) : Decidable (s.IsSet key) :=
  match h : s key with
  | none => isTrue fun v hv => by rw [h] at hv; cases hv
  | some (.set m) => isTrue fun v hv => ⟨m, by rw [h] at hv; cases hv; rfl⟩
  | some (.string t) => isFalse fun hs => by obtain ⟨m, hm⟩ := hs _ h; cases hm
  | some (.hash f) => isFalse fun hs => by obtain ⟨m, hm⟩ := hs _ h; cases hm

instance (s : Store) (key : String) : Decidable (s.IsHash key) :=
  match h : s key with
  | none => isTrue fun v hv => by rw [h] at hv; cases hv
  | some (.hash f) => isTrue fun v hv => ⟨f, by rw [h] at hv; cases hv; rfl⟩
  | some (.string t) => isFalse fun hs => by obtain ⟨m, hm⟩ := hs _ h; cases hm
  | some (.set m) => isFalse fun hs => by obtain ⟨f, hf⟩ := hs _ h; cases hf

end Store

/-- The command meets a key that holds a value of another type. -/
def Command.wrongType (encode : Js → Option String) (s : Store) : Command → Bool
  | .get key => (encode key).any fun k => (s k).any fun | .string _ => false | _ => true
  | .sIsMember key _ => (encode key).any fun k => !decide (s.IsSet k)
  | .sRem key _ => (encode key).any fun k => !decide (s.IsSet k)
  | .sAdd key _ => (encode key).any fun k => !decide (s.IsSet k)
  | .hSet key _ _ => (encode key).any fun k => !decide (s.IsHash k)
  | .hGetAll key => (encode key).any fun k => !decide (s.IsHash k)
  | .getConnection => false
  | .exists _ => false

namespace Redis

/-- One argument, or no reply. -/
def withArg {β : Type} (redis : NodeRedis) (arg : Js) (s : Store) (f : String → Option β × Store) :
    Option β × Store :=
  match redis.encode arg with
  | some text => f text
  | none => (none, s)

/-- `SISMEMBER`, `SREM` and `SADD`: the key has to hold a set. -/
def onSet {β : Type} (redis : NodeRedis) (key member : Js) (s : Store)
    (f : String → String → Finset String → β × Store) : Option β × Store :=
  withArg redis key s fun k => withArg redis member s fun t =>
    if s.IsSet k then let x := f k t (s.members k); (some x.1, x.2) else (none, s)

/-- The effect of a command, with its reply; there is none when the command is rejected. -/
def exec (redis : NodeRedis) : (c : Command) → Store → Option c.Reply × Store
  | .getConnection, s => (some (some ()), s)
  | .exists key, s => withArg redis key s fun k => (some (if (s k).isSome then (1 : Nat) else (0 : Nat)), s)
  | .get key, s => withArg redis key s fun k =>
    match s k with
    | none => (some (none : Option String), s)
    | some (.string text) => (some (some text), s)
    | some _ => (none, s)
  | .sIsMember key member, s => onSet redis key member s fun _ t m => ((decide (t ∈ m) : Bool), s)
  | .sRem key member, s => onSet redis key member s fun k t m =>
    ((if t ∈ m then (1 : Nat) else (0 : Nat)), s.setMembers k (m.erase t))
  | .sAdd key member, s => onSet redis key member s fun k t m =>
    ((if t ∈ m then (0 : Nat) else (1 : Nat)), s.setMembers k (insert t m))
  | .hSet key field value, s => withArg redis key s fun k => withArg redis field s fun f =>
      withArg redis value s fun v =>
    if s.IsHash k then
      (some (if (s.fields k f).isSome then (0 : Nat) else (1 : Nat)),
        s.setFields k (Function.update (s.fields k) f (some v)))
    else (none, s)
  | .hGetAll key, s => withArg redis key s fun k =>
    if s.IsHash k then (some (s.fields k : String → Option String), s) else (none, s)

end Redis

/-! ### Sets in a store -/

namespace Store
variable {s : Store} {k k' t : String} {m : Finset String}

theorem members_setMembers : (s.setMembers k m).members k' = if k' = k then m else s.members k' := by
  unfold setMembers members
  by_cases hk : k' = k
  · subst hk
    by_cases hm : m.Nonempty
    · simp [hm]
    · simp [Finset.not_nonempty_iff_eq_empty.mp hm]
  · simp [hk]

@[simp] theorem members_setMembers_self : (s.setMembers k m).members k = m := by simp [members_setMembers]

theorem members_setMembers_of_ne (h : k' ≠ k) : (s.setMembers k m).members k' = s.members k' := by
  simp [members_setMembers, h]

theorem setMembers_of_ne (h : k' ≠ k) : s.setMembers k m k' = s k' := Function.update_of_ne h _ _

@[simp] theorem isSet_setMembers_self : (s.setMembers k m).IsSet k := by
  intro v hv
  unfold setMembers at hv
  by_cases hm : m.Nonempty
  · simp only [hm, ↓reduceDIte, Function.update_self, Option.some.injEq] at hv
    exact ⟨_, hv.symm⟩
  · simp [hm] at hv

theorem IsSet.setMembers (h : s.IsSet k') : (s.setMembers k m).IsSet k' := by
  by_cases hk : k' = k
  · subst hk
    exact isSet_setMembers_self
  · intro v hv
    rw [setMembers_of_ne hk] at hv
    exact h v hv

theorem isSet_of_none (h : s k = none) : s.IsSet k := fun v hv => by rw [h] at hv; cases hv

theorem IsSet.isSome_iff (h : s.IsSet k) : (s k).isSome = true ↔ (s.members k).Nonempty := by
  unfold members
  cases hk : s k with
  | none => simp
  | some v =>
    obtain ⟨m, rfl⟩ := h v hk
    simp [m.2]

end Store

/-! ### Commands on strings -/

namespace Redis
variable {redis : NodeRedis} {s : Store} {k t : String}

@[simp] theorem withArg_str {β : Type} {f : String → Option β × Store} : withArg redis (.str k) s f = f k := by
  simp only [withArg, redis.encode_str]

theorem withArg_of_ne_str {β : Type} {f : String → Option β × Store} {v : Js} (h : ∀ x, v ≠ .str x) :
    withArg redis v s f = (none, s) := by simp only [withArg, redis.encode_eq_none v h]

@[simp] theorem exec_exists :
    exec redis (.exists (.str k)) s = (some (if (s k).isSome then (1 : Nat) else (0 : Nat)), s) := by
  simp only [exec, withArg_str]

theorem exec_exists_undefined : exec redis (.exists .undefined) s = (none, s) :=
  withArg_of_ne_str (by simp)

theorem exec_sIsMember (h : s.IsSet k) :
    exec redis (.sIsMember (.str k) (.str t)) s = (some (decide (t ∈ s.members k)), s) := by
  simp [exec, onSet, h]

theorem exec_sRem (h : s.IsSet k) : exec redis (.sRem (.str k) (.str t)) s =
    (some (if t ∈ s.members k then (1 : Nat) else (0 : Nat)), s.setMembers k ((s.members k).erase t)) := by
  simp [exec, onSet, h]

theorem exec_sAdd (h : s.IsSet k) : exec redis (.sAdd (.str k) (.str t)) s =
    (some (if t ∈ s.members k then (0 : Nat) else (1 : Nat)), s.setMembers k (insert t (s.members k))) := by
  simp [exec, onSet, h]

theorem exec_sIsMember_of_not_isSet {v : Js} (h : ¬s.IsSet k) : exec redis (.sIsMember (.str k) v) s = (none, s) := by
  simp only [exec, onSet, withArg_str, h, ↓reduceIte]
  unfold withArg
  split <;> rfl

theorem exec_sAdd_of_not_isSet (h : ¬s.IsSet k) : exec redis (.sAdd (.str k) (.str t)) s = (none, s) := by
  simp [exec, onSet, h]

end Redis

end TodoWatch
