import Mathlib.Data.List.Count
import TodoWatch.Lib.Async

/-! # What programs guarantee each other

Programs over one store, where a command can fail in several ways and the process that runs the programs can
be restarted at any time. A program is safe when each command that it awaits moves the store along `grows`,
whatever the others have done along `grows` before. Safety is checked on each program alone; a pool of safe
programs keeps to it in every interleaving. A program with a bound on its awaits ends after a bounded number
of its own steps, whatever the others do. A quiet program awaits certain commands only and leaves the shared variable
alone. -/

namespace Async
open Runs (Growth)

/-- What happens to a pool: a program takes its next step, where `e` is the outcome of the command it may
    execute, or the process is restarted. -/
inductive Act (ι ε : Type) where
  | go (i : ι) (e : ε)
  | restart

section Restart
variable {γ κ : Type} {ρ : κ → Type} {ω ι σ ε : Type}

/-- The end of the process takes with it each program that has started and not ended. -/
def Proc.kill : Proc γ κ ρ ω → Proc γ κ ρ ω
  | .idle p => .idle p
  | .sent _ _ => .rejected
  | .answered _ _ _ => .rejected
  | .fulfilled => .fulfilled
  | .rejected => .rejected

/-- The shared variable starts again from `g`. -/
def Pool.restart (w : Pool γ κ ρ ω ι σ) (g : γ) : Pool γ κ ρ ω ι σ where
  store := w.store
  shared := g
  procs i := (w.procs i).kill
  out := w.out

def Pool.act [DecidableEq ι] (exec : ε → (c : κ) → σ → Option (ρ c) × σ) (g : γ) (w : Pool γ κ ρ ω ι σ) :
    Act ι ε → Option (Pool γ κ ρ ω ι σ)
  | .go i e => w.step (exec e) i
  | .restart => some (w.restart g)

end Restart

/-- What a program promises: of what it has sent as long as it has not ended, and also when an exception ends
    it, and of the store too once it has ended. -/
structure Promise (ω σ : Type) where
  pending : List ω → Prop
  done : List ω → σ → Prop

section Safe
variable {γ κ : Type} {ρ : κ → Type} {ω α σ ε : Type} (exec : ε → (c : κ) → σ → Option (ρ c) × σ)
  (G : Growth σ) (P : Promise ω σ)

/-- The program keeps its promise from the store `s` on, when it has sent `sent` before, and only makes the
    store grow. -/
def Prog.Safe : Prog γ κ ρ ω α → List ω → σ → Prop
  | .pure _, sent, s => ∀ t, G.grows s t → P.done sent t
  | .throw, sent, _ => P.pending sent
  | .send r p, sent, s => Prog.Safe p (sent ++ [r]) s
  | .assign _ p, sent, s => Prog.Safe p sent s
  | .read p, sent, s => ∀ g, Prog.Safe (p g) sent s
  | .await c p, sent, s => P.pending sent ∧ ∀ t, G.grows s t → ∀ e,
      G.grows t (exec e c t).2 ∧ Prog.Safe (p (exec e c t).1) sent (exec e c t).2

def Proc.Safe (sent : List ω) (s : σ) : Proc γ κ ρ ω → Prop
  | .idle p => P.pending sent ∧ p.Safe exec G P sent s
  | .sent c next => Prog.Safe exec G P (.await c next) sent s
  | .answered _ r next => P.pending sent ∧ (next r).Safe exec G P sent s
  | .fulfilled => ∀ t, G.grows s t → P.done sent t
  | .rejected => P.pending sent

variable {exec G P} {sent : List ω} {s t : σ}

theorem Prog.Safe.mono {p : Prog γ κ ρ ω α} (h : p.Safe exec G P sent s) (hst : G.grows s t) :
    p.Safe exec G P sent t := by
  induction p generalizing sent with
  | pure a => exact fun u hu => h u (G.trans hst hu)
  | throw => exact h
  | send r p ih => exact ih h
  | assign g p ih => exact ih h
  | read p ih => exact fun g => ih g (h g)
  | await c p ih => exact ⟨h.1, fun u hu => h.2 u (G.trans hst hu)⟩

theorem Proc.Safe.mono {x : Proc γ κ ρ ω} (h : x.Safe exec G P sent s) (hst : G.grows s t) :
    x.Safe exec G P sent t := by
  cases x with
  | idle p => exact ⟨h.1, h.2.mono hst⟩
  | sent c next => exact Prog.Safe.mono h hst
  | answered c r next => exact ⟨h.1, h.2.mono hst⟩
  | fulfilled => exact fun u hu => h u (G.trans hst hu)
  | rejected => exact h

/-- A program that has not ended, and one that an exception has ended. -/
theorem Proc.Safe.pending {x : Proc γ κ ρ ω} (h : x.Safe exec G P sent s) (hx : x ≠ .fulfilled) :
    P.pending sent := by
  cases x with
  | idle p => exact h.1
  | sent c next => exact h.1
  | answered c r next => exact h.1
  | fulfilled => exact absurd rfl hx
  | rejected => exact h

theorem Proc.Safe.done (h : (Proc.fulfilled : Proc γ κ ρ ω).Safe exec G P sent s) : P.done sent s :=
  h s (G.refl s)

theorem Proc.Safe.kill {x : Proc γ κ ρ ω} (h : x.Safe exec G P sent s) : x.kill.Safe exec G P sent s := by
  cases x with
  | idle p => exact h
  | sent c next => exact h.1
  | answered c r next => exact h.1
  | fulfilled => exact h
  | rejected => exact h

/-- A safe program is safe at its next await, with what it has sent by then. -/
theorem safe_advance {p : Prog γ κ ρ ω Unit} (h : p.Safe exec G P sent s) (g : γ) :
    (advance p g).1.Safe exec G P (sent ++ (advance p g).2.2) s := by
  induction p generalizing sent g with
  | pure a => simpa [advance, Proc.Safe, Prog.Safe] using h
  | throw => simpa [advance, Proc.Safe, Prog.Safe] using h
  | send r p ih => simpa [advance] using ih h g
  | assign g' p ih => exact ih h g'
  | read p ih => exact ih g (h g) g
  | await c p ih => simpa [advance, Proc.Safe] using h

end Safe

/-! ### Pools -/

section Pools
variable {γ κ : Type} {ρ : κ → Type} {ω ι σ ε : Type} [DecidableEq ι] (exec : ε → (c : κ) → σ → Option (ρ c) × σ)
  (G : Growth σ) (P : ι → Promise ω σ)

/-- Every program of the pool is safe, and the store has grown since `s₀`. -/
structure Pool.Safe (s₀ : σ) (w : Pool γ κ ρ ω ι σ) : Prop where
  procs : ∀ i, (w.procs i).Safe exec G (P i) (w.out i) w.store
  grown : G.grows s₀ w.store

variable {exec G P} {s₀ : σ} {w w' : Pool γ κ ρ ω ι σ} {g : γ}

theorem Pool.Safe.resume (h : w.Safe exec G P s₀) {i : ι} {p : Prog γ κ ρ ω Unit}
    (hp : p.Safe exec G (P i) (w.out i) w.store) : (w.resume i (advance p w.shared)).Safe exec G P s₀ := by
  refine ⟨fun j => ?_, h.grown⟩
  by_cases hj : j = i
  · subst hj
    simpa [Pool.resume] using safe_advance hp w.shared
  · simpa [Pool.resume, hj] using h.procs j

theorem Pool.Safe.step (h : w.Safe exec G P s₀) {i : ι} {e : ε} (hs : w.step (exec e) i = some w') :
    w'.Safe exec G P s₀ ∧ G.grows w.store w'.store := by
  have hi := h.procs i
  unfold Pool.step at hs
  cases hp : w.procs i with
  | idle p =>
    rw [hp] at hs hi
    obtain rfl := Option.some.inj hs
    exact ⟨h.resume hi.2, G.refl _⟩
  | sent c next =>
    rw [hp] at hs hi
    obtain rfl := Option.some.inj hs
    obtain ⟨hgrows, hnext⟩ := hi.2 w.store (G.refl _) e
    refine ⟨⟨fun j => ?_, G.trans h.grown hgrows⟩, hgrows⟩
    by_cases hj : j = i
    · subst hj
      simp only [Function.update_self]
      exact ⟨hi.1, hnext⟩
    · simpa only [Function.update_of_ne hj] using (h.procs j).mono hgrows
  | answered c r next =>
    rw [hp] at hs hi
    obtain rfl := Option.some.inj hs
    exact ⟨h.resume hi.2, G.refl _⟩
  | fulfilled =>
    rw [hp] at hs
    cases hs
  | rejected =>
    rw [hp] at hs
    cases hs

theorem Pool.Safe.act (h : w.Safe exec G P s₀) {a : Act ι ε} (hs : w.act exec g a = some w') :
    w'.Safe exec G P s₀ ∧ G.grows w.store w'.store := by
  cases a with
  | go i e => exact h.step hs
  | restart =>
    obtain rfl := Option.some.inj hs
    exact ⟨⟨fun i => (h.procs i).kill, h.grown⟩, G.refl _⟩

/-- A pool of safe programs is safe in every state of every run. -/
theorem Pool.Safe.always (h : w.Safe exec G P s₀) {as : List (Act ι ε)} :
    Runs.Always (Pool.act exec g) (Pool.Safe exec G P s₀) w as :=
  Runs.always_of_inv (fun _ _ _ h _ hs => (h.act hs).1) h Runs.meets_true

end Pools

/-! ### Bounded programs -/

section Bounds
variable {γ κ : Type} {ρ : κ → Type} {ω ι σ ε α : Type}

/-- The program awaits `n` commands at most, whatever it reads and whatever the replies are. -/
def Prog.Within : Prog γ κ ρ ω α → Nat → Prop
  | .pure _, _ => True
  | .throw, _ => True
  | .send _ p, n => Prog.Within p n
  | .assign _ p, n => Prog.Within p n
  | .read p, n => ∀ g, Prog.Within (p g) n
  | .await _ _, 0 => False
  | .await _ p, n + 1 => ∀ r, Prog.Within (p r) n

/-- The program takes `n` more steps at most: for each command one that executes it and one that goes on. -/
def Proc.Left : Proc γ κ ρ ω → Nat → Prop
  | .idle p, n => ∃ m, p.Within m ∧ 2 * m + 1 ≤ n
  | .sent _ next, n => ∃ m, (∀ r, (next r).Within m) ∧ 2 * m + 2 ≤ n
  | .answered _ r next, n => ∃ m, (next r).Within m ∧ 2 * m + 1 ≤ n
  | .fulfilled, _ => True
  | .rejected, _ => True

theorem Prog.Within.mono {p : Prog γ κ ρ ω α} {m n : Nat} (h : p.Within m) (hmn : m ≤ n) : p.Within n := by
  induction p generalizing m n with
  | pure a => trivial
  | throw => trivial
  | send r p ih => exact ih h hmn
  | assign g p ih => exact ih h hmn
  | read p ih => exact fun g => ih g (h g) hmn
  | await c p ih =>
    cases m with
    | zero => exact h.elim
    | succ m =>
      cases n with
      | zero => omega
      | succ n => exact fun r => ih r (h r) (by omega)

theorem Proc.Left.ended {x : Proc γ κ ρ ω} (h : x.Left 0) : x.ended = true := by
  cases x with
  | idle p =>
    obtain ⟨m, -, hm⟩ := h
    omega
  | sent c next =>
    obtain ⟨m, -, hm⟩ := h
    omega
  | answered c r next =>
    obtain ⟨m, -, hm⟩ := h
    omega
  | fulfilled => rfl
  | rejected => rfl

theorem Proc.Left.mono {x : Proc γ κ ρ ω} {m n : Nat} (h : x.Left m) (hmn : m ≤ n) : x.Left n := by
  cases x with
  | idle p =>
    obtain ⟨k, hk, hm⟩ := h
    exact ⟨k, hk, by omega⟩
  | sent c next =>
    obtain ⟨k, hk, hm⟩ := h
    exact ⟨k, hk, by omega⟩
  | answered c r next =>
    obtain ⟨k, hk, hm⟩ := h
    exact ⟨k, hk, by omega⟩
  | fulfilled => trivial
  | rejected => trivial

theorem left_advance {p : Prog γ κ ρ ω Unit} {m : Nat} (h : p.Within m) (g : γ) : (advance p g).1.Left (2 * m) := by
  induction p generalizing g with
  | pure a => trivial
  | throw => trivial
  | send r p ih => exact ih h g
  | assign g' p ih => exact ih h g'
  | read p ih => exact ih g (h g) g
  | await c p ih =>
    cases m with
    | zero => exact h.elim
    | succ m => exact ⟨m, h, by omega⟩

theorem Proc.Left.kill {x : Proc γ κ ρ ω} {n : Nat} (h : x.Left n) : x.kill.Left n := by
  cases x with
  | idle p => exact h
  | sent c next => trivial
  | answered c r next => trivial
  | fulfilled => trivial
  | rejected => trivial

variable [DecidableEq ι] {exec : ε → (c : κ) → σ → Option (ρ c) × σ} {w w' : Pool γ κ ρ ω ι σ} {g : γ} {i : ι} {n : Nat}

/-- A step of a program is possible until it has ended. -/
theorem Pool.step_isSome (f : (c : κ) → σ → Option (ρ c) × σ) (w : Pool γ κ ρ ω ι σ) (i : ι) :
    (w.step f i).isSome = !(w.procs i).ended := by
  unfold Pool.step
  cases w.procs i <;> rfl

/-- A step uses up one step of the bound. -/
theorem Pool.step_left {f : (c : κ) → σ → Option (ρ c) × σ} (h : (w.procs i).Left n) (hs : w.step f i = some w') :
    ∃ m, n = m + 1 ∧ (w'.procs i).Left m := by
  unfold Pool.step at hs
  have resumed : ∀ {p : Prog γ κ ρ ω Unit} {m : Nat}, p.Within m → 2 * m + 1 ≤ n →
      ∃ k, n = k + 1 ∧ ((w.resume i (advance p w.shared)).procs i).Left k := by
    intro p m hp hm
    have hleft := left_advance hp w.shared
    obtain ⟨k, rfl⟩ : ∃ k, n = 2 * m + k + 1 := ⟨n - (2 * m + 1), by omega⟩
    refine ⟨_, rfl, ?_⟩
    simp only [Pool.resume, Function.update_self]
    exact hleft.mono (by omega)
  cases hp : w.procs i with
  | idle p =>
    rw [hp] at hs h
    obtain rfl := Option.some.inj hs
    obtain ⟨m, hm, hn⟩ := h
    exact resumed hm hn
  | sent c next =>
    rw [hp] at hs h
    obtain rfl := Option.some.inj hs
    obtain ⟨m, hm, hn⟩ := h
    refine ⟨n - 1, by omega, ?_⟩
    simp only [Function.update_self]
    exact ⟨m, hm _, by omega⟩
  | answered c r next =>
    rw [hp] at hs h
    obtain rfl := Option.some.inj hs
    obtain ⟨m, hm, hn⟩ := h
    exact resumed hm hn
  | fulfilled =>
    rw [hp] at hs
    cases hs
  | rejected =>
    rw [hp] at hs
    cases hs

theorem Pool.procs_of_ne {f : (c : κ) → σ → Option (ρ c) × σ} {j : ι} (hj : j ≠ i) (hs : w.step f i = some w') :
    w'.procs j = w.procs j := by
  unfold Pool.step at hs
  split at hs
  · obtain rfl := Option.some.inj hs
    exact Function.update_of_ne hj _ _
  · obtain rfl := Option.some.inj hs
    exact Function.update_of_ne hj _ _
  · obtain rfl := Option.some.inj hs
    exact Function.update_of_ne hj _ _
  · cases hs
  · cases hs

def Act.isOf (i : ι) : Act ι ε → Bool
  | .go j _ => j == i
  | .restart => false

/-- In any run a program takes no more steps than its bound allows, and the rest is left to it. -/
theorem Pool.steps_le {as : List (Act ι ε)} (h : (w.procs i).Left n) (hr : Runs.run (Pool.act exec g) w as = some w') :
    as.countP (Act.isOf i) ≤ n ∧ (w'.procs i).Left (n - as.countP (Act.isOf i)) := by
  induction as generalizing w n with
  | nil =>
    obtain rfl := Option.some.inj hr
    exact ⟨Nat.zero_le n, h⟩
  | cons a as ih =>
    obtain ⟨u, hu, hrun⟩ := Runs.run_cons.mp hr
    cases a with
    | restart =>
      obtain rfl := Option.some.inj hu
      rw [List.countP_cons_of_neg (by simp [Act.isOf])]
      exact ih (Proc.Left.kill h) hrun
    | go j e =>
      by_cases hj : j = i
      · subst hj
        obtain ⟨m, rfl, hm⟩ := Pool.step_left h hu
        obtain ⟨hle, hleft⟩ := ih hm hrun
        rw [List.countP_cons_of_pos (by simp [Act.isOf])]
        exact ⟨by omega, by rwa [Nat.add_sub_add_right]⟩
      · rw [List.countP_cons_of_neg (by simpa [Act.isOf] using hj)]
        refine ih ?_ hrun
        rwa [Pool.procs_of_ne (Ne.symm hj) hu]

end Bounds

/-! ### Quiet programs -/

section Quiet
variable {γ κ : Type} {ρ : κ → Type} {ω ι σ α : Type} (P : κ → Prop)

/-- The program assigns nothing to the shared variable, and all commands that it awaits are `P`. -/
def Prog.Quiet : Prog γ κ ρ ω α → Prop
  | .pure _ => True
  | .throw => True
  | .send _ p => Prog.Quiet p
  | .assign _ _ => False
  | .read p => ∀ g, Prog.Quiet (p g)
  | .await c p => P c ∧ ∀ r, Prog.Quiet (p r)

def Proc.Quiet : Proc γ κ ρ ω → Prop
  | .idle p => p.Quiet P
  | .sent c next => P c ∧ ∀ r, (next r).Quiet P
  | .answered _ r next => (next r).Quiet P
  | .fulfilled => True
  | .rejected => True

variable {P}

theorem quiet_advance {p : Prog γ κ ρ ω Unit} (h : p.Quiet P) (g : γ) :
    (advance p g).1.Quiet P ∧ (advance p g).2.1 = g := by
  induction p with
  | pure a => exact ⟨trivial, rfl⟩
  | throw => exact ⟨trivial, rfl⟩
  | send r p ih => exact ih h
  | assign g' p ih => exact h.elim
  | read p ih => exact ih g (h g)
  | await c p ih => exact ⟨h, rfl⟩

variable [DecidableEq ι] {exec : (c : κ) → σ → Option (ρ c) × σ} {w w' : Pool γ κ ρ ω ι σ} {i : ι}

/-- A step of a quiet program does to the store what one of its commands does, or nothing. -/
theorem Pool.step_quiet (h : (w.procs i).Quiet P) (hs : w.step exec i = some w') :
    (w'.procs i).Quiet P ∧ w'.shared = w.shared ∧
      (w'.store = w.store ∨ ∃ c, P c ∧ w'.store = (exec c w.store).2) := by
  unfold Pool.step at hs
  have resumed : ∀ {p : Prog γ κ ρ ω Unit}, p.Quiet P →
      ((w.resume i (advance p w.shared)).procs i).Quiet P ∧ (w.resume i (advance p w.shared)).shared = w.shared := by
    intro p hp
    obtain ⟨hquiet, hshared⟩ := quiet_advance hp w.shared
    simp only [Pool.resume, Function.update_self]
    exact ⟨hquiet, hshared⟩
  cases hp : w.procs i with
  | idle p =>
    rw [hp] at hs h
    obtain rfl := Option.some.inj hs
    exact ⟨(resumed h).1, (resumed h).2, Or.inl rfl⟩
  | sent c next =>
    rw [hp] at hs h
    obtain rfl := Option.some.inj hs
    refine ⟨?_, rfl, Or.inr ⟨c, h.1, rfl⟩⟩
    simp only [Function.update_self]
    exact h.2 _
  | answered c r next =>
    rw [hp] at hs h
    obtain rfl := Option.some.inj hs
    exact ⟨(resumed h).1, (resumed h).2, Or.inl rfl⟩
  | fulfilled =>
    rw [hp] at hs
    cases hs
  | rejected =>
    rw [hp] at hs
    cases hs

end Quiet

end Async
