import Mathlib.Logic.Function.Basic
import TodoWatch.Lib.Runs

/-! # Asynchronous programs on one thread

A program runs to completion between its awaits. What it does there is to read and write the shared
variable of all programs and to send results to its caller; what it awaits are commands, whose replies
come from outside. `run` is a program alone against a store that answers its commands. A `Pool` is any
number of programs over one store: a command is executed at some moment after it is awaited, and the
program goes on at some moment after the reply. -/

namespace Async

/-- A program by what it does next. `γ` is the shared variable, `κ` the commands with their replies `ρ`,
    `ω` what is sent, `α` the result. -/
inductive Prog (γ κ : Type) (ρ : κ → Type) (ω α : Type) : Type where
  | pure (a : α)
  | throw
  | send (r : ω) (next : Prog γ κ ρ ω α)
  | assign (g : γ) (next : Prog γ κ ρ ω α)
  | read (next : γ → Prog γ κ ρ ω α)
  /-- The reply is `none` when the command fails. -/
  | await (c : κ) (next : Option (ρ c) → Prog γ κ ρ ω α)

namespace Prog

variable {γ κ : Type} {ρ : κ → Type} {ω α β : Type}

def bind : Prog γ κ ρ ω α → (α → Prog γ κ ρ ω β) → Prog γ κ ρ ω β
  | pure a, f => f a
  | throw, _ => throw
  | send r p, f => send r (p.bind f)
  | assign g p, f => assign g (p.bind f)
  | read p, f => read fun g => (p g).bind f
  | await c p, f => await c fun r => (p r).bind f

instance : Monad (Prog γ κ ρ ω) where
  pure := pure
  bind := bind

/-- Await a command without catching: its failure is an exception. -/
def call (c : κ) : Prog γ κ ρ ω (ρ c) := await c fun
  | some r => pure r
  | none => throw

def reply (r : ω) : Prog γ κ ρ ω Unit := send r (pure ())

def set (g : γ) : Prog γ κ ρ ω Unit := assign g (pure ())

def get : Prog γ κ ρ ω γ := read pure

theorem await_congr {c : κ} {p q : Option (ρ c) → Prog γ κ ρ ω α} (h : ∀ r, p r = q r) : await c p = await c q := by
  rw [funext h]

theorem read_congr {p q : γ → Prog γ κ ρ ω α} (h : ∀ g, p g = q g) : read p = read q := by rw [funext h]

end Prog

/-! ### One program -/

section Alone
variable {γ κ : Type} {ρ : κ → Type} {ω α β σ : Type}

/-- How a program ended: its result, unless an exception left it, with what it leaves behind and sent,
    and each command with the store it met. -/
structure Run (γ κ ω σ α : Type) where
  result : Option α
  shared : γ
  store : σ
  sent : List ω
  commands : List (κ × σ)

def Run.brief (x : Run γ κ ω σ α) : Option α × σ × List ω := (x.result, x.store, x.sent)

variable (exec : (c : κ) → σ → Option (ρ c) × σ)

/-- A program alone, from a value of the shared variable and a store that executes its commands. -/
def run : Prog γ κ ρ ω α → γ → σ → Run γ κ ω σ α
  | .pure a, g, s => ⟨some a, g, s, [], []⟩
  | .throw, g, s => ⟨none, g, s, [], []⟩
  | .send r p, g, s => let x := run p g s; { x with sent := r :: x.sent }
  | .assign g p, _, s => run p g s
  | .read p, g, s => run (p g) g s
  | .await c p, g, s =>
    let x := run (p (exec c s).1) g (exec c s).2
    { x with commands := (c, s) :: x.commands }

variable {exec} {g : γ} {s : σ}

@[simp] theorem run_pure (a : α) :
    run exec (Pure.pure a : Prog γ κ ρ ω α) g s = ⟨some a, g, s, [], []⟩ := rfl

@[simp] theorem run_send (r : ω) (p : Prog γ κ ρ ω α) :
    run exec (.send r p) g s = { run exec p g s with sent := r :: (run exec p g s).sent } := rfl

@[simp] theorem run_assign (g' : γ) (p : Prog γ κ ρ ω α) : run exec (.assign g' p) g s = run exec p g' s := rfl

@[simp] theorem run_read (p : γ → Prog γ κ ρ ω α) : run exec (.read p) g s = run exec (p g) g s := rfl

theorem run_await (c : κ) (p : Option (ρ c) → Prog γ κ ρ ω α) :
    run exec (.await c p) g s =
      { run exec (p (exec c s).1) g (exec c s).2 with
        commands := (c, s) :: (run exec (p (exec c s).1) g (exec c s).2).commands } := rfl

@[simp] theorem brief_run_await (c : κ) (p : Option (ρ c) → Prog γ κ ρ ω α) :
    (run exec (.await c p) g s).brief = (run exec (p (exec c s).1) g (exec c s).2).brief := rfl

end Alone

/-! ### Any number of programs -/

section Together
variable (γ κ : Type) (ρ : κ → Type) (ω : Type)

/-- Where a program of a pool stands. -/
inductive Proc where
  | idle (p : Prog γ κ ρ ω Unit)
  /-- It awaits a command that is not executed yet. -/
  | sent (c : κ) (next : Option (ρ c) → Prog γ κ ρ ω Unit)
  /-- The command is executed, and the program has not seen the reply yet. -/
  | answered (c : κ) (r : Option (ρ c)) (next : Option (ρ c) → Prog γ κ ρ ω Unit)
  | fulfilled
  | rejected

def Proc.ended : Proc γ κ ρ ω → Bool
  | .fulfilled => true
  | .rejected => true
  | _ => false

structure Pool (ι σ : Type) where
  store : σ
  shared : γ
  procs : ι → Proc γ κ ρ ω
  out : ι → List ω

variable {γ κ ρ ω} {ι σ : Type} [DecidableEq ι]

/-- A program up to its next await: where it stands then, the shared variable and what it sent. -/
def advance : Prog γ κ ρ ω Unit → γ → Proc γ κ ρ ω × γ × List ω
  | .pure _, g => (.fulfilled, g, [])
  | .throw, g => (.rejected, g, [])
  | .send r p, g => let x := advance p g; (x.1, x.2.1, r :: x.2.2)
  | .assign g p, _ => advance p g
  | .read p, g => advance (p g) g
  | .await c p, g => (.sent c p, g, [])

namespace Pool

def resume (w : Pool γ κ ρ ω ι σ) (i : ι) (x : Proc γ κ ρ ω × γ × List ω) : Pool γ κ ρ ω ι σ where
  store := w.store
  shared := x.2.1
  procs := Function.update w.procs i x.1
  out := Function.update w.out i (w.out i ++ x.2.2)

/-- The next step of program `i`: it starts, its command is executed, or it goes on with the reply. A
    finished program has none. -/
def step (exec : (c : κ) → σ → Option (ρ c) × σ) (w : Pool γ κ ρ ω ι σ) (i : ι) : Option (Pool γ κ ρ ω ι σ) :=
  match w.procs i with
  | .idle p => some (w.resume i (advance p w.shared))
  | .sent c next =>
    let x := exec c w.store
    some { w with store := x.2, procs := Function.update w.procs i (.answered c x.1 next) }
  | .answered _ r next => some (w.resume i (advance (next r) w.shared))
  | .fulfilled => none
  | .rejected => none

/-- The command that the next step of program `i` executes, if it executes one. -/
def executes (w : Pool γ κ ρ ω ι σ) (i : ι) : Option κ :=
  match w.procs i with
  | .sent c _ => some c
  | _ => none

/-- A step of a pool that comes with the commands executed so far, each with its program. -/
def logStep (exec : (c : κ) → σ → Option (ρ c) × σ) (x : Pool γ κ ρ ω ι σ × List (ι × κ)) (i : ι) :
    Option (Pool γ κ ρ ω ι σ × List (ι × κ)) :=
  (x.1.step exec i).map fun w => (w, x.2 ++ (x.1.executes i).toList.map (i, ·))

theorem logStep_eq_some {exec : (c : κ) → σ → Option (ρ c) × σ} {x x' : Pool γ κ ρ ω ι σ × List (ι × κ)} {i : ι}
    (hs : logStep exec x i = some x') :
    x.1.step exec i = some x'.1 ∧ x'.2 = x.2 ++ (x.1.executes i).toList.map (i, ·) := by
  obtain ⟨w, hw, rfl⟩ := Option.map_eq_some_iff.mp hs
  exact ⟨hw, rfl⟩

def Finished (w : Pool γ κ ρ ω ι σ) : Prop := ∀ i, (w.procs i).ended = true

end Pool

end Together

end Async
