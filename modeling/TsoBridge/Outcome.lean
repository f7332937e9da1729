/-
How an operation ends and what it leaves behind. An operation on a state
ends with a value or a fault, and in both cases with a state: what a
failed operation did before it failed stays done. A fault is either an
error, which callers may handle, or a trap, such as a sum that left its
machine word, which stops the whole run and which nobody handles.

`Op.attempt` turns an error into a value and lets a trap through;
`Op.on` runs an operation on a part of a larger state.
-/
import TsoBridge.Error

namespace TsoBridge

/-- What stops an operation. -/
inductive Fault where
  /-- A failure with a cause. -/
  | error (cause : Error)
  /-- A sum left its machine word, or records of no length or a run of
  bytes longer than any that can be held were asked for. -/
  | trap
deriving DecidableEq

/-- A value or what stopped its computation. -/
abbrev Outcome := Except Fault

/-- A failure with a cause. -/
def fail {α : Type} (cause : Error) : Outcome α :=
  .error (.error cause)

/-- A trap. -/
def trap {α : Type} : Outcome α :=
  .error .trap

/-- A computation that can fail but not trap. -/
def Outcome.ofExcept {α : Type} : Except Error α → Outcome α
  | .ok a => .ok a
  | .error cause => fail cause

instance : MonadLift (Except Error) Outcome where
  monadLift := Outcome.ofExcept

-- ======================================================== operations

/-- An operation on a state: the outcome and the state it leaves. -/
def Op (σ α : Type) : Type :=
  σ → Outcome α × σ

namespace Op

variable {σ τ α β : Type}

/-- Does `x` and then, if it succeeded, what `f` makes of its value. -/
def andThen (x : Op σ α) (f : α → Op σ β) : Op σ β := fun s =>
  match x s with
  | (.ok a, t) => f a t
  | (.error fault, t) => (.error fault, t)

instance : Monad (Op σ) where
  pure a := fun s => (.ok a, s)
  bind := andThen

/-- The outcome of a computation that touches no state. -/
def ofOutcome (result : Outcome α) : Op σ α := fun s => (result, s)

instance : MonadLift Outcome (Op σ) where
  monadLift := ofOutcome

/-- Stops with an error. -/
def fail (cause : Error) : Op σ α :=
  ofOutcome (TsoBridge.fail cause)

/-- The state. -/
def get : Op σ σ := fun s => (.ok s, s)

/-- A function of the state. -/
def gets (f : σ → α) : Op σ α := fun s => (.ok (f s), s)

/-- Changes the state. -/
def modify (f : σ → σ) : Op σ Unit := fun s => (.ok (), f s)

/-- A computation that looks at the state and leaves it alone. -/
def examine (f : σ → Outcome α) : Op σ α := fun s => (f s, s)

/-- Replaces the state if the computation of the new one succeeds. -/
def update (f : σ → Outcome (α × σ)) : Op σ α := fun s =>
  match f s with
  | .ok (a, t) => (.ok a, t)
  | .error fault => (.error fault, s)

/-- An error becomes a value; a trap goes on. -/
def attempt (x : Op σ α) : Op σ (Except Error α) := fun s =>
  match x s with
  | (.ok a, t) => (.ok (.ok a), t)
  | (.error (.error cause), t) => (.ok (.error cause), t)
  | (.error .trap, t) => (.error .trap, t)

/-- Runs an operation on the part of the state that `part` picks and puts
the part back with `put`, also when the operation fails. -/
def on (part : σ → τ) (put : σ → τ → σ) (x : Op τ α) : Op σ α := fun s =>
  let (result, t) := x (part s)
  (result, put s t)

/-- Runs an operation with a further component of the state that starts
as `init` and is dropped at the end. -/
def beside (init : τ) (x : Op (σ × τ) α) : Op σ α := fun s =>
  let (result, (t, _)) := x (s, init)
  (result, t)

/-- An operation on the first of two components. -/
def onFirst (x : Op σ α) : Op (σ × τ) α :=
  x.on Prod.fst fun pair s => (s, pair.2)

/-- An operation on the second of two components. -/
def onSecond (x : Op τ α) : Op (σ × τ) α :=
  x.on Prod.snd fun pair t => (pair.1, t)

end Op
end TsoBridge
