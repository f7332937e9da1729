/-
Running a batch script against the simulated host: one step a line up to
the first exit, then the exit itself. Without an exit code of its own a
script ends with the highest return code of its steps, a failed step
counting as 12.
-/
import TsoBridge.Batch.Script
import TsoBridge.Script
import TsoBridge.Sim.Host

namespace TsoBridge

open Sim

/-- What one line of a script did. -/
structure BatchStep where
  line : Nat
  op : String
  returnCode : Option Int32 := none
  /-- Captured output, then what went to the terminal. -/
  lines : List String := []
  /-- The message of a failed operation. -/
  error : Option String := none
  /-- The message number of a failed operation. -/
  code : Option Nat := none
  /-- Failed frees. -/
  warnings : List String := []
deriving DecidableEq

/-- What a script did. -/
structure BatchRun where
  steps : List BatchStep
  exitCode : Int
  released : Nat
  failed : Bool
deriving DecidableEq

namespace Batch

/-- The return code a failed step counts as. -/
def errorRc : Int := 12

/-- What an operation returns to the step it makes: captured lines, the
warning that came with them, and the return code. -/
structure StepValue where
  lines : List String := []
  warning : Option String := none
  rc : Int32
deriving DecidableEq

/-- Runs an operation; an exit only ends the steps. -/
def perform : BatchOp → Op (Session SimHost) (Except ScriptError StepValue)
  | .cmd text authorized => do
    let result ← Script.cmd text { authorized }
    return result.map fun r => { lines := r.lines, warning := r.cleanup, rc := r.rc }
  | .alloc operands => do return (← Script.alloc operands).map fun rc => { rc }
  | .free operands => do return (← Script.free operands).map fun rc => { rc }
  | .msg level text => do return (← Script.msg text level).map fun rc => { rc }
  | .exit _ => return .ok { rc := 0 }

/-- Runs the operation of one line. -/
def runStep (line : Nat) (op : BatchOp) : Op (Session SimHost) BatchStep := do
  let seen ← Op.gets fun s => s.host.terminal.length
  let result ← perform op
  let terminal ← Op.gets fun s => (s.host.terminal.drop seen).map (·.2)
  let failures ← Session.takeFailures
  let warnings := failures.map Error.message
  match result with
  | .ok value =>
    return { line, op := op.title, returnCode := some value.rc, lines := value.lines ++ terminal
             warnings := value.warning.toList ++ warnings }
  | .error failure =>
    return { line, op := op.title, lines := terminal, error := some failure.message
             code := some failure.code, warnings }

/-- Runs lines up to the first exit. The second value is the code that
exit gives, if there is an exit. -/
def runSteps : List (Nat × BatchOp) →
    Op (Session SimHost) (List BatchStep × Option (Option Int))
  | [] => return ([], none)
  | (line, .exit code) :: _ => return ([{ line, op := (BatchOp.exit code).title }], some code)
  | (line, op) :: rest => do
    let step ← runStep line op
    let (steps, requested) ← runSteps rest
    return (step :: steps, requested)

/-- What a step counts for. -/
def rcOf (step : BatchStep) : Int :=
  if step.error.isSome then errorRc else (step.returnCode.map Int32.toInt).getD 0

/-- The highest return code of the steps, at least zero. -/
def highest (steps : List BatchStep) : Int :=
  steps.foldl (fun most step => max most (rcOf step)) 0

/-- Runs a script and ends it. -/
def run (ops : List (Nat × BatchOp)) : Op (Session SimHost) BatchRun := do
  let (steps, requested) ← runSteps ops
  let code := requested.getD (some (min (highest steps) Script.maxExitCode))
  let failed := steps.any fun step => step.error.isSome
  match ← Script.exit code with
  | .ok report =>
    return { steps, exitCode := report.code, released := report.released
             failed := failed || 0 < report.failed }
  | .error failure =>
    let line := (steps.getLast?.map BatchStep.line).getD 0
    let step := { line, op := ScriptOp.exit.title, error := some failure.message
                  code := some failure.code }
    return { steps := steps ++ [step], exitCode := errorRc, released := 0, failed := true }

end Batch
end TsoBridge
