/-
The operations a script calls: run a command, allocate, free, write a
message, exit. Each succeeds with its value or fails with a numbered
message that names the operation and the cause. A trap is neither and
goes through.
-/
import TsoBridge.Session

namespace TsoBridge

open Text

/-- The operations of a script. -/
inductive ScriptOp where
  | cmd
  | alloc
  | free
  | msg
  | exit
deriving DecidableEq

namespace ScriptOp

/-- The name of an operation. -/
def title : ScriptOp → String
  | .cmd => "cmd"
  | .alloc => "alloc"
  | .free => "free"
  | .msg => "msg"
  | .exit => "exit"

/-- The message number of an operation's failures. -/
def code : ScriptOp → Nat
  | .cmd => 30003
  | .alloc => 30004
  | .free => 30005
  | .msg => 30024
  | .exit => 30025

end ScriptOp

/-- Why an operation of a script failed. -/
inductive ScriptCause where
  /-- The engine failed. -/
  | engine (cause : Error)
  /-- There is no message level with that number. -/
  | level (given : Int)
  /-- No program can end with that code. -/
  | exitCode (given : Int)
deriving DecidableEq

/-- A failed operation of a script. -/
structure ScriptError where
  operation : ScriptOp
  cause : ScriptCause
deriving DecidableEq

namespace Script

/-- The largest code a program can end with. -/
def maxExitCode : Int := 4095

end Script

namespace ScriptError

/-- What went wrong. -/
def detail (failure : ScriptError) : String :=
  match failure.cause with
  | .engine cause => cause.message
  | .level given => "level " ++ signedDecimal given ++ " is not 0, 1 or 2"
  | .exitCode given =>
    "code " ++ signedDecimal given ++ " is outside 0-" ++ signedDecimal Script.maxExitCode

/-- The message number. -/
def code (failure : ScriptError) : Nat :=
  failure.operation.code

/-- The message a script gets. -/
def message (failure : ScriptError) : String :=
  "LUZ" ++ decimalOf 5 failure.code ++ " tso." ++ failure.operation.title ++ " " ++ failure.detail

end ScriptError

/-- What a script gets of a command that ran. -/
structure CmdResult where
  rc : Int32
  lines : List String
  /-- Why the output DD could not be freed. -/
  cleanup : Option String
deriving DecidableEq

/-- How a script ends. -/
structure ExitReport where
  code : Int
  /-- The number of bindings freed on the way out. -/
  released : Nat
  /-- The number of bindings that could not be freed. -/
  failed : Nat
deriving DecidableEq

namespace Script

variable {H : Type} {α : Type}

/-- An engine operation as part of a script operation. -/
def engine (operation : ScriptOp) (x : Op (Session H) α) :
    Op (Session H) (Except ScriptError α) := do
  match ← x.attempt with
  | .ok a => return .ok a
  | .error cause => return .error { operation, cause := .engine cause }

variable [Host H]

/-- Runs a command. A failed free is handed over with the result and not
kept. -/
def cmd (text : String) (options : CommandOptions) :
    Op (Session H) (Except ScriptError CmdResult) :=
  engine .cmd do
    let outcome ← Session.run text options
    let _ ← Session.takeFailures
    return { rc := outcome.rc, lines := outcome.report.lines
             cleanup := outcome.cleanup.map Error.message }

/-- Allocates. -/
def alloc (operands : String) : Op (Session H) (Except ScriptError Int32) :=
  engine .alloc do
    let request ← AllocationRequest.parse operands
    let (_, result) ← Session.allocate request
    return result.serviceRc

/-- Frees. -/
def free (operands : String) : Op (Session H) (Except ScriptError Int32) :=
  engine .free do
    let name ← DdName.ofFree operands
    return (← Session.free name).serviceRc

/-- Writes a message of level 0, 1 or 2. -/
def msg (text : String) (level : Option Int) : Op (Session H) (Except ScriptError Int32) := do
  let number := level.getD 0
  match MessageLevel.ofNumber? number with
  | none => return .error { operation := .msg, cause := .level number }
  | some level =>
    engine .msg do
      Session.message text level
      return 0

/-- Frees every live binding and ends the script. -/
def exit (code : Option Int) : Op (Session H) (Except ScriptError ExitReport) := do
  let code := code.getD 0
  let live ← Op.gets fun s => s.bindings.liveNames.length
  let failures ← Session.releaseAll
  if code < 0 || maxExitCode < code then
    return .error { operation := .exit, cause := .exitCode code }
  else
    return .ok { code, released := live - failures.length, failed := failures.length }

end Script
end TsoBridge
