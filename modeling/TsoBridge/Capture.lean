/-
Capture by exec, for hosts without the command service. The command is
handed to an exec of the interpreter, which appends its output to a
shared stream and returns the command's return code as a decimal number;
the lines are what the stream gained. What stood in the stream before the
first command is passed over.
-/
import TsoBridge.ControlBlock.Exec
import TsoBridge.Invocation
import TsoBridge.Output

namespace TsoBridge

/-- The names an exec is called with, and the place in its stream. -/
structure ExecCapture where
  exec : String
  execDd : String
  outDd : String
  cursor : Cursor := {}
deriving DecidableEq

namespace ExecCapture

variable {H : Type}

/-- Capture by the given exec, with the names in upper case. -/
def make (exec execDd outDd : String) : ExecCapture :=
  { exec := Text.upper exec, execDd := Text.upper execDd, outDd := Text.upper outDd }

/-- The request that runs a command. -/
def requestOf (capture : ExecCapture) (command : String) : ExecRequest :=
  { member := capture.exec, ddname := capture.execDd, subcommand := "TSO"
    arguments := ["CMD", command, capture.outDd] }

variable [Host H]

/-- An operation on the cursor. -/
def onCursor {α : Type} (x : Op (Linkage H × Cursor) α) : Op (Linkage H × ExecCapture) α :=
  x.on (fun s => (s.1, s.2.cursor)) fun s t => (t.1, { s.2 with cursor := t.2 })

/-- Calls the interpreter. -/
def callExec (entry : EntryPoint) (capability : Capability) (request : ExecRequest) :
    Op (Linkage H) (Int32 × EvalResult × Int32) :=
  Linkage.framed do
    let base ← Linkage.obtain (ExecArea.size request)
    Linkage.write base (← ExecArea.encode request base)
    let r15 ← Linkage.call entry (← ExecArea.parms base capability.cppl)
    let area ← Linkage.read base (ExecArea.size request)
    return (r15, ← ExecArea.decodeEval area, ← ExecArea.decodeRc area)

/-- Passes over what stands in the stream before the first command. -/
def catchUp (capture : ExecCapture) : Op (Linkage H × ExecCapture) Unit :=
  if capture.cursor.synced then pure () else onCursor (Cursor.syncToEnd capture.outDd)

/-- The report of a command the interpreter ran, with what the command
appended to the stream. -/
def collect (outDd : String) (r15 : Int32) (eval : EvalResult) (rexxRc : Int32) :
    Op (Linkage H × ExecCapture) CommandReport :=
  if r15 ≠ 0 then Op.fail (.invocationFailed .execute r15 rexxRc.toUInt32 0)
  else match ExecArea.evalNumber eval.length eval.data with
    | .error flaw => Op.fail (.evalParseFailed flaw)
    | .ok commandRc => do
      let lines ← onCursor (Cursor.readNewLines outDd)
      return { serviceRc := r15, commandRc, reasonCode := 0, abendCode := 0, lines }

/-- Runs a command and collects what it appended to the stream. -/
def run (capability : Capability) (command : String) :
    Op (Linkage H × ExecCapture) CommandReport := do
  let command := Text.trim command
  if command = "" then Op.fail (.invalidCommand .empty)
  else
    let entry ← Op.onFirst (Linkage.fetch "IRXEXEC")
    let capture ← Op.gets Prod.snd
    catchUp capture
    let (r15, eval, rexxRc) ← Op.onFirst (callExec entry capability (capture.requestOf command))
    collect capture.outDd r15 eval rexxRc

end ExecCapture
end TsoBridge
