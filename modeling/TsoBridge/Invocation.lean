/-
Running one command: prepare, then execute. Prepare obtains a token from
the host; execute hands it back together with the command text, the
command processor list and the output DD. An invocation only moves
forward,

    idle → preparing → prepared → executing → succeeded
               ↓                      ↓
             failed                 failed

so execute is never called unless prepare succeeded, and neither is
called twice.
-/
import TsoBridge.ControlBlock.Command
import TsoBridge.Environment
import TsoBridge.Name.Basic
import TsoBridge.Text.Blank

namespace TsoBridge

/-- The service that executes a command. -/
inductive Route where
  /-- The command service, unauthorized. -/
  | standard
  /-- The authorized command processor, which wants a marker in front of
  the text. -/
  | authorizedProcessor
deriving DecidableEq

namespace Route

/-- The load module of a route. -/
def module : Route → String
  | .standard => "IKJEFTSR"
  | .authorizedProcessor => "TSOEFTR"

/-- The call flags of a route. -/
def flags : Route → CallFlags
  | .standard => CallFlags.command
  | .authorizedProcessor => CallFlags.authorizedCommand

/-- The marker in front of an authorized command. -/
def marker : String := "LUZAUTH "

/-- The text a route takes for a command. -/
def textOf (route : Route) (command : String) : String :=
  match route with
  | .standard => command
  | .authorizedProcessor => marker ++ command

end Route

/-- What a command returned. -/
structure CommandReport where
  /-- Register 15 of the execute service. -/
  serviceRc : Int32
  commandRc : Int32
  reasonCode : UInt32
  abendCode : UInt32
  /-- Captured output. -/
  lines : List String := []
deriving DecidableEq

/-- The completion code of a command that ended abnormally. -/
def CommandReport.abend (report : CommandReport) : Option AbendCode :=
  AbendCode.ofWord? report.abendCode

/-- One command on its way through prepare and execute. -/
structure Invocation where
  route : Route
  text : String
  output : Option DdName
  progress : Progress := .idle
  token : Option Bytes := none
deriving DecidableEq

namespace Invocation

variable {H : Type}

/-- An invocation of a command that is not empty and not too long. -/
def make (route : Route) (command : String) (output : Option DdName) :
    Except Error Invocation :=
  let command := Text.trim command
  if command = "" then .error (.invalidCommand .empty)
  else
    let text := route.textOf command
    if CallBlock.maxCommand < text.utf8ByteSize then
      .error (.invalidCommand (.tooLong text.utf8ByteSize CallBlock.maxCommand))
    else .ok { route, text, output }

/-- The moves an invocation may make. -/
def mayMove : Progress → Progress → Bool
  | .idle, .preparing => true
  | .preparing, .prepared => true
  | .preparing, .failed => true
  | .prepared, .executing => true
  | .executing, .succeeded => true
  | .executing, .failed => true
  | _, _ => false

/-- Moves on, or refuses a move out of order. -/
def advance (target : Progress) : Op (Linkage H × Invocation) Unit := do
  let source ← Op.gets fun s => s.2.progress
  if mayMove source target then
    Op.onSecond (Op.modify fun invocation => { invocation with progress := target })
  else Op.fail (.invalidState source target)

-- ============================================================ the calls

variable [Host H]

/-- The prepare modules, the preferred one first. -/
def prepareModules : List String := ["IKJTSFI", "IKJEFTSI"]

/-- The prepare and execute modules of a route. -/
def resolve (route : Route) : Op (Linkage H) (EntryPoint × EntryPoint) := do
  let prepare ← Linkage.fetchFirst prepareModules
  let execute ← Linkage.fetch route.module
  return (prepare, execute)

/-- Hands a prepare block to a prepare service; the value is what it leaves
in register 15 and in the block. -/
def sendPrepare (entry : EntryPoint) : Op (Linkage H) (Int32 × PrepareResult) :=
  Linkage.framed do
    let base ← Linkage.obtain PrepareBlock.size
    let r15 ← Linkage.call entry (← PrepareBlock.parms base)
    let result ← PrepareBlock.decode (← Linkage.read base PrepareBlock.size)
    return (r15, result)

/-- Calls the prepare service; the value is the token. -/
def callPrepare (entry : EntryPoint) : Op (Linkage H) Bytes := do
  let (r15, result) ← sendPrepare entry
  if r15 ≠ 0 ∨ result.error ≠ 0 ∨ result.abend ≠ 0 then
    let rc := if result.error ≠ 0 then result.error else r15
    Op.fail (.invocationFailed .prepare rc result.reason result.abend)
  else return result.token

/-- The token of an invocation, once it has one. -/
def heldToken (invocation : Invocation) : Except Error Bytes :=
  match invocation.token with
  | some token => .ok token
  | none => .error (.invalidState .idle .executing)

/-- Hands a call block to an execute service; the value is what it leaves
in register 15 and in the block. -/
def sendBlock (entry : EntryPoint) (capability : Capability) (block : CallBlock) :
    Op (Linkage H) (Int32 × ExecuteResult) :=
  Linkage.framed do
    let base ← Linkage.obtainWith (← block.encode)
    let r15 ← Linkage.call entry (← CallBlock.parms base capability.cppl)
    let result ← CallBlock.decode (← Linkage.read base block.size)
    return (r15, result)

/-- The report of a command that ran, or the refusal of the service. -/
def reportOf (r15 : Int32) (result : ExecuteResult) : Except Error CommandReport :=
  if r15 ≠ ServiceRc.ok ∧ r15 ≠ ServiceRc.commandRc then
    .error (.invocationFailed .execute r15 result.reason result.abend)
  else
    .ok { serviceRc := r15, commandRc := result.commandRc, reasonCode := result.reason,
          abendCode := result.abend }

/-- Calls the execute service with a token. -/
def callExecute (capability : Capability) (invocation : Invocation) :
    Op (Linkage H) CommandReport := do
  let token ← invocation.heldToken
  let entry ← Linkage.fetch invocation.route.module
  let bare ← CallBlock.make invocation.route.flags invocation.text token
  let answer ← sendBlock entry capability { bare with output := invocation.output.map DdName.text }
  reportOf answer.1 answer.2

-- ============================================================ the steps

/-- Finds the modules of a route and obtains a token. -/
def obtainToken (route : Route) : Op (Linkage H) Bytes := do
  let (entry, _) ← resolve route
  callPrepare entry

/-- Obtains the token. -/
def prepare : Op (Linkage H × Invocation) Unit := do
  advance .preparing
  let route ← Op.gets fun s => s.2.route
  match ← (Op.onFirst (obtainToken route)).attempt with
  | .ok token =>
    Op.onSecond (Op.modify fun invocation => { invocation with token := some token })
    advance .prepared
  | .error cause =>
    advance .failed
    Op.fail cause

/-- Runs the command. -/
def execute (capability : Capability) : Op (Linkage H × Invocation) CommandReport := do
  advance .executing
  let invocation ← Op.gets Prod.snd
  match ← (Op.onFirst (callExecute capability invocation)).attempt with
  | .ok report =>
    advance .succeeded
    return report
  | .error cause =>
    advance .failed
    Op.fail cause

/-- Prepares and executes a command. -/
def run (capability : Capability) (route : Route) (command : String) (output : Option DdName) :
    Op (Linkage H) CommandReport := do
  let invocation ← make route command output
  Op.beside invocation do
    prepare
    execute capability

end Invocation
end TsoBridge
