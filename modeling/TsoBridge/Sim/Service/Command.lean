/-
The command services of the simulated host: prepare hands out tokens,
execute runs a command for whoever brings one of them. A verb that has to
run authorized runs only through the authorized command processor, with
the authorized flag and the marker in front of the text.
-/
import TsoBridge.Invocation
import TsoBridge.Sim.Service.Environment

namespace TsoBridge.Sim.Service

-- ============================================================== prepare

/-- The token made of a number. -/
def tokenOf (number : UInt32) : Bytes :=
  CodePage.encode ("EFTSI" ++ Text.decimalOf 11 number.toNat)

/-- The prepare service. -/
def prepare (r1 : Address) : Op (Machine SimHost) Int32 := do
  let p ← parms 6 r1
  let host ← theHost
  match host.prepareError with
  | some (error, reason) =>
    Machine.write p[2] (List.replicate tokenSize 0)
    Machine.writeSigned p[3] error
    Machine.writeFull p[4] 0
    Machine.writeFull p[5] reason
    return error
  | none =>
    let token := tokenOf host.nextToken
    let nextToken ← Word.successor host.nextToken
    modifyHost fun host => { host with nextToken, tokens := token :: host.tokens }
    Machine.write p[2] token
    Machine.writeSigned p[3] 0
    Machine.writeFull p[4] 0
    Machine.writeFull p[5] 0
    return 0

-- =============================================================== output

/-- Appends lines to the dataset behind a DD. -/
def appendLines (ddname : String) : List String → Op (Machine SimHost) Unit
  | [] => return ()
  | line :: rest => do
    Machine.onHost (Op.update fun host => do return ((), ← host.appendTo ddname line))
    appendLines ddname rest

/-- Sends lines to the dataset behind a DD, or to the terminal without
one. -/
def sendOutput (ddname : String) (lines : List String) : Op (Machine SimHost) Unit :=
  if ddname = "" then
    modifyHost fun host =>
      { host with terminal := host.terminal ++ lines.map fun line => (.info, line) }
  else appendLines ddname lines

/-- Runs a command line. -/
def runCommand (text : String) : Op (Machine SimHost) CommandResult :=
  Machine.onHost fun host =>
    let (result, after) := host.execute text
    (.ok result, after)

-- ============================================================== execute

/-- Reason code: the function is not a command. -/
def reasonFunction : UInt32 := 0x04

/-- Reason code: there is no text, or too much. -/
def reasonLength : UInt32 := 0x08

/-- Reason code: flag, marker and service do not agree on
authorization. -/
def reasonNotAuthorized : UInt32 := 0x14

/-- Reason code: nobody handed out that token. -/
def reasonToken : UInt32 := 0x18

/-- Reason code: the output DD is not allocated. -/
def reasonOutput : UInt32 := 0x1C

/-- Reason code: the command has to run authorized. -/
def reasonAuthcmd : UInt32 := 0x28

/-- The parameters of an execute call. -/
structure ExecuteParms where
  flags : Address
  text : Address
  length : Address
  rc : Address
  reason : Address
  abend : Address
  token : Address
  output : Option Address
deriving DecidableEq

/-- The parameters of a list of nine or ten. -/
def ExecuteParms.ofList : List Address → Outcome ExecuteParms
  | [flags, text, length, rc, reason, abend, _, _, token] =>
    .ok { flags, text, length, rc, reason, abend, token, output := none }
  | [flags, text, length, rc, reason, abend, _, _, token, output] =>
    .ok { flags, text, length, rc, reason, abend, token, output := some output }
  | parms => fail (.invalidParmList (.serviceCount parms.length))

/-- Leaves the codes of a call; the value is what goes to register 15. -/
def leave (p : ExecuteParms) (r15 rc : Int32) (reason : UInt32) :
    Op (Machine SimHost) Int32 := do
  Machine.writeSigned p.rc rc
  Machine.writeFull p.reason reason
  Machine.writeFull p.abend 0
  return r15

/-- The name of the output DD; empty for none. -/
def outputName (p : ExecuteParms) : Op (Machine SimHost) String :=
  Op.examine fun machine =>
    match p.output with
    | none => .ok ""
    | some address => do return CodePage.decodeField (← machine.storage.read address 8)

/-- `text` without a marker in front, if the marker is there. -/
def stripMarker? (marker text : String) : Option String :=
  if marker.toList.isPrefixOf text.toList then
    some (String.ofList (text.toList.drop marker.toList.length))
  else none

/-- The command in the text of a call, if service, flag and marker agree
on authorization. -/
def commandText? (viaProcessor : Bool) (flags : CallFlags) (text : String) : Option String :=
  if viaProcessor then
    if flags.authorized then stripMarker? Route.marker text else none
  else if flags.authorized then none else some text

/-- Runs a command that is accepted: its output goes to the DD, its codes
to the caller. -/
def perform (p : ExecuteParms) (output command : String) : Op (Machine SimHost) Int32 := do
  let result ← runCommand command
  sendOutput output result.output
  leave p (if result.rc = 0 then ServiceRc.ok else ServiceRc.commandRc) result.rc 0

/-- Runs the text of a call whose token was handed out. -/
def runText (viaProcessor : Bool) (p : ExecuteParms) (flags : CallFlags) (text : String) :
    Op (Machine SimHost) Int32 := do
  let output ← outputName p
  match commandText? viaProcessor flags text with
  | none => leave p ServiceRc.parmError 0 reasonNotAuthorized
  | some command =>
    let host ← theHost
    if !viaProcessor && host.authcmd.contains (Command.parse command).name then
      leave p ServiceRc.parmError 0 reasonAuthcmd
    else if output ≠ "" ∧ (host.dds.lookup output).isNone then
      leave p ServiceRc.parmError 0 reasonOutput
    else perform p output command

/-- The execute service, reached directly or through the authorized
command processor. -/
def execute (viaProcessor : Bool) (r1 : Address) : Op (Machine SimHost) Int32 := do
  let words ← Op.examine fun machine : Machine SimHost => ParmList.decode machine.storage r1
  let p ← ExecuteParms.ofList words
  let flags := CallFlags.ofBytes (← Machine.read p.flags 4)
  if flags.function ≠ CallFlags.commandFunction then
    leave p ServiceRc.parmError 0 reasonFunction
  else
    let length := (← Machine.readFull p.length).toNat
    if length = 0 ∨ CallBlock.maxCommand < length then
      leave p ServiceRc.parmError 0 reasonLength
    else
      let text := CodePage.decode (← Machine.read p.text length)
      let token ← Machine.read p.token tokenSize
      if (← theHost).tokens.contains token then runText viaProcessor p flags text
      else leave p ServiceRc.environmentError 0 reasonToken

end TsoBridge.Sim.Service
