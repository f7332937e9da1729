/-
The interpreter service of the simulated host. It knows one kind of exec:
a member of the library behind the given DD, called with the function CMD
and a command, runs the command and appends its output to the DD given as
third argument. A verb that has to run authorized is refused in its
output.
-/
import TsoBridge.ControlBlock.Exec
import TsoBridge.Sim.Service.Command

namespace TsoBridge.Sim.Service

open ExecArea

/-- Return code of an exec that could not be run. -/
def notRun : Int32 := 20

/-- The most arguments a table may hold. -/
def maxArguments : Nat := 64

/-- The arguments of a table from `entry` on, `room` of them at most. -/
def argumentsFrom (storage : Storage) (entry : Address) : Nat → Outcome (List String)
  | 0 => fail (.invalidParmList .arguments)
  | room + 1 => do
    let pointer ← storage.readFull entry
    let length ← storage.readFull (← entry.plus 4)
    if pointer = argumentEnd ∧ length = argumentEnd then return []
    else
      let text := CodePage.decode (← storage.read pointer length.toNat)
      let next ← entry.plus 8
      if room = 0 then fail (.invalidParmList .arguments)
      else return text :: (← argumentsFrom storage next room)

/-- The arguments of a table. -/
def readArguments (storage : Storage) (table : Address) : Outcome (List String) :=
  argumentsFrom storage table (maxArguments + 1)

/-- The library member an exec block names, if the block is one. -/
def execName? (block : Bytes) : Option (String × String) :=
  let field (offset : Nat) : Bytes := (block.drop offset).take 8
  if CodePage.decode (field 0) = ExecBlock.acronym
      ∧ Word.valueOf ((block.drop ExecBlock.length).take 4) = ExecBlock.size then
    some (CodePage.decodeField (field ExecBlock.member),
          CodePage.decodeField (field ExecBlock.ddname))
  else none

/-- Whether the library behind a DD holds a member. -/
def holdsExec (host : SimHost) (member ddname : String) : Bool :=
  match (host.dds.lookup ddname).bind fun entry => host.catalog.get? entry.dsname with
  | some library => library.hasMember member
  | none => false

/-- Runs a command for an exec. -/
def runForExec (command : String) : Op (Machine SimHost) CommandResult := do
  let verb := (Command.parse command).name
  if (← theHost).authcmd.contains verb then
    return .error ("IKJ56503I COMMAND " ++ verb ++ " NOT SUPPORTED IN AN UNAUTHORIZED ENVIRONMENT")
  else runCommand command

/-- Length and bytes of the result of an exec: the return code in
decimal, unless another result stands for every one. -/
def resultOf (override : Option (Int32 × Bytes)) (rc : Int32) : Int32 × Bytes :=
  match override with
  | some result => result
  | none =>
    let digits := CodePage.encode (Text.signedDecimal rc.toInt)
    (Int32.ofNat digits.length, digits)

/-- Leaves the result of an exec in the evaluation block `pointer` points
to. -/
def leaveResult (pointer : Address) (rc : Int32) : Op (Machine SimHost) Unit := do
  let result := resultOf (← theHost).evalOverride rc
  let block : Address ← Machine.readFull pointer
  Machine.writeSigned (← block.plus EvalBlock.length) result.1
  Machine.write (← block.plus EvalBlock.data) (result.2.take EvalBlock.dataSize)

/-- Runs the command of an exec: its output goes to the DD, or to the
terminal if there is no such DD, its return code to the caller. -/
def performExec (p : Vector Address parmCount) (command ddname : String) :
    Op (Machine SimHost) Int32 := do
  let result ← runForExec command
  let known := ((← theHost).dds.lookup ddname).isSome
  sendOutput (if known then ddname else "") result.output
  leaveResult p[5] result.rc
  Machine.writeSigned p[9] 0
  return 0

/-- Answers that an exec could not be run. -/
def refuseExec (p : Vector Address parmCount) : Op (Machine SimHost) Int32 := do
  Machine.writeSigned p[9] 0
  return notRun

/-- Runs an exec that was found. -/
def runExec (p : Vector Address parmCount) : Op (Machine SimHost) Int32 := do
  let table ← Machine.readFull p[1]
  let arguments ← Op.examine fun machine : Machine SimHost => readArguments machine.storage table
  match arguments with
  | function :: command :: rest =>
    if Text.sameLetters function "CMD" then performExec p command (rest.headD "TSOOUT")
    else refuseExec p
  | _ => refuseExec p

/-- The interpreter service. -/
def interpret (r1 : Address) : Op (Machine SimHost) Int32 := do
  let p ← parms parmCount r1
  let pointer ← Machine.readFull p[0]
  let block ← Machine.read pointer ExecBlock.size
  let host ← theHost
  match execName? block with
  | some (member, ddname) => if holdsExec host member ddname then runExec p else refuseExec p
  | none => refuseExec p

end TsoBridge.Sim.Service
