/-
The allocation services of the simulated host. Each finds its request in
the caller's work area, builds the parameter list a real service would
build there, looks at the DD table and the catalog, and leaves codes and
name in the request block.
-/
import TsoBridge.Sim.Service.Environment

namespace TsoBridge.Sim.Service

open WorkArea

/-- What a call of an allocation service is about. -/
structure AllocationCall where
  /-- The work area. -/
  area : Address
  /-- The request block in it. -/
  block : Address
  /-- Where the return code goes. -/
  rc : Address
  /-- Where the catalog return code goes. -/
  catalogRc : Address
  /-- The DD name asked for. -/
  requested : String
deriving DecidableEq

/-- How a request ends. -/
structure AllocationAnswer where
  rc : Int32 := 0
  reason : UInt16 := 0
  catalogRc : UInt16 := 0
  /-- The DD name reported. -/
  ddname : Option String := none
deriving DecidableEq

/-- The answer to a request that is refused. -/
def AllocationAnswer.refused (reason catalogRc : UInt16) : AllocationAnswer :=
  { rc := refusedRc, reason, catalogRc }

/-- The answer to a request that makes no sense. -/
def AllocationAnswer.malformed : AllocationAnswer :=
  { rc := malformedRc }

/-- The addresses in the caller's command processor list that a request
needs, zeros if there is none. -/
def callerAreas (cppl : Address) : Op (Machine SimHost) (Address × Address × Address) := do
  match ← (Machine.read cppl cpplSize).attempt with
  | .ok _ =>
    if cppl = 0 then return (0, 0, 0)
    else
      let upt ← Machine.readFull (← cppl.plus 4)
      let pscb ← Machine.readFull (← cppl.plus 8)
      let ect ← Machine.readFull (← cppl.plus 12)
      return (upt, pscb, ect)
  | .error _ => return (0, 0, 0)

/-- Takes in a call whose request block stands at `offset` of its work
area. -/
def receive (r1 : Address) (offset : Nat) : Op (Machine SimHost) AllocationCall := do
  let (cppl, ddname, rc, catalogRc, area) ← fiveParms r1
  let _ ← Machine.read area WorkArea.size
  let (upt, pscb, ect) ← callerAreas cppl
  let list ← area.plus listOffset
  let block ← area.plus offset
  Machine.writeFull (← list.plus 0) upt
  Machine.writeFull (← list.plus 4) ect
  Machine.writeFull (← list.plus 8) (← area.plus ecbOffset)
  Machine.writeFull (← list.plus 12) pscb
  Machine.writeFull (← list.plus 16) block
  let name ← Machine.read ddname 8
  return { area, block, rc, catalogRc, requested := CodePage.decodeField name }

/-- Leaves the DD name of an answer, if it has one. -/
def leaveName (call : AllocationCall) : Option String → Op (Machine SimHost) Unit
  | some ddname => do
    Machine.write (← call.block.plus Header.ddname) (CodePage.encodeField 8 ddname)
  | none => pure ()

/-- Leaves an answer; the value is the return code. -/
def finish (call : AllocationCall) (answer : AllocationAnswer) : Op (Machine SimHost) Int32 := do
  Machine.write (← call.block.plus Header.reason) (Word.ofHalf answer.reason)
  Machine.write (← call.block.plus Header.catalog) (Word.ofHalf answer.catalogRc)
  Machine.write (← call.block.plus Header.flags) [0]
  leaveName call answer.ddname
  Machine.writeSigned (← call.area.plus rcOffset) answer.rc
  Machine.writeFull (← call.area.plus reasonOffset) answer.reason.toUInt32
  Machine.writeSigned call.rc answer.rc
  Machine.writeFull call.catalogRc answer.catalogRc.toUInt32
  return answer.rc

-- ============================================================= allocate

/-- The dataset name a request points to; empty for none. -/
def requestedDsname (pointer : Address) : Op (Machine SimHost) String := do
  if pointer = 0 then return ""
  else
    let length ← Machine.readHalf pointer
    let name ← Machine.read (← pointer.plus 2) (min length.toNat dsnameLimit)
    return CodePage.decode name

/-- A name for a temporary dataset, made of the time and a running
number. -/
def temporaryName : Op (Machine SimHost) String := do
  let host ← theHost
  let number ← Word.successor host.tempSeq
  modifyHost fun host => { host with tempSeq := number, clock := host.clock.tick }
  let now := host.clock.now
  return "SYS" ++ now.julian ++ ".T" ++ now.clockDigits ++ ".RA000.LUZ"
    ++ Text.decimalOf 5 number.toNat

/-- Makes sure that a dataset is cataloged; one that is new or may be is
made, empty. The value says whether it is there. -/
def ensureDataset (dsname : String) (status : DatasetStatus) : Op (Machine SimHost) Bool := do
  if (← theHost).catalog.contains dsname then return true
  else if status = .new ∨ status = .mod then
    modifyHost fun host =>
      { host with catalog := host.catalog.define (Dataset.sequential dsname 80) }
    return true
  else return false

/-- The dataset of a temporary DD, empty. -/
def temporaryDataset (dsname : String) : Dataset :=
  { Dataset.sequential dsname Dataset.outputLrecl with temporary := true }

/-- The DD name a host reports for the one it allocated. -/
def reportedName (reply : DdnameReply) (ddname : String) : String :=
  match reply with
  | .overwrite text => text
  | _ => ddname

/-- Enters the DD and, for a temporary one, makes its dataset. -/
def bind (call : AllocationCall) (dsname : String) (status : DatasetStatus)
    (temporary : Bool) : Op (Machine SimHost) AllocationAnswer := do
  let host ← theHost
  let ddname :=
    if host.reply = .system ∨ call.requested = "" then none else some call.requested
  match ← host.dds.allocate ddname dsname status temporary with
  | .error refusal =>
    return if refusal.reason = 0 then .malformed else .refused refusal.reason 0
  | .ok (ddname, dds) =>
    modifyHost fun host =>
      { host with
        dds
        catalog :=
          if temporary then host.catalog.define (temporaryDataset dsname) else host.catalog }
    return { ddname := some (reportedName host.reply ddname) }

/-- Meets an allocate request with a known status. -/
def allocateAs (call : AllocationCall) (status : DatasetStatus) :
    Op (Machine SimHost) AllocationAnswer := do
  let pointer ← Machine.readFull (← call.block.plus Header.dsname)
  let dsname ← requestedDsname pointer
  if dsname = "" then bind call (← temporaryName) status true
  else
    let dsname := Text.upper dsname
    if ← ensureDataset dsname status then bind call dsname status false
    else return .refused dsnameNotFound 8

/-- The allocate service. -/
def allocate (r1 : Address) : Op (Machine SimHost) Int32 := do
  let call ← receive r1 allocateOffset
  let code ← Machine.readHalf (← call.block.plus Header.code)
  if code ≠ allocateCode then finish call .malformed
  else
    let flag ← Machine.read (← call.block.plus Header.status) 1
    match DatasetStatus.ofFlag? (flag.headD 0) with
    | none => finish call .malformed
    | some status => finish call (← allocateAs call status)

-- ================================================================= free

/-- Takes a DD out of the DD table and, for a temporary one, its dataset
out of the catalog. -/
def unbind (call : AllocationCall) : Op (Machine SimHost) AllocationAnswer := do
  let host ← theHost
  match host.dds.unallocate call.requested with
  | .error refusal => return .refused refusal.reason 0
  | .ok (entry, dds) =>
    modifyHost fun host =>
      { host with
        dds
        catalog := if entry.temporary then host.catalog.remove entry.dsname else host.catalog }
    return { ddname := some entry.ddname }

/-- The free service. -/
def free (r1 : Address) : Op (Machine SimHost) Int32 := do
  let call ← receive r1 freeOffset
  let code ← Machine.readHalf (← call.block.plus Header.code)
  if code ≠ freeCode then finish call .malformed
  else match (← theHost).freeFailure with
    | some reason => finish call (.refused reason 0)
    | none => finish call (← unbind call)

end TsoBridge.Sim.Service
