/-
A host that misbehaves on demand: it stands in front of another host and
spoils chosen calls and readings, so that the engine's behaviour towards
any host can be tried out. Calls are counted by module from 1.
-/
import TsoBridge.Host
import TsoBridge.ParmList

namespace TsoBridge

/-- Bytes to be written to where a parameter points. -/
structure Poke where
  /-- The number of the parameter, from 0. -/
  parm : Nat
  offset : Nat := 0
  data : Bytes
deriving DecidableEq

/-- What happens to the calls of a module. -/
structure CallFault where
  module : String
  /-- Only the call with this number; every call without it. -/
  nth : Option Nat := none
  /-- What register 15 is set to. -/
  r15 : Option Int32 := none
  /-- Whether the call never reaches the host. -/
  skip : Bool := false
  pokes : List Poke := []
  /-- The parameters whose blocks are released. -/
  frees : List Nat := []
deriving DecidableEq

/-- A host behind faults. -/
structure RiggedHost (H : Type) where
  inner : H
  faults : List CallFault := []
  /-- The DDs whose streams break off, with the number of bytes before
  that. -/
  streamErrors : List (String × Nat) := []
  /-- The DDs whose records break off, with the number of successful reads
  before that; the end of the data is one. -/
  recordErrors : List (String × Nat) := []
  counts : Table String Nat := {}

namespace RiggedHost

variable {H : Type}

/-- What a broken device reports. -/
def report : String := "injected"

/-- The parameter with a number, from the list at `r1`. -/
def parameter (storage : Storage) (r1 : Address) (number : Nat) : Outcome Address := do
  let word ← storage.readFull (← r1.plus (4 * number))
  return ParmList.address word

/-- Writes to where a parameter points, if that can be done. -/
def applyPoke (r1 : Address) (storage : Storage) (poke : Poke) : Storage :=
  let written : Outcome Storage := do
    let target ← parameter storage r1 poke.parm
    storage.write (← target.plus poke.offset) poke.data
  match written with
  | .ok after => after
  | .error _ => storage

/-- Releases the block a parameter points to, if that can be done. -/
def applyFree (r1 : Address) (storage : Storage) (number : Nat) : Storage :=
  let released : Outcome Storage := do
    storage.release (← parameter storage r1 number)
  match released with
  | .ok after => after
  | .error _ => storage

/-- Spoils storage and register 15 after a call. -/
def applyFault (r1 : Address) (state : Int32 × Storage) (fault : CallFault) : Int32 × Storage :=
  let poked := fault.pokes.foldl (applyPoke r1) state.2
  let freed := fault.frees.foldl (applyFree r1) poked
  (fault.r15.getD state.1, freed)

/-- The faults of one call. -/
def faultsOf (host : RiggedHost H) (module : String) (number : Nat) : List CallFault :=
  host.faults.filter fun fault =>
    fault.module = module && (fault.nth.isNone || fault.nth = some number)

/-- A stream that breaks off as told. -/
def spoilStream (host : RiggedHost H) (ddname : String) (source : ByteSource) : ByteSource :=
  match host.streamErrors.lookup ddname with
  | none => source
  | some n => { bytes := source.bytes.take n, failure := some report }

/-- Records that break off as told. -/
def spoilRecords (host : RiggedHost H) (ddname : String) (source : RecordSource) : RecordSource :=
  match host.recordErrors.lookup ddname with
  | none => source
  | some n =>
    if n ≤ source.records.length then
      { records := source.records.take n, failure := some (.readFailed ddname (.device report)) }
    else source

variable [Host H]

/-- Takes a call. -/
def call (machine : Machine (RiggedHost H)) (entry : EntryPoint) (r1 : Address) :
    Option Int32 × Machine (RiggedHost H) :=
  let rigged := machine.host
  let number := (rigged.counts.get? entry.module).getD 0 + 1
  let rigged := { rigged with counts := rigged.counts.insert entry.module number }
  let faults := rigged.faultsOf entry.module number
  let (answer, after) :=
    if faults.any CallFault.skip then
      (some 0, { host := rigged.inner, storage := machine.storage })
    else Host.call { host := rigged.inner, storage := machine.storage } entry r1
  let host := { rigged with inner := after.host }
  match answer with
  | none => (none, { host, storage := after.storage })
  | some r15 =>
    let (r15, storage) := faults.foldl (applyFault r1) (r15, after.storage)
    (some r15, { host, storage })

end RiggedHost

instance {H : Type} [Host H] : Host (RiggedHost H) where
  load rigged module :=
    let (found, inner) := Host.load rigged.inner module
    (found, { rigged with inner })
  call := RiggedHost.call
  openRecords rigged ddname :=
    let (source, inner) := Host.openRecords rigged.inner ddname
    (source.map fun found => found.map (rigged.spoilRecords ddname), { rigged with inner })
  openStream rigged ddname :=
    let (source, inner) := Host.openStream rigged.inner ddname
    (source.map (rigged.spoilStream ddname), { rigged with inner })
  putLine rigged text level :=
    let (result, inner) := Host.putLine rigged.inner text level
    (result, { rigged with inner })

end TsoBridge
