/-
The DD table of the simulated host: which dataset each DD stands for.
Names are held in upper case and listed in order. A DD without a name
gets one made of a running number.
-/
import TsoBridge.ControlBlock.WorkArea
import TsoBridge.Name.Basic
import TsoBridge.Table

namespace TsoBridge.Sim

/-- One allocated DD. -/
structure DdEntry where
  ddname : String
  dsname : String
  status : DatasetStatus
  /-- Whether the dataset goes when the DD is freed. -/
  temporary : Bool
deriving DecidableEq

/-- Why the DD table refuses a request. -/
inductive DdRefusal where
  | inUse
  | notFound
  | invalidName
deriving DecidableEq

/-- The reason code of a refusal, zero for a name that is none. -/
def DdRefusal.reason : DdRefusal → UInt16
  | .inUse => WorkArea.ddnameInUse
  | .notFound => WorkArea.ddnameNotFound
  | .invalidName => 0

/-- The allocated DDs and the next number of a made-up name. -/
@[ext]
structure DdTable where
  entries : Table String DdEntry := {}
  nextNumber : UInt32 := 1
  /-- The names ascend. -/
  ordered : entries.Ordered := by exact List.Pairwise.nil
deriving DecidableEq

namespace DdTable

/-- The DD of a name. -/
def lookup (table : DdTable) (ddname : String) : Option DdEntry :=
  table.entries.get? (Text.upper ddname)

/-- All DDs by name. -/
def list (table : DdTable) : List DdEntry :=
  table.entries.values

/-- The number of DDs. -/
def size (table : DdTable) : Nat :=
  table.entries.size

/-- Enters a DD under its name. -/
def enter (table : DdTable) (entry : DdEntry) : DdTable :=
  { table with
    entries := table.entries.insert entry.ddname entry
    ordered := table.ordered.insert entry.ddname entry }

/-- The table without the DD of a name. -/
def erase (table : DdTable) (ddname : String) : DdTable :=
  { table with
    entries := table.entries.erase ddname
    ordered := table.ordered.erase ddname }

/-- The name made of a number. -/
def systemName (number : UInt32) : String :=
  "SYS" ++ Text.decimalOf 5 number.toNat

/-- The first name that is not in use and is made of `number` or one of the
numbers after it, `fuel` of them, and the number after that. A name in use
that was tried is struck off, for no other number makes it. -/
def generateFrom (used : List String) (number : UInt32) : Nat → Outcome (String × UInt32)
  | 0 => trap
  | fuel + 1 => do
    let name := systemName number
    let next ← Word.successor number
    if used.contains name then generateFrom (used.erase name) next fuel else return (name, next)

/-- A name for a DD without one. Of as many names as there are DDs and
one more, one is unused. -/
def generate (table : DdTable) : Outcome (String × DdTable) := do
  let (name, nextNumber) ← generateFrom table.entries.keys table.nextNumber (table.size + 1)
  return (name, { table with nextNumber })

/-- Enters a DD under a name that is a DD name and not in use. -/
def enterNew (table : DdTable) (ddname dsname : String) (status : DatasetStatus)
    (temporary : Bool) : Except DdRefusal (String × DdTable) :=
  if table.entries.holds ddname then .error .inUse
  else .ok (ddname, table.enter { ddname, dsname := Text.upper dsname, status, temporary })

/-- Allocates a DD; the value is its name. -/
def allocate (table : DdTable) (ddname : Option String) (dsname : String)
    (status : DatasetStatus) (temporary : Bool) :
    Outcome (Except DdRefusal (String × DdTable)) :=
  match ddname with
  | some name =>
    match Name.ddnameFlaw? name with
    | some _ => .ok (.error .invalidName)
    | none => .ok (table.enterNew (Text.upper name) dsname status temporary)
  | none => do
    let (name, table) ← table.generate
    return table.enterNew name dsname status temporary

/-- Frees a DD; the value is what it was. -/
def unallocate (table : DdTable) (ddname : String) : Except DdRefusal (DdEntry × DdTable) :=
  match table.lookup ddname with
  | none => .error .notFound
  | some entry => .ok (entry, table.erase (Text.upper ddname))

end DdTable
end TsoBridge.Sim
