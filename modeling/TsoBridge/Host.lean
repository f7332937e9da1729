/-
What the engine needs of the system it drives: to find a load module, to
branch to it with a parameter list, to open a DD for reading by record or
as a stream, and to write a line to the terminal. Nothing is assumed of a
host beyond this: a call may return anything and leave anything in
storage.

A branch answers with register 15, or not at all when the host itself
trapped; in both cases the machine is what the host left. Reading a DD is
finite, and may stop short of the end of the data with a failure.
-/
import TsoBridge.Storage

namespace TsoBridge

/-- A load module that was found. -/
structure EntryPoint where
  module : String
  address : Address
deriving DecidableEq

/-- How serious a terminal message is. -/
inductive MessageLevel where
  | info
  | warning
  | error
deriving DecidableEq

namespace MessageLevel

/-- The level with the number 0, 1 or 2. -/
def ofNumber? (level : Int) : Option MessageLevel :=
  if level = 0 then some .info
  else if level = 1 then some .warning
  else if level = 2 then some .error
  else none

/-- The level as reports write it. -/
def title : MessageLevel → String
  | .info => "info"
  | .warning => "warning"
  | .error => "error"

end MessageLevel

/-- The records of a DD: those that can be read, and the failure that
ends the reading unless it ends with the data. -/
structure RecordSource where
  records : List Bytes
  failure : Option Error := none
deriving DecidableEq

/-- The bytes of a DD: those that can be read, and the report of the
device that ends the reading unless it ends with the data. -/
structure ByteSource where
  bytes : Bytes
  failure : Option String := none
deriving DecidableEq

-- =============================================================== machine

/-- A host and the storage it shares with the engine. -/
structure Machine (H : Type) where
  host : H
  storage : Storage := {}

namespace Machine

variable {H : Type} {α : Type}

/-- An operation on the host alone. -/
def onHost (x : Op H α) : Op (Machine H) α :=
  x.on Machine.host fun machine host => { machine with host }

/-- An operation on the storage alone. -/
def onStorage (x : Op Storage α) : Op (Machine H) α :=
  x.on Machine.storage fun machine storage => { machine with storage }

/-- Obtains storage. -/
def obtain (subpool : UInt8) (length : Nat) : Op (Machine H) Address :=
  onStorage (Op.update fun storage => storage.obtain subpool length)

/-- Obtains storage and fills it. -/
def obtainWith (subpool : UInt8) (data : Bytes) : Op (Machine H) Address :=
  onStorage (Op.update fun storage => storage.obtainWith subpool data)

/-- Writes to storage. -/
def write (address : Address) (data : Bytes) : Op (Machine H) Unit :=
  onStorage (Op.update fun storage => do return ((), ← storage.write address data))

/-- Writes a fullword to storage. -/
def writeFull (address : Address) (value : UInt32) : Op (Machine H) Unit :=
  write address (Word.ofFull value)

/-- Writes a signed fullword to storage. -/
def writeSigned (address : Address) (value : Int32) : Op (Machine H) Unit :=
  write address (Word.ofSigned value)

/-- Reads from storage. -/
def read (address : Address) (length : Nat) : Op (Machine H) Bytes :=
  Op.examine fun machine => machine.storage.read address length

/-- Reads a halfword from storage. -/
def readHalf (address : Address) : Op (Machine H) UInt16 :=
  Op.examine fun machine => machine.storage.readHalf address

/-- Reads a fullword from storage. -/
def readFull (address : Address) : Op (Machine H) UInt32 :=
  Op.examine fun machine => machine.storage.readFull address

/-- Reads a signed fullword from storage. -/
def readSigned (address : Address) : Op (Machine H) Int32 :=
  Op.examine fun machine => machine.storage.readSigned address

end Machine

-- ============================================================== services

/-- The services of a host. -/
class Host (H : Type) where
  /-- Finds a load module. -/
  load : H → String → Option EntryPoint × H
  /-- Branches to a module with `r1` in register 1; the value is what it
  leaves in register 15, none if it trapped. -/
  call : Machine H → EntryPoint → (r1 : Address) → Option Int32 × Machine H
  /-- Opens a DD by record; no source means that it has to be read as a
  stream. -/
  openRecords : H → (ddname : String) → Except Error (Option RecordSource) × H
  /-- Opens a DD as a stream of lines. -/
  openStream : H → (ddname : String) → Except Error ByteSource × H
  /-- Writes a line to the terminal. -/
  putLine : H → String → MessageLevel → Except Error Unit × H

end TsoBridge
