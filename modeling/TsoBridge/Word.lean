/-
Machine words as bytes, the most significant byte first. `bytesOf` writes
the low-order bytes of a number, `valueOf` reads a run of bytes as a
number; for a run of the right length the two undo each other.

Addresses are fullwords. A sum of an address and a displacement that does
not fit one is a trap (`Address.plus`), as is an index beyond a
doubleword or a run of bytes longer than any that can be held.
-/
import TsoBridge.Outcome

namespace TsoBridge

namespace Word

/-- The `width` low-order bytes of a number. -/
def bytesOf : Nat → Nat → Bytes
  | 0, _ => []
  | width + 1, n => bytesOf width (n / 256) ++ [UInt8.ofNat n]

/-- The number a run of bytes stands for. -/
def valueOf (bytes : Bytes) : Nat :=
  bytes.foldl (fun n byte => n * 256 + byte.toNat) 0

/-- The two bytes of a halfword. -/
def ofHalf (value : UInt16) : Bytes :=
  bytesOf 2 value.toNat

/-- The four bytes of a fullword. -/
def ofFull (value : UInt32) : Bytes :=
  bytesOf 4 value.toNat

/-- The four bytes of a signed fullword. -/
def ofSigned (value : Int32) : Bytes :=
  ofFull value.toUInt32

/-- A halfword from its bytes. -/
def toHalf (bytes : Bytes) : UInt16 :=
  UInt16.ofNat (valueOf bytes)

/-- A fullword from its bytes. -/
def toFull (bytes : Bytes) : UInt32 :=
  UInt32.ofNat (valueOf bytes)

/-- A signed fullword from its bytes. -/
def toSigned (bytes : Bytes) : Int32 :=
  (toFull bytes).toInt32

/-- One more than the largest index. -/
def indexLimit : Nat := 0x10000000000000000

/-- The sum of two indices, which must be an index again. -/
def addIndex (a b : Nat) : Outcome Nat :=
  if a + b < indexLimit then .ok (a + b) else trap

/-- The length of the longest run of bytes that can be held. -/
def runLimit : Nat := 0x7FFFFFFFFFFFFFFF

/-- Checks that a run of `length` bytes can be held. -/
def checkRun (length : Nat) : Outcome Unit :=
  if length ≤ runLimit then .ok () else trap

/-- The fullword after `value`, which must be a fullword again. -/
def successor (value : UInt32) : Outcome UInt32 :=
  if value.toNat + 1 < UInt32.size then .ok (value + 1) else trap

end Word

/-- The address `offset` bytes after `address`, which must be an address
again. -/
def Address.plus (address : Address) (offset : Nat) : Outcome Address :=
  if address.toNat + offset < UInt32.size then .ok (UInt32.ofNat (address.toNat + offset))
  else trap

end TsoBridge
