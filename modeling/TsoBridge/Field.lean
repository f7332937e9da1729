/-
Fields at fixed offsets of a buffer. Control blocks mix halfwords and
fullwords at offsets that need not be aligned, so every access names its
offset and width and is checked against the buffer: a field that does not
fit is a `bufferOverrun` and leaves the buffer as it was.
-/
import TsoBridge.Word

namespace TsoBridge.Field

/-- A buffer of zeros. -/
def zeros (size : Nat) : Outcome Bytes := do
  Word.checkRun size
  return List.replicate size 0

/-- A buffer that holds the first `width` characters of a text, filled
with blanks. -/
def ofText (width : Nat) (s : String) : Outcome Bytes := do
  Word.checkRun width
  return CodePage.encodeField width s

/-- Checks that `width` bytes at `offset` lie within the buffer. -/
def check (buffer : Bytes) (offset width : Nat) : Outcome Unit := do
  let stop ← Word.addIndex offset width
  if stop ≤ buffer.length then .ok () else fail (.bufferOverrun offset width buffer.length)

/-- The `width` bytes at `offset`. -/
def read (buffer : Bytes) (offset width : Nat) : Outcome Bytes := do
  check buffer offset width
  return (buffer.drop offset).take width

/-- The buffer with `data` at `offset`. -/
def write (buffer : Bytes) (offset : Nat) (data : Bytes) : Outcome Bytes := do
  check buffer offset data.length
  return buffer.take offset ++ data ++ buffer.drop (offset + data.length)

/-- The byte at `offset`. -/
def readByte (buffer : Bytes) (offset : Nat) : Outcome UInt8 := do
  let bytes ← read buffer offset 1
  return UInt8.ofNat (Word.valueOf bytes)

/-- The halfword at `offset`. -/
def readHalf (buffer : Bytes) (offset : Nat) : Outcome UInt16 := do
  return Word.toHalf (← read buffer offset 2)

/-- The fullword at `offset`. -/
def readFull (buffer : Bytes) (offset : Nat) : Outcome UInt32 := do
  return Word.toFull (← read buffer offset 4)

/-- The signed fullword at `offset`. -/
def readSigned (buffer : Bytes) (offset : Nat) : Outcome Int32 := do
  return Word.toSigned (← read buffer offset 4)

/-- The buffer with a byte at `offset`. -/
def writeByte (buffer : Bytes) (offset : Nat) (value : UInt8) : Outcome Bytes :=
  write buffer offset [value]

/-- The buffer with a halfword at `offset`. -/
def writeHalf (buffer : Bytes) (offset : Nat) (value : UInt16) : Outcome Bytes :=
  write buffer offset (Word.ofHalf value)

/-- The buffer with a fullword at `offset`. -/
def writeFull (buffer : Bytes) (offset : Nat) (value : UInt32) : Outcome Bytes :=
  write buffer offset (Word.ofFull value)

/-- The buffer with a signed fullword at `offset`. -/
def writeSigned (buffer : Bytes) (offset : Nat) (value : Int32) : Outcome Bytes :=
  write buffer offset (Word.ofSigned value)

/-- The buffer with several fields written, in this order. -/
def writeAll (buffer : Bytes) : List (Nat × Bytes) → Outcome Bytes
  | [] => .ok buffer
  | (offset, data) :: rest => do writeAll (← write buffer offset data) rest

end TsoBridge.Field
