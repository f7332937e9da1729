/-
The storage that engine and host share: blocks at 31-bit addresses,
obtained first fit and doubleword aligned. Every parameter list, control
block and work area handed to a host service lives here, so what stands
in a parameter list is an address one can follow.

Each block belongs to a subpool. While a frame is open, every block
obtained outside the host's subpool is noted in the innermost frame, and
closing the frame releases what was noted. Blocks of the host's subpool
outlive every frame.
-/
import TsoBridge.Storage.Block
import TsoBridge.Table
import TsoBridge.Word

namespace TsoBridge

-- ============================================================== storage

/-- The address space. -/
structure Storage where
  /-- Live blocks by their address. -/
  blocks : Table Address Block := {}
  /-- Open frames, the innermost first, each with the addresses obtained
  in it. -/
  frames : List (List Address) := []
deriving DecidableEq

namespace Storage

/-- The lowest address handed out. -/
def regionStart : Nat := 0x10000

/-- The highest address of a 31-bit address space. -/
def addressLimit : Nat := 0x7FFFFFFF

/-- The subpool of the engine's own areas. -/
def engineSubpool : UInt8 := 0

/-- The subpool of what the host keeps between calls. -/
def hostSubpool : UInt8 := 78

/-- A length rounded up to a doubleword. -/
def extent (length : Nat) : Nat :=
  (length + 7) / 8 * 8

/-- Where a run of `size` bytes fits at or after `cursor`, given the
blocks that may be in the way in ascending order. -/
def firstGap (size : Nat) (cursor : Nat) : List (Address × Block) → Nat
  | [] => cursor
  | (start, block) :: rest =>
    if size ≤ start.toNat - cursor then cursor
    else firstGap size (max cursor (start.toNat + extent block.length)) rest

/-- Obtains `length` zero bytes at the lowest address where they fit. -/
def obtain (storage : Storage) (subpool : UInt8) (length : Nat) : Outcome (Address × Storage) := do
  if length = 0 then fail (.obtainFailed length .zeroLength)
  let _ ← Word.addIndex length 7
  let size := extent length
  let start := firstGap size regionStart storage.blocks.entries
  let stop ← Word.addIndex start size
  if addressLimit < stop then fail (.obtainFailed length .exhausted)
  let address := UInt32.ofNat start
  let frames := match storage.frames with
    | [] => []
    | frame :: outer => if subpool = hostSubpool then frame :: outer else (address :: frame) :: outer
  return (address, { blocks := storage.blocks.insert address (.zeros subpool length), frames })

/-- Releases the block that starts at `address`. -/
def release (storage : Storage) (address : Address) : Outcome Storage :=
  if storage.blocks.contains address then
    .ok { storage with blocks := storage.blocks.erase address }
  else fail (.releaseFailed address)

/-- Opens a frame. -/
def openFrame (storage : Storage) : Storage :=
  { storage with frames := [] :: storage.frames }

/-- Closes the innermost frame and releases what it holds. -/
def closeFrame (storage : Storage) : Storage :=
  match storage.frames with
  | [] => storage
  | frame :: outer => { blocks := frame.foldl Table.erase storage.blocks, frames := outer }

/-- The last block that starts at or below `address`. -/
def nearest (storage : Storage) (address : Address) : Option (Address × Block) :=
  (storage.blocks.entries.filter fun entry => decide (entry.1 ≤ address)).getLast?

/-- The block that holds `length` bytes at `address`, and their offset in
it. -/
def locate (storage : Storage) (address : Address) (length : Nat) :
    Outcome (Address × Block × Nat) :=
  match storage.nearest address with
  | none => fail (.addressFault address length)
  | some (start, block) => do
    let offset := address.toNat - start.toNat
    let stop ← Word.addIndex offset length
    if stop ≤ block.length then return (start, block, offset)
    else fail (.addressFault address length)

/-- The `length` bytes at `address`. -/
def read (storage : Storage) (address : Address) (length : Nat) : Outcome Bytes := do
  let (_, block, offset) ← storage.locate address length
  return block.read offset length

/-- The storage with `data` at `address`. -/
def write (storage : Storage) (address : Address) (data : Bytes) : Outcome Storage := do
  let (start, block, offset) ← storage.locate address data.length
  return { storage with blocks := storage.blocks.insert start (block.write offset data) }

/-- The fullword at `address`. -/
def readFull (storage : Storage) (address : Address) : Outcome UInt32 := do
  return Word.toFull (← storage.read address 4)

/-- The signed fullword at `address`. -/
def readSigned (storage : Storage) (address : Address) : Outcome Int32 := do
  return Word.toSigned (← storage.read address 4)

/-- The halfword at `address`. -/
def readHalf (storage : Storage) (address : Address) : Outcome UInt16 := do
  return Word.toHalf (← storage.read address 2)

/-- The storage with a fullword at `address`. -/
def writeFull (storage : Storage) (address : Address) (value : UInt32) : Outcome Storage :=
  storage.write address (Word.ofFull value)

/-- The storage with a signed fullword at `address`. -/
def writeSigned (storage : Storage) (address : Address) (value : Int32) : Outcome Storage :=
  storage.write address (Word.ofSigned value)

/-- Obtains a block and fills it with `data`. -/
def obtainWith (storage : Storage) (subpool : UInt8) (data : Bytes) :
    Outcome (Address × Storage) := do
  let (address, larger) ← storage.obtain subpool data.length
  return (address, ← larger.write address data)

/-- The number of live blocks. -/
def blockCount (storage : Storage) : Nat :=
  storage.blocks.size

/-- The number of live blocks of one subpool. -/
def subpoolCount (storage : Storage) (subpool : UInt8) : Nat :=
  storage.blocks.values.countP fun block => block.subpool == subpool

end Storage
end TsoBridge
