/-
Blocks of storage. A block may be as large as the address space, so its
contents are kept in runs: what was written, byte by byte, and the
stretches nobody wrote, which are zero, by their length alone.

`Runs.bytes` is the contents in full. Cutting runs is cutting that list
(`bytes_take`, `bytes_drop`), so reading and writing a block are reading
and writing it (`Block.read_eq`, `Block.bytes_write`).
-/
import TsoBridge.CodePage

namespace TsoBridge

-- ================================================================= runs

/-- A stretch of a block. -/
inductive Run where
  /-- Zero bytes. -/
  | zeros (count : Nat)
  /-- Bytes that were written. -/
  | data (bytes : Bytes)
deriving DecidableEq

namespace Run

/-- The bytes of a run. -/
def bytes : Run → Bytes
  | .zeros count => List.replicate count 0
  | .data bytes => bytes

/-- The number of bytes of a run. -/
def size : Run → Nat
  | .zeros count => count
  | .data bytes => bytes.length

/-- The first `count` bytes of a run. -/
def take (count : Nat) : Run → Run
  | .zeros total => .zeros (min count total)
  | .data bytes => .data (bytes.take count)

/-- A run without its first `count` bytes. -/
def drop (count : Nat) : Run → Run
  | .zeros total => .zeros (total - count)
  | .data bytes => .data (bytes.drop count)

/-- A run has as many bytes as its size says. -/
theorem length_bytes (run : Run) : run.bytes.length = run.size := by
  cases run <;> simp [bytes, size]

/-- Cutting a run behind `count` bytes cuts its bytes there. -/
theorem bytes_take (count : Nat) (run : Run) :
    (run.take count).bytes = run.bytes.take count := by
  cases run <;> simp [bytes, take, List.take_replicate]

/-- So does cutting it in front. -/
theorem bytes_drop (count : Nat) (run : Run) :
    (run.drop count).bytes = run.bytes.drop count := by
  cases run <;> simp [bytes, drop, List.drop_replicate]

end Run

namespace Runs

/-- The bytes of adjacent runs. -/
def bytes (runs : List Run) : Bytes :=
  runs.flatMap Run.bytes

/-- The number of bytes of adjacent runs. -/
def size : List Run → Nat
  | [] => 0
  | run :: rest => run.size + size rest

/-- The runs of the first `count` bytes. -/
def take (count : Nat) : List Run → List Run
  | [] => []
  | run :: rest =>
    if count = 0 then []
    else if run.size ≤ count then run :: take (count - run.size) rest
    else [run.take count]

/-- The runs of all but the first `count` bytes. -/
def drop (count : Nat) : List Run → List Run
  | [] => []
  | run :: rest =>
    if run.size ≤ count then drop (count - run.size) rest
    else run.drop count :: rest

/-- The size of a list of runs is the length of what they stand for. -/
theorem length_bytes (runs : List Run) : (bytes runs).length = size runs := by
  induction runs with
  | nil => rfl
  | cons run rest ih =>
    rw [bytes, List.flatMap_cons, List.length_append, run.length_bytes, size, ← ih, bytes]

/-- The first bytes of the runs are the first bytes they stand for. -/
theorem bytes_take (count : Nat) (runs : List Run) :
    bytes (take count runs) = (bytes runs).take count := by
  induction runs generalizing count with
  | nil => simp [bytes, take]
  | cons run rest ih =>
    have hlen := run.length_bytes
    simp only [bytes] at ih
    simp only [bytes, take, List.flatMap_cons, List.take_append, hlen]
    split
    next h => simp [h]
    split
    next h =>
      rw [List.flatMap_cons, ih,
        List.take_of_length_le (by omega : run.bytes.length ≤ count)]
    next h =>
      rw [List.flatMap_cons, run.bytes_take, show count - run.size = 0 by omega]
      simp

/-- And the rest of them the rest. -/
theorem bytes_drop (count : Nat) (runs : List Run) :
    bytes (drop count runs) = (bytes runs).drop count := by
  induction runs generalizing count with
  | nil => simp [bytes, drop]
  | cons run rest ih =>
    have hlen := run.length_bytes
    simp only [bytes] at ih
    simp only [bytes, drop, List.flatMap_cons, List.drop_append, hlen]
    split
    next h =>
      rw [ih, List.drop_eq_nil_of_le (by omega : run.bytes.length ≤ count), List.nil_append]
    next h =>
      rw [List.flatMap_cons, run.bytes_drop, show count - run.size = 0 by omega]
      simp

end Runs

-- =============================================================== blocks

/-- A block of storage. -/
structure Block where
  /-- The subpool it was obtained from. -/
  subpool : UInt8
  /-- Its contents. -/
  runs : List Run
deriving DecidableEq

namespace Block

/-- A block of zeros. -/
def zeros (subpool : UInt8) (length : Nat) : Block :=
  { subpool, runs := [.zeros length] }

/-- All bytes of a block. -/
def bytes (block : Block) : Bytes :=
  Runs.bytes block.runs

/-- The length of a block. -/
def length (block : Block) : Nat :=
  Runs.size block.runs

/-- `count` bytes from `offset`. -/
def read (block : Block) (offset count : Nat) : Bytes :=
  Runs.bytes (Runs.take count (Runs.drop offset block.runs))

/-- The block with `data` at `offset`. -/
def write (block : Block) (offset : Nat) (data : Bytes) : Block :=
  { block with
    runs := Runs.take offset block.runs ++ [.data data]
      ++ Runs.drop (offset + data.length) block.runs }

/-- Reading from the runs reads from the bytes of the block. -/
theorem read_eq (block : Block) (offset count : Nat) :
    block.read offset count = (block.bytes.drop offset).take count := by
  rw [read, Runs.bytes_take, Runs.bytes_drop, bytes]

/-- A write replaces the bytes it covers and keeps the others. -/
theorem bytes_write (block : Block) (offset : Nat) (data : Bytes) :
    (block.write offset data).bytes
      = block.bytes.take offset ++ data ++ block.bytes.drop (offset + data.length) := by
  have htake := Runs.bytes_take offset block.runs
  have hdrop := Runs.bytes_drop (offset + data.length) block.runs
  simp only [Runs.bytes] at htake hdrop
  simp only [bytes, write, Runs.bytes, List.flatMap_append, htake, hdrop,
    List.flatMap_cons, List.flatMap_nil, List.append_nil, Run.bytes]

end Block
end TsoBridge
