/-
Reading output back as lines. A private output DD is read whole: record
by record where the host offers records, otherwise as a stream cut at its
line ends. The shared output DD is read from a cursor, so each reading
returns only what was appended since the one before; a stream shorter
than the cursor has been started anew, and is read from its start.

In either form trailing filler is not part of a line.
-/
import TsoBridge.Linkage
import TsoBridge.Text.Line

namespace TsoBridge

namespace Output

variable {H : Type}

-- ================================================================ lines

/-- Whether a byte is filler at the end of a line. -/
def isFiller (byte : UInt8) : Bool :=
  byte == CodePage.space || byte == 0 || byte == CodePage.carriageReturn
    || byte == CodePage.newLine || byte == CodePage.lineFeed

/-- A record without its trailing filler. -/
def trimRecord (record : Bytes) : Bytes :=
  CodePage.chopTail isFiller record

/-- A record as a line. -/
def lineOf (record : Bytes) : String :=
  CodePage.decode (trimRecord record)

/-- Whether a byte ends a line of a stream. -/
def endsLine (byte : UInt8) : Bool :=
  byte == CodePage.newLine || byte == CodePage.lineFeed

/-- The lines of a stream. What follows the last line end is a line of
its own unless it is empty. -/
def splitStream (bytes : Bytes) : List String :=
  let parts := Text.split endsLine bytes
  let kept := if (bytes.getLast?.map endsLine).getD true then parts.dropLast else parts
  kept.map lineOf

-- ============================================================= whole DDs

variable [Host H]

/-- Opens a DD by record. -/
def openRecords (ddname : String) : Op (Linkage H) (Option RecordSource) := fun link =>
  let (source, host) := Host.openRecords link.host ddname
  (Outcome.ofExcept source, { link with host })

/-- Opens a DD as a stream. -/
def openStream (ddname : String) : Op (Linkage H) ByteSource := fun link =>
  let (source, host) := Host.openStream link.host ddname
  (Outcome.ofExcept source, { link with host })

/-- The failure of a device while a DD is read. -/
def deviceFailure (ddname report : String) : Error :=
  .readFailed (Text.upper ddname) (.device report)

/-- All bytes of a stream from `skip` on, or the failure of the
device. -/
def drain (ddname : String) (source : ByteSource) (skip : Nat) : Except Error Bytes :=
  match source.failure with
  | some report => .error (deviceFailure ddname report)
  | none => .ok (source.bytes.drop skip)

/-- All lines of a DD, by record if possible. -/
def readLines (ddname : String) : Op (Linkage H) (List String) := do
  match ← openRecords ddname with
  | some source =>
    match source.failure with
    | some cause => Op.fail cause
    | none => return source.records.map lineOf
  | none =>
    let source ← openStream ddname
    return splitStream (← drain ddname source 0)

end Output

-- ============================================================== cursors

/-- A place in a stream that keeps growing. -/
structure Cursor where
  /-- The number of bytes read before. -/
  offset : Nat := 0
  /-- Whether the place was ever taken from the stream. -/
  synced : Bool := false
deriving DecidableEq

namespace Cursor

variable {H : Type}

/-- Goes back to the start. -/
def reset (cursor : Cursor) : Cursor :=
  { cursor with offset := 0 }

variable [Host H]

/-- Goes to the end of a DD. -/
def syncToEnd (ddname : String) : Op (Linkage H × Cursor) Unit := do
  let source ← Op.onFirst (Output.openStream ddname)
  let bytes ← Output.drain ddname source 0
  Op.onSecond (Op.modify fun _ => { offset := bytes.length, synced := true })

/-- The bytes of a DD after the first `skip`; none if there are not that
many. A device failure counts only once it is reached. -/
def readFrom (ddname : String) (skip : Nat) : Op (Linkage H) (Option Bytes) := do
  let source ← Output.openStream ddname
  if skip ≤ source.bytes.length then return some (← Output.drain ddname source skip)
  else match source.failure with
    | some report => Op.fail (Output.deviceFailure ddname report)
    | none => return none

/-- The lines appended to a DD since the last reading. -/
def readNewLines (ddname : String) : Op (Linkage H × Cursor) (List String) := do
  let offset ← Op.gets fun s => s.2.offset
  let fresh ← match ← Op.onFirst (readFrom ddname offset) with
    | some fresh => pure fresh
    | none =>
      Op.onSecond (Op.modify reset)
      pure ((← Op.onFirst (readFrom ddname 0)).getD [])
  Op.onSecond (Op.modify fun cursor => { offset := cursor.offset + fresh.length, synced := true })
  return Output.splitStream fresh

end Cursor
end TsoBridge
