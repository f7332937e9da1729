/-
Datasets of the simulated host: fixed-length records, a library of which
only the directory is kept, or a stream of lines.
-/
import TsoBridge.Table
import TsoBridge.Text.Case
import TsoBridge.Word

namespace TsoBridge.Sim

/-- What a dataset holds. -/
inductive DatasetBody where
  /-- Records of one length, filled with blanks. -/
  | records (lrecl : Nat) (records : List Bytes)
  /-- The directory of a library. -/
  | library (members : Table String Unit)
  /-- Lines, each ended by a new line byte. -/
  | stream (bytes : Bytes)
deriving DecidableEq

/-- A dataset. -/
structure Dataset where
  name : String
  body : DatasetBody
  /-- Whether it goes when its DD is freed. -/
  temporary : Bool := false
deriving DecidableEq

namespace Dataset

/-- The record length of command output. -/
def outputLrecl : Nat := 133

/-- A dataset of records, empty. -/
def sequential (name : String) (lrecl : Nat) : Dataset :=
  { name := Text.upper name, body := .records lrecl [] }

/-- A library with the given members. -/
def library (name : String) (members : List String) : Dataset :=
  let directory := members.foldl (fun table member => table.insert (Text.upper member) ()) {}
  { name := Text.upper name, body := .library directory }

/-- A stream, empty. -/
def stream (name : String) : Dataset :=
  { name := Text.upper name, body := .stream [] }

-- ============================================================ appending

/-- Cuts bytes into at most `fuel` pieces of `width`. -/
def piecesWithin (width : Nat) : Nat → Bytes → List Bytes
  | 0, _ => []
  | _ + 1, [] => []
  | fuel + 1, byte :: rest =>
    (byte :: rest).take width :: piecesWithin width fuel ((byte :: rest).drop width)

/-- Cuts bytes into pieces of `width`, the last one possibly shorter. -/
def pieces (width : Nat) (bytes : Bytes) : List Bytes :=
  piecesWithin width bytes.length bytes

/-- The records of a line: pieces of the record length filled with
blanks, one blank record for an empty line. -/
def recordsOf (lrecl : Nat) (line : Bytes) : List Bytes :=
  if line.isEmpty then [CodePage.fill lrecl []]
  else (pieces lrecl line).map (CodePage.fill lrecl)

/-- The dataset with one more line, in the form the dataset has. A
library takes no lines. -/
def push (dataset : Dataset) (line : String) : Dataset :=
  let bytes := CodePage.encode line
  match dataset.body with
  | .records lrecl records =>
    { dataset with body := .records lrecl (records ++ recordsOf lrecl bytes) }
  | .stream held => { dataset with body := .stream (held ++ bytes ++ [CodePage.newLine]) }
  | .library _ => dataset

/-- Appends a line; records trap if they have no length or one that
cannot be held. -/
def append (dataset : Dataset) (line : String) : Outcome Dataset :=
  match dataset.body with
  | .records lrecl _ =>
    if lrecl = 0 ∨ Word.runLimit < lrecl then trap else .ok (dataset.push line)
  | _ => .ok (dataset.push line)

-- ============================================================== queries

/-- The contents as a stream of lines. -/
def streamBytes (dataset : Dataset) : Bytes :=
  match dataset.body with
  | .records _ records => records.flatMap fun record => record ++ [CodePage.newLine]
  | .stream bytes => bytes
  | .library _ => []

/-- The organization as listings write it. -/
def dsorg (dataset : Dataset) : String :=
  match dataset.body with
  | .library _ => "PO"
  | _ => "PS"

/-- The record format as listings write it. -/
def recfm (dataset : Dataset) : String :=
  match dataset.body with
  | .records lrecl _ => "FB  LRECL=" ++ Text.decimal lrecl
  | .library _ => "U"
  | .stream _ => "VB"

/-- Whether the dataset is a library with that member. -/
def hasMember (dataset : Dataset) (member : String) : Bool :=
  match dataset.body with
  | .library members => members.contains (Text.upper member)
  | _ => false

end Dataset
end TsoBridge.Sim
