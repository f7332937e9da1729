/-
The call area of the interpreter service: pointers, flags and return
code, the block that names the exec, the block its result comes back in,
and the table of arguments with their texts behind it.

    +0    address of the exec block
    +4    address of the argument table
    +8    flags
    +12   address of the evaluation block
    +16   return code of the interpreter
    +24   exec block          48
    +72   evaluation block   272
    +344  argument table, then the texts

The result of an exec is a decimal number in the host's code, read by
`evalNumber`.
-/
import TsoBridge.Field
import TsoBridge.ParmList

namespace TsoBridge

/-- A request to run one exec as a function. -/
structure ExecRequest where
  member : String
  ddname : String
  subcommand : String
  arguments : List String
deriving DecidableEq

/-- What stands in the evaluation block after a call. -/
structure EvalResult where
  /-- The length as stored; it may be negative or too large. -/
  length : Int32
  data : Bytes
deriving DecidableEq

namespace ExecArea

-- =============================================================== layout

/-- Where the address of the exec block stands. -/
def execPointer : Nat := 0

/-- Where the address of the argument table stands. -/
def argumentPointer : Nat := 4

/-- Where the flags stand. -/
def flags : Nat := 8

/-- Where the address of the evaluation block stands. -/
def evalPointer : Nat := 12

/-- Where the interpreter's return code stands. -/
def rexxRc : Nat := 16

/-- Where the exec block stands. -/
def execBlock : Nat := 24

/-- Where the evaluation block stands. -/
def evalBlock : Nat := 72

/-- Where the argument table stands. -/
def arguments : Nat := 344

namespace ExecBlock

/-- Size of the block. -/
def size : Nat := 48

/-- Its eye-catcher. -/
def acronym : String := "IRXEXECB"

/-- Where the size stands. -/
def length : Nat := 8

/-- Where the name of the exec stands. -/
def member : Nat := 16

/-- Where the DD of the library stands. -/
def ddname : Nat := 24

/-- Where the subcommand environment stands. -/
def subcommand : Nat := 32

end ExecBlock

namespace EvalBlock

/-- Where the size in doublewords stands. -/
def size : Nat := 4

/-- Where the length of the result stands. -/
def length : Nat := 8

/-- Where the result stands. -/
def data : Nat := 16

/-- The room for the result. -/
def dataSize : Nat := 256

/-- The size of the block in doublewords. -/
def doublewords : UInt32 := 34

end EvalBlock

/-- Flags: run the exec as an external function. -/
def externalFunction : UInt32 := 0x20000000

/-- The word that ends the argument table, twice. -/
def argumentEnd : UInt32 := 0xFFFFFFFF

/-- The number of parameters of the service. -/
abbrev parmCount : Nat := 10

-- ============================================================= requests

/-- The size of the argument table. -/
def tableSize (request : ExecRequest) : Nat :=
  (request.arguments.length + 1) * 8

/-- The room for the texts of the arguments. -/
def textSize (request : ExecRequest) : Nat :=
  (request.arguments.map String.utf8ByteSize).foldr (· + ·) 0

/-- The size of the area. -/
def size (request : ExecRequest) : Nat :=
  arguments + tableSize request + max (textSize request) 1

/-- Writes the argument table from `entry` on and the texts from `text`
on, then the end of the table. -/
def writeArguments (base : Address) (area : Bytes) (entry text : Nat) :
    List String → Outcome Bytes
  | [] => Field.writeAll area [(entry, Word.ofFull argumentEnd), (entry + 4, Word.ofFull argumentEnd)]
  | argument :: rest => do
    let bytes := CodePage.encode argument
    let target ← base.plus text
    let area ← Field.writeAll area
      [(entry, Word.ofFull target), (entry + 4, Word.ofFull (UInt32.ofNat bytes.length)),
       (text, bytes)]
    writeArguments base area (entry + 8) (text + bytes.length) rest

/-- The bytes of the area as it will stand at `base`. -/
def encode (request : ExecRequest) (base : Address) : Outcome Bytes := do
  let exec ← base.plus execBlock
  let table ← base.plus arguments
  let eval ← base.plus evalBlock
  let area ← Field.writeAll (List.replicate (size request) 0)
    [(execPointer, Word.ofFull exec),
     (argumentPointer, Word.ofFull table),
     (flags, Word.ofFull externalFunction),
     (evalPointer, Word.ofFull eval),
     (execBlock, CodePage.encode ExecBlock.acronym),
     (execBlock + ExecBlock.length, Word.ofFull (UInt32.ofNat ExecBlock.size)),
     (execBlock + ExecBlock.member, CodePage.encodeField 8 request.member),
     (execBlock + ExecBlock.ddname, CodePage.encodeField 8 request.ddname),
     (execBlock + ExecBlock.subcommand, CodePage.encodeField 8 request.subcommand),
     (evalBlock + EvalBlock.size, Word.ofFull EvalBlock.doublewords)]
  writeArguments base area arguments (arguments + tableSize request) request.arguments

/-- The parameter list for an area at `base`; the fifth parameter is the
command processor list, the unused ones are zero. -/
def parms (base cppl : Address) : Outcome ParmList := do
  let exec ← base.plus execPointer
  let table ← base.plus argumentPointer
  let flags ← base.plus flags
  let eval ← base.plus evalPointer
  return { leading := [exec, table, flags, 0, cppl, eval, 0, 0, 0], last := ← base.plus rexxRc }

-- ============================================================== answers

/-- The evaluation block of an area. -/
def decodeEval (area : Bytes) : Outcome EvalResult := do
  let length ← Field.readSigned area (evalBlock + EvalBlock.length)
  let data ← Field.read area (evalBlock + EvalBlock.data) EvalBlock.dataSize
  return { length, data }

/-- The interpreter's return code in an area. -/
def decodeRc (area : Bytes) : Outcome Int32 :=
  Field.readSigned area rexxRc

-- =============================================================== result

/-- Whether a byte is a digit of the host's code. -/
def isDigit (byte : UInt8) : Bool :=
  CodePage.zero ≤ byte && byte ≤ CodePage.zero + 9

/-- The value of a run of digits on top of `magnitude`, as long as it
stays within 2^31. `text` is the number in messages. -/
def accumulate (text : String) (magnitude : Nat) : Bytes → Except EvalFlaw Nat
  | [] => .ok magnitude
  | byte :: rest =>
    if !isDigit byte then .error (.digit byte)
    else
      let next := magnitude * 10 + (byte.toNat - CodePage.zero.toNat)
      if 0x80000000 < next then .error (.overflow text) else accumulate text next rest

/-- The number in the first `length` bytes: an optional minus sign and
digits, within a signed fullword. -/
def evalNumber (length : Int32) (data : Bytes) : Except EvalFlaw Int32 :=
  if length ≤ 0 then .error (.length length)
  else
    let count := length.toInt.toNat
    if EvalBlock.dataSize < count || data.length < count then .error (.overrun count)
    else
      let value := data.take count
      let text := CodePage.decode value
      let negative := value.head? == some CodePage.minus
      let digits := if negative then value.drop 1 else value
      if digits.isEmpty then .error .signOnly
      else do
        let magnitude ← accumulate text 0 digits
        if !negative && magnitude == 0x80000000 then .error (.overflow text)
        else .ok (Int32.ofInt (if negative then -(magnitude : Int) else magnitude))

end ExecArea
end TsoBridge
