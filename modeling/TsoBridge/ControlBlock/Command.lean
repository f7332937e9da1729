/-
The blocks of the two calls that run a command. The prepare service
leaves a 16-byte token in its block; the execute service takes a call
block with the command text, that token and the DD its output goes to,
and leaves the command's codes in it. Each block is one area, and every
parameter of a call is an address inside it.
-/
import TsoBridge.Field
import TsoBridge.ParmList

namespace TsoBridge

-- ================================================================ flags

/-- The flags fullword of a call block. -/
structure CallFlags where
  authorized : Bool
  dump : Bool
  function : UInt8
deriving DecidableEq

namespace CallFlags

/-- Function byte: run a command. -/
def commandFunction : UInt8 := 0x01

/-- Run a command, unauthorized, without a dump. -/
def command : CallFlags :=
  { authorized := false, dump := false, function := commandFunction }

/-- Run a command, authorized, without a dump. -/
def authorizedCommand : CallFlags :=
  { command with authorized := true }

/-- The four bytes of the flags. -/
def toBytes (flags : CallFlags) : Bytes :=
  [0x00, if flags.authorized then 0x00 else 0x01, if flags.dump then 0x01 else 0x00,
   flags.function]

/-- The flags in four bytes. -/
def ofBytes (bytes : Bytes) : CallFlags :=
  { authorized := bytes.getD 1 0 == 0x00
    dump := bytes.getD 2 0 == 0x01
    function := bytes.getD 3 0 }

end CallFlags

/-- The length of a token. -/
def tokenSize : Nat := 16

-- ======================================================== prepare block

/-- What the prepare service leaves in its block. -/
structure PrepareResult where
  token : Bytes
  error : Int32
  abend : UInt32
  reason : UInt32
deriving DecidableEq

namespace PrepareBlock

/-- The size of the block. -/
def size : Nat := 36

/-- Where the token stands. -/
def token : Nat := 8

/-- Where the error code stands. -/
def error : Nat := 24

/-- Where the completion code stands. -/
def abend : Nat := 28

/-- Where the reason code stands. -/
def reason : Nat := 32

/-- The parameter list for a block at `base`. -/
def parms (base : Address) : Outcome ParmList := do
  let leading ← [0, 4, token, error, abend].mapM base.plus
  return { leading, last := ← base.plus reason }

/-- The results in a block. -/
def decode (block : Bytes) : Outcome PrepareResult := do
  let token ← Field.read block token tokenSize
  let error ← Field.readSigned block error
  let abend ← Field.readFull block abend
  let reason ← Field.readFull block reason
  return { token, error, abend, reason }

end PrepareBlock

-- =========================================================== call block

/-- A call block before the call. -/
structure CallBlock where
  flags : CallFlags
  /-- The command text in the host's code. -/
  command : Bytes
  token : Bytes
  /-- The DD the output goes to; the terminal without one. -/
  output : Option String := none
deriving DecidableEq

/-- What the execute service leaves in its call block. -/
structure ExecuteResult where
  commandRc : Int32
  reason : UInt32
  abend : UInt32
deriving DecidableEq

namespace CallBlock

/-- The most bytes of command text a service takes. -/
def maxCommand : Nat := 32767

/-- Where the flags stand. -/
def flagsAt : Nat := 0

/-- Where the length of the text stands. -/
def lengthAt : Nat := 4

/-- Where the command's return code stands. -/
def rcAt : Nat := 8

/-- Where the reason code stands. -/
def reasonAt : Nat := 12

/-- Where the completion code stands. -/
def abendAt : Nat := 16

/-- Where the parameters of a program would stand. -/
def programAt : Nat := 20

/-- Where the block's own, zero, command processor list stands. -/
def cpplAt : Nat := 24

/-- Where the token stands. -/
def tokenAt : Nat := 40

/-- Where the name of the output DD stands. -/
def outputAt : Nat := 56

/-- Where the text stands. -/
def commandAt : Nat := 64

/-- A call block for command text that is not empty and not too long. -/
def make (flags : CallFlags) (text : String) (token : Bytes) : Except Error CallBlock :=
  if text.utf8ByteSize = 0 then .error (.invalidCommand .emptyCall)
  else if maxCommand < text.utf8ByteSize then .error (.invalidCommand (.callTooLong maxCommand))
  else .ok { flags, command := CodePage.encode text, token }

/-- The size of the block. -/
def size (block : CallBlock) : Nat :=
  commandAt + block.command.length

/-- The fields of the block. -/
def fields (block : CallBlock) : List (Nat × Bytes) :=
  [(flagsAt, block.flags.toBytes),
   (lengthAt, Word.ofFull (UInt32.ofNat block.command.length)),
   (tokenAt, block.token),
   (outputAt, CodePage.encodeField 8 (block.output.getD "")),
   (commandAt, block.command)]

/-- The bytes of the block. -/
def encode (block : CallBlock) : Outcome Bytes :=
  Field.writeAll (List.replicate block.size 0) block.fields

/-- The parameter list for a block at `base`. Without a command processor
list of the caller, the block's own stands in. -/
def parms (base cppl : Address) : Outcome ParmList := do
  let cppl ← if cppl ≠ 0 then pure cppl else base.plus cpplAt
  let before ← [flagsAt, commandAt, lengthAt, rcAt, reasonAt, abendAt, programAt].mapM base.plus
  let token ← base.plus tokenAt
  return { leading := before ++ [cppl, token], last := ← base.plus outputAt }

/-- The results in a call block. -/
def decode (block : Bytes) : Outcome ExecuteResult := do
  let commandRc ← Field.readSigned block rcAt
  let reason ← Field.readFull block reasonAt
  let abend ← Field.readFull block abendAt
  return { commandRc, reason, abend }

end CallBlock

-- ========================================================= return codes

namespace ServiceRc

/-- The command ran and returned zero. -/
def ok : Int32 := 0

/-- The command ran and returned something else. -/
def commandRc : Int32 := 4

/-- The parameters were refused. -/
def parmError : Int32 := 20

/-- The token was refused. -/
def environmentError : Int32 := 24

end ServiceRc

-- ======================================================= abend codes

/-- The completion code of a command that ended abnormally. -/
inductive AbendCode where
  | system (code : UInt16)
  | user (code : UInt16)
deriving DecidableEq

namespace AbendCode

/-- The completion code in a fullword: the system code in bits 8 to 19,
the user code in bits 20 to 31, none if both are zero. -/
def ofWord? (word : UInt32) : Option AbendCode :=
  let system := (word.toNat / 0x1000) % 0x1000
  let user := word.toNat % 0x1000
  if system ≠ 0 then some (.system (UInt16.ofNat system))
  else if user ≠ 0 then some (.user (UInt16.ofNat user))
  else none

/-- The completion code as messages write it. -/
def title : AbendCode → String
  | .system code => "S" ++ Text.bareHexOf 3 code.toNat
  | .user code => "U" ++ Text.decimalOf 4 code.toNat

end AbendCode
end TsoBridge
