/-
Batch scripts: one operation a line.

    # comments start with '#' or '*'
    alloc FILE(IN) DA('IBMUSER.INPUT.DATA') SHR
    cmd LISTDS 'IBMUSER.INPUT.DATA'
    authcmd PARMLIB LIST
    msg 1 input checked
    free IN
    exit 0

A script is read as a whole before anything runs, so a line that makes no
sense leaves nothing half done.
-/
import TsoBridge.Text.Blank
import TsoBridge.Text.Case
import TsoBridge.Text.Line
import TsoBridge.Text.Numeral

namespace TsoBridge

open Text

/-- An operation of a batch script. -/
inductive BatchOp where
  | cmd (text : String) (authorized : Bool)
  | alloc (operands : String)
  | free (operands : String)
  | msg (level : Option Int) (text : String)
  | exit (code : Option Int)
deriving DecidableEq

/-- The word a line with that operation starts with. -/
def BatchOp.title : BatchOp → String
  | .cmd _ false => "cmd"
  | .cmd _ true => "authcmd"
  | .alloc _ => "alloc"
  | .free _ => "free"
  | .msg _ _ => "msg"
  | .exit _ => "exit"

/-- What is wrong with a line of a script. -/
inductive BatchFlaw where
  /-- The operation needs an operand. -/
  | needs (verb what : String)
  /-- The exit code is no number. -/
  | exitCode (text : String)
  /-- There is no such operation. -/
  | unknown (verb : String)
deriving DecidableEq

/-- A line of a script that makes no sense. -/
structure BatchError where
  line : Nat
  flaw : BatchFlaw
deriving DecidableEq

/-- The message of a line that makes no sense. -/
def BatchError.message (failure : BatchError) : String :=
  "line " ++ decimal failure.line ++ ": " ++ match failure.flaw with
    | .needs verb what => verb ++ " needs " ++ what
    | .exitCode text => "exit code '" ++ text ++ "' is not a number"
    | .unknown verb => "unknown operation '" ++ verb ++ "'"

namespace Batch

/-- A line's first word and the rest. -/
def splitWord (line : List Char) : List Char × List Char :=
  match cut isBlank line with
  | some (word, rest) => (word, trimmed rest)
  | none => (line, [])

/-- A message: a number in front of the text is its level. -/
def messageOf (rest : List Char) : BatchOp :=
  let plain := .msg none (String.ofList rest)
  match cut isBlank rest with
  | none => plain
  | some (first, text) =>
    match integer? (String.ofList first) with
    | some level => .msg (some level) (String.ofList (trimmed text))
    | none => plain

/-- Reads the operation of a line that is neither blank nor a comment. -/
def operation (line : List Char) : Except BatchFlaw BatchOp :=
  let (word, rest) := splitWord line
  let verb := String.ofList word
  let name := lower verb
  let operand (what : String) : Except BatchFlaw String :=
    if rest.isEmpty then .error (.needs verb what) else .ok (String.ofList rest)
  if name = "cmd" then (operand "a command").map fun text => .cmd text false
  else if name = "authcmd" then (operand "a command").map fun text => .cmd text true
  else if name = "alloc" then (operand "an allocation").map .alloc
  else if name = "free" then (operand "a DDname").map .free
  else if name = "msg" then .ok (messageOf rest)
  else if name = "exit" then
    if rest.isEmpty then .ok (.exit none)
    else match integer? (String.ofList rest) with
      | some code => .ok (.exit (some code))
      | none => .error (.exitCode (String.ofList rest))
  else .error (.unknown name)

/-- Whether a line without the blanks around it holds no operation. -/
def isSkipped (line : List Char) : Bool :=
  line.isEmpty || line.head? == some '#' || line.head? == some '*'

/-- Reads lines, the first of which has the given number. -/
def readLines (number : Nat) : List String → Except BatchError (List (Nat × BatchOp))
  | [] => .ok []
  | raw :: rest =>
    let line := trimmed raw.toList
    if isSkipped line then readLines (number + 1) rest
    else match operation line with
      | .error flaw => .error { line := number, flaw }
      | .ok op => (readLines (number + 1) rest).map ((number, op) :: ·)

/-- Reads a script: its operations with their line numbers. -/
def parse (source : String) : Except BatchError (List (Nat × BatchOp)) :=
  readLines 1 (lines source)

end Batch
end TsoBridge
