/-
What a script asks for when it allocates or frees a DD, and how it writes
it: `X`, `FILE(X) DA('A.B') SHR`, `DD(X),NEW`.
-/
import TsoBridge.ControlBlock.WorkArea
import TsoBridge.Name.Basic
import TsoBridge.Operand.Basic

namespace TsoBridge

/-- A request to allocate. -/
structure AllocationRequest where
  /-- The DD name; one is generated without it. -/
  ddname : Option String
  /-- The dataset; a temporary one without it. -/
  dsname : Option String
  status : DatasetStatus
deriving DecidableEq

namespace AllocationRequest

/-- A temporary dataset under a given or a generated name. -/
def temporary (ddname : Option String) : AllocationRequest :=
  { ddname := ddname.map Text.upper, dsname := none, status := .new }

/-- The keywords that name the DD. -/
def ddnameKeywords : List String := ["FILE", "F", "DDNAME", "DD"]

/-- The keywords that name the dataset. -/
def dsnameKeywords : List String := ["DATASET", "DSNAME", "DSN", "DA"]

/-- The DD an operand list names, by keyword or as its only word. -/
def ddnameOf (operands : Command) (text : String) : Except Error String :=
  match operands.keyword ddnameKeywords, operands.positional with
  | some ddname, [] => .ok ddname
  | none, [ddname] => .ok ddname
  | none, [] => .error (.invalidCommand .noDdname)
  | _, _ => .error (.invalidCommand (.ambiguous (Text.trim text)))

/-- The one status among the flags, if there are flags at all. -/
def statusOf (found : Option DatasetStatus) : List String → Except Error (Option DatasetStatus)
  | [] => .ok found
  | flag :: rest =>
    match DatasetStatus.ofKeyword? flag, found with
    | none, _ => .error (.invalidCommand (.operand flag))
    | some _, some _ => .error (.invalidCommand .manyStatuses)
    | some status, none => statusOf (some status) rest

/-- Reads the operands of an allocation. -/
def parse (text : String) : Except Error AllocationRequest := do
  let operands := Command.ofOperands text
  let ddname ← ddnameOf operands text
  Name.checkDdname ddname
  let dsname := (operands.keyword dsnameKeywords).map Text.upper
  match dsname with
  | some name => Name.checkDsname name
  | none => pure ()
  let recognised := ddnameKeywords ++ dsnameKeywords
  match operands.keywords.find? fun entry => !recognised.contains entry.1 with
  | some (key, _) => throw (.invalidCommand (.keyword key))
  | none => pure ()
  let status ← statusOf none operands.flags
  let default := if dsname.isSome then .shr else .new
  return { ddname := some ddname, dsname, status := status.getD default }

end AllocationRequest

/-- Reads the operand of a FREE: `X` or `FILE(X)`. -/
def DdName.ofFree (text : String) : Except Error DdName :=
  let operands := Command.ofOperands text
  match operands.keyword AllocationRequest.ddnameKeywords, operands.positional with
  | some ddname, [] => DdName.ofString ddname
  | none, [ddname] => DdName.ofString ddname
  | _, _ => .error (.invalidCommand (.notOneDdname (Text.trim text)))

end TsoBridge
