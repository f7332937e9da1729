/-
Why an operation fails. Each cause is a constructor that carries what is
known about it; the wording of every message is in this file and nowhere
else. Causes that several operations share but word differently (a flaw
of a name, of command text, of a setting, of a parameter list) are types
of their own below `Error`.
-/
import TsoBridge.CodePage
import TsoBridge.Text.Numeral

namespace TsoBridge

open Text

/-- An address of the simulated address space. -/
abbrev Address := UInt32

-- ============================================================== flaws

/-- What is wrong with a DD or dataset name. -/
inductive NameFlaw where
  /-- It is empty or longer than `limit` bytes. -/
  | length (limit : Nat)
  /-- It starts with a digit or a character no name may hold. -/
  | start
  /-- It holds a character no name may hold. -/
  | character (c : Char)
  /-- One of the qualifiers of a dataset name is flawed. -/
  | qualifier (text : String) (flaw : NameFlaw)
deriving DecidableEq

/-- The wording of a flaw of a name. -/
def NameFlaw.message : NameFlaw → String
  | .length limit => "must be 1-" ++ decimal limit ++ " characters"
  | .start => "must start with a letter or national character (@#$)"
  | .character c => "invalid character '" ++ String.singleton c ++ "'"
  | .qualifier text flaw => "qualifier '" ++ text ++ "' " ++ flaw.message

/-- Why command text or the operands of a request cannot be used. -/
inductive CommandFlaw where
  /-- There is nothing but blanks. -/
  | empty
  /-- The text with its marker is longer than the service takes. -/
  | tooLong (size limit : Nat)
  /-- A call block was asked for without text. -/
  | emptyCall
  /-- A call block was asked for with more text than it can hold. -/
  | callTooLong (limit : Nat)
  /-- An authorized command was sent to the interpreter. -/
  | authorizedCapture
  /-- An allocation names no DD. -/
  | noDdname
  /-- An allocation names its DD in more than one way. -/
  | ambiguous (operands : String)
  /-- A keyword no allocation takes. -/
  | keyword (key : String)
  /-- A word no allocation takes. -/
  | operand (word : String)
  /-- More than one dataset status. -/
  | manyStatuses
  /-- A FREE that does not name exactly one DD. -/
  | notOneDdname (operands : String)
deriving DecidableEq

/-- The wording of a flaw of command text. -/
def CommandFlaw.message : CommandFlaw → String
  | .empty => "command text is empty"
  | .tooLong size limit => "command is " ++ decimal size ++ " bytes, limit is " ++ decimal limit
  | .emptyCall => "empty command text"
  | .callTooLong limit => "command text exceeds " ++ decimal limit ++ " bytes"
  | .authorizedCapture => "authorized commands need direct capture"
  | .noDdname => "allocation needs a DDname"
  | .ambiguous operands => "ambiguous allocation operands '" ++ operands ++ "'"
  | .keyword key => "unsupported allocation keyword " ++ key
  | .operand word => "unsupported allocation operand " ++ word
  | .manyStatuses => "more than one dataset status"
  | .notOneDdname operands => "FREE needs exactly one DDname, got '" ++ operands ++ "'"

/-- Why storage cannot be obtained. -/
inductive ObtainFlaw where
  | zeroLength
  | exhausted
deriving DecidableEq

/-- The wording of a refusal to hand out storage. -/
def ObtainFlaw.message : ObtainFlaw → String
  | .zeroLength => "zero length"
  | .exhausted => "31-bit region exhausted"

/-- What is wrong with a parameter list or an argument table. -/
inductive ParmFlaw where
  /-- A word with the high-order bit on was given as an address. -/
  | wide (address : Address)
  /-- No word within the limit ends the list. -/
  | unterminated (limit : Nat)
  /-- The list has the wrong number of words. -/
  | count (expected found : Nat)
  /-- The list of a command service has the wrong number of words. -/
  | serviceCount (found : Nat)
  /-- No entry within the limit ends the argument table. -/
  | arguments
deriving DecidableEq

/-- The wording of a flaw of a parameter list. -/
def ParmFlaw.message : ParmFlaw → String
  | .wide address => "address " ++ hexOf 8 address.toNat ++ " is not a 31-bit address"
  | .unterminated limit => "no end-of-list bit within " ++ decimal limit ++ " words"
  | .count expected found =>
    "expected " ++ decimal expected ++ " parameters, found " ++ decimal found
  | .serviceCount found => "IKJEFTSR expects 9 or 10 parameters, found " ++ decimal found
  | .arguments => "argument table not terminated"

/-- Why an evaluation block holds no return code. -/
inductive EvalFlaw where
  /-- The length is zero or negative. -/
  | length (given : Int32)
  /-- The length is larger than the data. -/
  | overrun (given : Nat)
  /-- There is a sign and nothing after it. -/
  | signOnly
  /-- A byte is no digit. -/
  | digit (byte : UInt8)
  /-- The number does not fit a fullword. -/
  | overflow (text : String)
deriving DecidableEq

/-- The wording of a flaw of an evaluation block. -/
def EvalFlaw.message : EvalFlaw → String
  | .length given => "EVLEN is " ++ signedDecimal given.toInt
  | .overrun given => "EVLEN " ++ decimal given ++ " exceeds the EVDATA area"
  | .signOnly => "sign without digits"
  | .digit byte => "byte " ++ hexOf 2 byte.toNat ++ " is not an EBCDIC digit"
  | .overflow text => "'" ++ text ++ "' overflows a fullword"

/-- Why the dataset behind a DD cannot be read or written. -/
inductive ReadFlaw where
  | notAllocated
  | notCataloged (dsname : String)
  | needsMember
  /-- Reading stopped with this report. -/
  | device (report : String)
deriving DecidableEq

/-- The wording of a read failure. -/
def ReadFlaw.message : ReadFlaw → String
  | .notAllocated => "DD not allocated"
  | .notCataloged dsname => "data set " ++ dsname ++ " not cataloged"
  | .needsMember => "partitioned data set requires a member"
  | .device report => report

/-- Why the value of a setting cannot be used. -/
inductive ValueFlaw where
  | policy
  | verb (text : String)
  | choice (given choices : String)
  | lineCount
  | lineCountRange
  | boolean
  | name (text : String) (flaw : NameFlaw)
deriving DecidableEq

/-- The wording of a name that was refused. -/
def refusedName (name : String) (flaw : NameFlaw) : String :=
  "invalid name '" ++ name ++ "': " ++ flaw.message

/-- The wording of a flaw of a value. -/
def ValueFlaw.message : ValueFlaw → String
  | .policy => "expected whitelist or blacklist"
  | .verb text => "'" ++ text ++ "' is not a command name"
  | .choice given choices => "'" ++ given ++ "' is not one of " ++ choices
  | .lineCount => "expected a line count"
  | .lineCountRange => "line count too large"
  | .boolean => "expected true, false, 1 or 0"
  | .name text flaw => refusedName text flaw

/-- What is wrong with a line of settings. -/
inductive SettingFlaw where
  | tooLong
  | noAssignment
  | noKey
  | unknownKey (key : String)
  | value (key : String) (flaw : ValueFlaw)
  | duplicate (key : String)
deriving DecidableEq

/-- The message number of a flaw of settings. -/
def SettingFlaw.code : SettingFlaw → Nat
  | .tooLong => 30093
  | .noAssignment => 30094
  | .noKey => 30094
  | .unknownKey _ => 30095
  | .value _ _ => 30096
  | .duplicate _ => 30098

/-- The wording of a flaw of settings. -/
def SettingFlaw.message : SettingFlaw → String
  | .tooLong => "line too long"
  | .noAssignment => "expected key = value"
  | .noKey => "missing key"
  | .unknownKey key => "unknown key " ++ key
  | .value key flaw => "invalid value for " ++ key ++ ": " ++ flaw.message
  | .duplicate key => "duplicate key " ++ key

-- ================================================ steps of an invocation

/-- The two calls that run a command. -/
inductive Phase where
  | prepare
  | execute
deriving DecidableEq

/-- How a call is named in messages. -/
def Phase.title : Phase → String
  | .prepare => "IKJEFTSI prepare"
  | .execute => "IKJEFTSR execute"

/-- How far an invocation has come. -/
inductive Progress where
  | idle
  | preparing
  | prepared
  | executing
  | succeeded
  | failed
deriving DecidableEq

/-- How a state of progress is named in messages. -/
def Progress.title : Progress → String
  | .idle => "idle"
  | .preparing => "preparing"
  | .prepared => "prepared"
  | .executing => "executing"
  | .succeeded => "succeeded"
  | .failed => "failed"

-- ============================================================== causes

/-- Why an operation of the engine failed. -/
inductive Error where
  /-- The TSO environment could not be established. -/
  | environmentUnavailable (rc : Int32) (reason abend : UInt32)
  /-- No load module of that name was found. -/
  | serviceUnavailable (module : String)
  /-- The host refused an allocation or a free. -/
  | allocationFailed (ddname : String) (rc : Int32) (reason catalogRc : UInt16) (flags : UInt8)
  /-- The host allocated under a name that cannot be bound. -/
  | unusableDdname (requested assigned : String) (rc : Int32) (reason catalogRc : UInt16)
  /-- The name is not live in this session. -/
  | notAllocated (name : String)
  /-- A DD or dataset name is flawed. -/
  | invalidName (name : String) (flaw : NameFlaw)
  /-- Command text or operands cannot be used. -/
  | invalidCommand (flaw : CommandFlaw)
  /-- A command service reported a failure. -/
  | invocationFailed (phase : Phase) (rc : Int32) (reason abend : UInt32)
  /-- A step of an invocation was attempted out of order. -/
  | invalidState (source target : Progress)
  /-- Captured output could not be read back. -/
  | readFailed (ddname : String) (flaw : ReadFlaw)
  /-- The evaluation block of an exec holds no return code. -/
  | evalParseFailed (flaw : EvalFlaw)
  /-- The free after a command failed. -/
  | cleanupFailed (ddname : String) (rc : Int32) (reason catalogRc : UInt16)
  /-- The policy does not let the command run. -/
  | policyDenied (command : String)
  /-- Storage could not be obtained. -/
  | obtainFailed (length : Nat) (flaw : ObtainFlaw)
  /-- No block starts at the address to be released. -/
  | releaseFailed (address : Address)
  /-- A reference outside every block. -/
  | addressFault (address : Address) (length : Nat)
  /-- A field does not fit its buffer. -/
  | bufferOverrun (offset width length : Nat)
  /-- A parameter list is malformed. -/
  | invalidParmList (flaw : ParmFlaw)
  /-- A line of settings is flawed. -/
  | setting (line : Nat) (flaw : SettingFlaw)
deriving DecidableEq

namespace Error

/-- The message of a failure. -/
def message : Error → String
  | .environmentUnavailable rc reason abend =>
    "TSO environment unavailable: IKJTSOEV rc=" ++ signedDecimal rc.toInt
      ++ ", reason=" ++ hexOf 1 reason.toNat ++ ", abend=" ++ hexOf 1 abend.toNat
  | .serviceUnavailable module => "host service " ++ module ++ " is not available"
  | .allocationFailed ddname rc reason catalogRc flags =>
    "DAIR failed for " ++ ddname ++ ": rc=" ++ signedDecimal rc.toInt
      ++ ", darc=" ++ hexOf 4 reason.toNat ++ ", ctrc=" ++ hexOf 4 catalogRc.toNat
      ++ ", flags=" ++ hexOf 2 flags.toNat
  | .unusableDdname requested assigned rc reason catalogRc =>
    "DAIR assigned unusable DDname '" ++ assigned ++ "' for " ++ requested
      ++ ": rc=" ++ signedDecimal rc.toInt
      ++ ", darc=" ++ hexOf 4 reason.toNat ++ ", ctrc=" ++ hexOf 4 catalogRc.toNat
  | .notAllocated name => "DDname " ++ name ++ " is not allocated by this session"
  | .invalidName name flaw => refusedName name flaw
  | .invalidCommand flaw => "invalid command: " ++ flaw.message
  | .invocationFailed phase rc reason abend =>
    phase.title ++ " failed: rc=" ++ signedDecimal rc.toInt
      ++ ", reason=" ++ hexOf 1 reason.toNat ++ ", abend=" ++ hexOf 1 abend.toNat
  | .invalidState source target =>
    "invocation cannot move from " ++ source.title ++ " to " ++ target.title
  | .readFailed ddname flaw => "read of DD " ++ ddname ++ " failed: " ++ flaw.message
  | .evalParseFailed flaw => "EVALBLK result is not a number: " ++ flaw.message
  | .cleanupFailed ddname rc reason catalogRc =>
    "cleanup of " ++ ddname ++ " failed: rc=" ++ signedDecimal rc.toInt
      ++ ", darc=" ++ hexOf 4 reason.toNat ++ ", ctrc=" ++ hexOf 4 catalogRc.toNat
  | .policyDenied command => "command " ++ command ++ " is not permitted by policy"
  | .obtainFailed length flaw =>
    "GETMAIN failed: length=" ++ decimal length ++ ", " ++ flaw.message
  | .releaseFailed address => "FREEMAIN failed: address " ++ hexOf 8 address.toNat ++ " not owned"
  | .addressFault address length =>
    "addressing exception at " ++ hexOf 8 address.toNat ++ " (length " ++ decimal length ++ ")"
  | .bufferOverrun offset width length =>
    "field at offset " ++ decimal offset ++ " width " ++ decimal width
      ++ " overruns buffer of " ++ decimal length ++ " bytes"
  | .invalidParmList flaw => "invalid parameter list: " ++ flaw.message
  | .setting line flaw =>
    "LUZ" ++ decimalOf 5 flaw.code ++ " config line " ++ decimal line ++ ": " ++ flaw.message

/-- The code under which a failure is listed. -/
def code : Error → String
  | .environmentUnavailable _ _ _ => "luaz::environment_unavailable"
  | .serviceUnavailable _ => "luaz::service_unavailable"
  | .allocationFailed _ _ _ _ _ => "luaz::allocation_failed"
  | .unusableDdname _ _ _ _ _ => "luaz::unusable_ddname"
  | .notAllocated _ => "luaz::not_allocated"
  | .invalidName _ _ => "luaz::invalid_name"
  | .invalidCommand _ => "luaz::invalid_command"
  | .invocationFailed _ _ _ _ => "luaz::invocation_failed"
  | .invalidState _ _ => "luaz::invalid_state"
  | .readFailed _ _ => "luaz::read_failed"
  | .evalParseFailed _ => "luaz::eval_parse_failed"
  | .cleanupFailed _ _ _ _ => "luaz::cleanup_failed"
  | .policyDenied _ => "luaz::policy_denied"
  | .obtainFailed _ _ => "luaz::getmain_failed"
  | .releaseFailed _ => "luaz::freemain_failed"
  | .addressFault _ _ => "luaz::address_fault"
  | .bufferOverrun _ _ _ => "luaz::buffer_overrun"
  | .invalidParmList _ => "luaz::invalid_plist"
  | .setting _ _ => "luaz::config"

end Error
end TsoBridge
