/-
Settings of a session: which commands may run, how output is captured and
how much of it is handed back, and the names the interpreter path uses.
They are written as `key = value` lines; a line that starts with `#` or
`*` is a comment. Only the keys of four namespaces are settings of this
system, every other key belongs to someone else and is passed over.

    * capture policy
    allow.tso.cmd           = whitelist
    tso.cmd.whitelist       = TIME, LISTCAT, LISTDS
    tso.cmd.capture.default = true
    limits.output.lines     = 500
    tso.cmd.mode            = auto

Each key may be set once, so the order of the lines does not matter;
the first line that cannot be used is the one reported.
-/
import TsoBridge.Name.Basic
import TsoBridge.Text.Blank

namespace TsoBridge

open Text

-- ======================================================== kinds of value

/-- How the output of a command is captured. -/
inductive CaptureMode where
  /-- Into a private DD of the command service. -/
  | direct
  /-- Into a shared DD by an exec of the interpreter. -/
  | legacy
  /-- Directly, or by the exec where the command service is missing. -/
  | auto
deriving DecidableEq

namespace CaptureMode

/-- The mode as settings write it. -/
def title : CaptureMode → String
  | .direct => "direct"
  | .legacy => "legacy"
  | .auto => "auto"

/-- Reads a mode in any case. -/
def ofString (text : String) : Except ValueFlaw CaptureMode :=
  let word := lower text
  if word = "direct" then .ok .direct
  else if word = "legacy" then .ok .legacy
  else if word = "auto" then .ok .auto
  else .error (.choice word "direct, legacy, auto")

end CaptureMode

/-- How much is reported about what goes on. -/
inductive TraceLevel where
  | off
  | error
  | info
  | debug
deriving DecidableEq

namespace TraceLevel

/-- The level as settings write it. -/
def title : TraceLevel → String
  | .off => "off"
  | .error => "error"
  | .info => "info"
  | .debug => "debug"

/-- Reads a level in any case. -/
def ofString (text : String) : Except ValueFlaw TraceLevel :=
  let word := lower text
  if word = "off" then .ok .off
  else if word = "error" then .ok .error
  else if word = "info" then .ok .info
  else if word = "debug" then .ok .debug
  else .error (.choice word "off, error, info, debug")

end TraceLevel

/-- Which of the two verb lists decides. -/
inductive PolicyMode where
  | whitelist
  | blacklist
deriving DecidableEq

/-- The mode as settings write it. -/
def PolicyMode.title : PolicyMode → String
  | .whitelist => "whitelist"
  | .blacklist => "blacklist"

/-- Which verbs may run; without a mode all may. -/
structure CommandPolicy where
  mode : Option PolicyMode := none
  whitelist : List String := []
  blacklist : List String := []
deriving DecidableEq

/-- Whether a command with this verb may run. -/
def CommandPolicy.permits (policy : CommandPolicy) (verb : String) : Bool :=
  match policy.mode with
  | none => true
  | some .whitelist => policy.whitelist.contains (upper verb)
  | some .blacklist => !policy.blacklist.contains (upper verb)

-- ============================================================== settings

/-- The settings of a session. -/
structure Settings where
  policy : CommandPolicy := {}
  traceLevel : Option TraceLevel := none
  /-- The most lines handed back for a command. -/
  lineLimit : Option Nat := none
  /-- Whether output is captured if the caller does not say. -/
  captureDefault : Bool := true
  captureMode : CaptureMode := .direct
  /-- The exec that captures output. -/
  rexxExec : String := "LUTSO"
  /-- The DD of the library that holds it. -/
  rexxDd : String := "SYSEXEC"
  /-- The DD it writes to. -/
  outDd : String := "TSOOUT"
deriving DecidableEq

namespace Settings

/-- The most bytes of a line. -/
def maxLine : Nat := 1024

/-- The namespaces whose keys are settings of this system. -/
def namespaces : List String := ["tso.", "allow.", "trace.", "limits."]

/-- Whether a key lies in one of the namespaces. -/
def isOwned (key : String) : Bool :=
  namespaces.any fun space => space.toList.isPrefixOf key.toList

-- ============================================================ the values

/-- Reads a list of verbs with commas between them. -/
def verbs (value : String) : Except ValueFlaw (List String) :=
  let parts := (split (· == ',') value.toList).map fun part => upper (trim (String.ofList part))
  let names := parts.filter (· ≠ "")
  match names.find? fun name => !name.toList.all Name.isPart with
  | some bad => .error (.verb bad)
  | none => .ok names

/-- Reads a policy mode. -/
def policyMode (value : String) : Except ValueFlaw PolicyMode :=
  let word := lower value
  if word = "whitelist" then .ok .whitelist
  else if word = "blacklist" then .ok .blacklist
  else .error .policy

/-- Reads a line limit; zero is none. -/
def limit (value : String) : Except ValueFlaw (Option Nat) :=
  match natural? value.toList with
  | none => .error .lineCount
  | some n =>
    if 0x10000000000000000 ≤ n then .error .lineCountRange
    else .ok (if n = 0 then none else some n)

/-- Reads a switch. -/
def switch (value : String) : Except ValueFlaw Bool :=
  let word := lower value
  if word = "true" || word = "1" then .ok true
  else if word = "false" || word = "0" then .ok false
  else .error .boolean

/-- Reads a DD or member name. -/
def name (value : String) : Except ValueFlaw String :=
  match Name.ddnameFlaw? value with
  | none => .ok (upper value)
  | some flaw => .error (.name value flaw)

-- ============================================================== the keys

/-- What a key sets, by the way its value is read; `none` for a key that
sets nothing. -/
def assign? (settings : Settings) (key value : String) : Option (Except ValueFlaw Settings) :=
  if key = "allow.tso.cmd" then
    some ((policyMode value).map fun mode =>
      { settings with policy := { settings.policy with mode := some mode } })
  else if key = "tso.cmd.whitelist" then
    some ((verbs value).map fun list =>
      { settings with policy := { settings.policy with whitelist := list } })
  else if key = "tso.cmd.blacklist" then
    some ((verbs value).map fun list =>
      { settings with policy := { settings.policy with blacklist := list } })
  else if key = "trace.level" then
    some ((TraceLevel.ofString value).map fun level => { settings with traceLevel := some level })
  else if key = "limits.output.lines" then
    some ((limit value).map fun most => { settings with lineLimit := most })
  else if key = "tso.cmd.capture.default" then
    some ((switch value).map fun on => { settings with captureDefault := on })
  else if key = "tso.cmd.mode" then
    some ((CaptureMode.ofString value).map fun mode => { settings with captureMode := mode })
  else if key = "tso.rexx.exec" then
    some ((name value).map fun exec => { settings with rexxExec := exec })
  else if key = "tso.rexx.dd" then
    some ((name value).map fun ddname => { settings with rexxDd := ddname })
  else if key = "tso.out.dd" then
    some ((name value).map fun ddname => { settings with outDd := ddname })
  else none

-- ============================================================= the lines

/-- What a line of settings says. -/
inductive Line where
  /-- Nothing for this system. -/
  | skipped
  /-- A key of this system and its value. -/
  | entry (key value : String)
deriving DecidableEq

/-- Reads one line by itself. -/
def readLine (raw : String) : Except SettingFlaw Line :=
  if maxLine < raw.utf8ByteSize then .error .tooLong
  else
    let text := trimmed raw.toList
    if text.isEmpty || text.head? == some '#' || text.head? == some '*' then .ok .skipped
    else match cut (· == '=') text with
      | none => .error .noAssignment
      | some (before, after) =>
        let key := lower (trim (String.ofList before))
        if key = "" then .error .noKey
        else if isOwned key then .ok (.entry key (trim (String.ofList after)))
        else .ok .skipped

/-- The settings so far and the keys they were set by. -/
structure Draft where
  settings : Settings := {}
  seen : List String := []
deriving DecidableEq

/-- Takes in one line. -/
def Draft.add (draft : Draft) (raw : String) : Except SettingFlaw Draft := do
  match ← readLine raw with
  | .skipped => return draft
  | .entry key value =>
    if draft.seen.contains key then throw (.duplicate key)
    match draft.settings.assign? key value with
    | none => throw (.unknownKey key)
    | some (.error flaw) => throw (.value key flaw)
    | some (.ok settings) => return { settings, seen := key :: draft.seen }

/-- Takes in lines, the first of which has the given number. -/
def Draft.addLines (draft : Draft) (number : Nat) : List String → Except Error Draft
  | [] => .ok draft
  | raw :: rest =>
    match draft.add raw with
    | .error flaw => .error (.setting number flaw)
    | .ok next => next.addLines (number + 1) rest

/-- Reads settings from lines. -/
def ofLines (content : List String) : Except Error Settings :=
  (Draft.addLines {} 1 content).map Draft.settings

/-- Reads settings from text. -/
def parse (text : String) : Except Error Settings :=
  ofLines (lines text)

end Settings
end TsoBridge
