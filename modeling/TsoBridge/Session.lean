/-
A session: everything that outlives one command. A command is checked
against the policy before the host is asked anything; then it runs
uncaptured, into a private DD that is allocated and freed around it, or
through an exec. A failed free after a command is reported with the
command's result and kept until someone takes it.
-/
import TsoBridge.Binding
import TsoBridge.Capture
import TsoBridge.Settings

namespace TsoBridge

/-- How one command is to be run. -/
structure CommandOptions where
  /-- Whether to capture its output; the settings decide without it. -/
  capture : Option Bool := none
  /-- Whether to run it through the authorized command processor. -/
  authorized : Bool := false
  /-- How to capture; the settings decide without it. -/
  mode : Option CaptureMode := none
deriving DecidableEq

/-- How the output of a command was handled. -/
inductive CapturePath where
  | direct
  | legacy
  | uncaptured
deriving DecidableEq

/-- The path as reports write it. -/
def CapturePath.title : CapturePath → String
  | .direct => "direct"
  | .legacy => "legacy"
  | .uncaptured => "uncaptured"

/-- A command that ran. -/
structure CommandOutcome where
  report : CommandReport
  path : CapturePath
  /-- The private DD, freed again. -/
  binding : Option DdName := none
  /-- The number of lines dropped by the limit. -/
  truncated : Nat := 0
  /-- Why the private DD could not be freed. -/
  cleanup : Option Error := none
deriving DecidableEq

/-- The return code of a command. -/
def CommandOutcome.rc (outcome : CommandOutcome) : Int32 :=
  outcome.report.commandRc

/-- Keeps at most `limit` lines. -/
def CommandOutcome.limitLines (outcome : CommandOutcome) (limit : Option Nat) : CommandOutcome :=
  match limit with
  | none => outcome
  | some most =>
    let lines := outcome.report.lines
    if most < lines.length then
      { outcome with
        report := { outcome.report with lines := lines.take most }
        truncated := lines.length - most }
    else outcome

/-- A session with a host. -/
structure Session (H : Type) where
  linkage : Linkage H
  environment : Environment := {}
  bindings : Bindings := {}
  capture : ExecCapture
  settings : Settings := {}
  /-- Failed frees nobody has taken yet, the oldest first. -/
  failures : List Error := []

namespace Session

variable {H : Type} {α : Type}

/-- A session at its start. -/
def start (host : H) (settings : Settings) : Session H :=
  { linkage := { host }, settings
    capture := ExecCapture.make settings.rexxExec settings.rexxDd settings.outDd }

/-- The host of a session. -/
def host (session : Session H) : H :=
  session.linkage.host

/-- An operation on the linkage. -/
def onLinkage (x : Op (Linkage H) α) : Op (Session H) α :=
  x.on (fun s => s.linkage) fun s linkage => { s with linkage }

/-- An operation on the environment. -/
def onEnvironment (x : Op (Linkage H × Environment) α) : Op (Session H) α :=
  x.on (fun s => (s.linkage, s.environment))
    fun s t => { s with linkage := t.1, environment := t.2 }

/-- An operation on the bindings. -/
def onBindings (x : Op (Linkage H × Bindings) α) : Op (Session H) α :=
  x.on (fun s => (s.linkage, s.bindings)) fun s t => { s with linkage := t.1, bindings := t.2 }

/-- An operation on the exec capture. -/
def onCapture (x : Op (Linkage H × ExecCapture) α) : Op (Session H) α :=
  x.on (fun s => (s.linkage, s.capture)) fun s t => { s with linkage := t.1, capture := t.2 }

/-- Notes failed frees. -/
def note (failures : List Error) : Op (Session H) Unit :=
  Op.modify fun s => { s with failures := s.failures ++ failures }

/-- Takes a command processor list from outside. -/
def adopt (cppl : Address) : Op (Session H) Capability := do
  Op.modify fun s => { s with environment := s.environment.adopt cppl }
  return ⟨cppl⟩

/-- Takes the failed frees noted since the last time. -/
def takeFailures : Op (Session H) (List Error) := do
  let failures ← Op.gets fun s => s.failures
  Op.modify fun s => { s with failures := [] }
  return failures

variable [Host H]

/-- Makes sure that the environment is usable. -/
def establish : Op (Session H) Capability :=
  onEnvironment Environment.establish

-- ============================================================= commands

/-- Runs a command and reads its output from the private DD it went
to. -/
def captured (capability : Capability) (route : Route) (text : String) (name : DdName) :
    Op (Linkage H) (DdName × CommandReport) := do
  let report ← Invocation.run capability route text (some name)
  let lines ← Output.readLines name.text
  return (name, { report with lines })

/-- Runs a command with a private DD. The modules are looked for first,
so that a missing one costs no allocation. -/
def runDirect (capability : Capability) (route : Route) (text : String) :
    Op (Session H) CommandOutcome := do
  let _ ← onLinkage (Invocation.resolve route)
  let released ← onBindings <|
    Bindings.withBinding capability none (captured capability route text)
  note released.cleanup.toList
  let (name, report) ← released.result
  return { report, path := .direct, binding := some name, cleanup := released.cleanup }

/-- Runs a command through the exec, which cannot run authorized ones. -/
def runExec (capability : Capability) (route : Route) (text : String) :
    Op (Session H) CommandOutcome := do
  if route = .authorizedProcessor then Op.fail (.invalidCommand .authorizedCapture)
  else
    let report ← onCapture (ExecCapture.run capability text)
    return { report, path := .legacy }

/-- Runs a command without capture. -/
def runUncaptured (capability : Capability) (route : Route) (text : String) :
    Op (Session H) CommandOutcome := do
  let report ← onLinkage (Invocation.run capability route text none)
  return { report, path := .uncaptured }

/-- Runs a command with a private DD, or through the exec if a module for
that is missing and the command needs no authorization. -/
def runAuto (capability : Capability) (route : Route) (text : String) :
    Op (Session H) CommandOutcome := do
  match ← (runDirect capability route text).attempt with
  | .ok outcome => return outcome
  | .error (.serviceUnavailable module) =>
    if route = .standard then runExec capability route text
    else Op.fail (.serviceUnavailable module)
  | .error cause => Op.fail cause

/-- Runs a command by the path that options and settings choose. -/
def runBy (capability : Capability) (route : Route) (text : String) (options : CommandOptions) :
    Op (Session H) CommandOutcome := do
  let settings ← Op.gets fun s => s.settings
  if !options.capture.getD settings.captureDefault then runUncaptured capability route text
  else match options.mode.getD settings.captureMode with
    | .direct => runDirect capability route text
    | .legacy => runExec capability route text
    | .auto => runAuto capability route text

/-- Runs one command. -/
def run (text : String) (options : CommandOptions) : Op (Session H) CommandOutcome := do
  let settings ← Op.gets fun s => s.settings
  let text := Text.trim text
  let verb := Command.verb text
  if text = "" then Op.fail (.invalidCommand .empty)
  else if !settings.policy.permits verb then Op.fail (.policyDenied verb)
  else
    let capability ← establish
    let route := if options.authorized then .authorizedProcessor else .standard
    let outcome ← runBy capability route text options
    return outcome.limitLines settings.lineLimit

-- ========================================================== allocations

/-- Allocates a DD that stays live until it is freed. -/
def allocate (request : AllocationRequest) : Op (Session H) (DdName × AllocationResult) := do
  let capability ← establish
  onBindings (Bindings.allocate capability request)

/-- Frees a DD allocated by this session. -/
def free (name : DdName) : Op (Session H) AllocationResult := do
  if !(← Op.gets fun s => s.bindings.isLive name) then Op.fail (.notAllocated name.text)
  else
    let capability ← establish
    onBindings (Bindings.free capability name)

/-- Frees every live binding; the value is all that went wrong. -/
def releaseAll : Op (Session H) (List Error) := do
  if (← Op.gets fun s => s.bindings.liveNames).isEmpty then return []
  else match ← establish.attempt with
    | .error cause => return [cause]
    | .ok capability =>
      let failures ← onBindings (Bindings.releaseAll capability)
      note failures
      return failures

/-- Writes a line to the terminal. -/
def message (text : String) (level : MessageLevel) : Op (Session H) Unit :=
  onLinkage fun link =>
    let (result, host) := Host.putLine link.host text level
    (Outcome.ofExcept result, { link with host })

end Session
end TsoBridge
