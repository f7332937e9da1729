/-
The program: reads its command line, opens one session with a simulated
host, does what it is asked and reports. Files and time come from
outside, so a run is a function of them.
-/
import TsoBridge.Cli.Report

namespace TsoBridge.Cli

open Sim

/-- What a run needs from outside: the files it can read and the time. -/
structure World where
  contents : String → Option String
  now : DateTime

/-- Why a run failed: what was attempted, and the causes. -/
structure Failure where
  message : String
  causes : List String := []
deriving DecidableEq

/-- The settings in force. -/
def loadSettings (world : World) (path : Option String) : Except Failure Settings :=
  match path with
  | none => .ok {}
  | some path =>
    match world.contents path with
    | none => .error { message := "cannot read " ++ path }
    | some text =>
      match Settings.parse text with
      | .ok settings => .ok settings
      | .error cause => .error { message := "in " ++ path, causes := [cause.message] }

/-- A session at its start. -/
def openSession (world : World) (settings : Settings) : Session SimHost :=
  Session.start (SimHost.build {} (Clock.fixed world.now)) settings

/-- The report of what a session did, or of why it failed. -/
def conclude {α : Type} (format : Format) (message : String) (world : World)
    (settings : Settings) (x : Op (Session SimHost) α) (report : α → Report) : Report :=
  match (x (openSession world settings)).1 with
  | .ok value => report value
  | .error (.error cause) => .failure format message [cause.message]
  | .error .trap => .trapped

/-- Runs a command. -/
def runCommand (world : World) (settings : Settings) (format : Format) (text : String)
    (options : CommandOptions) : Report :=
  let x : Op (Session SimHost) (CommandOutcome × List String) := do
    let outcome ← Session.run text options
    let terminal ← Op.gets fun s => s.host.terminal.map (·.2)
    return (outcome, terminal)
  conclude format ("command '" ++ text ++ "' failed") world settings x
    fun (outcome, terminal) => commandReport format text outcome terminal

/-- Allocates a DD, frees it again and reports. -/
def runAllocation (world : World) (settings : Settings) (format : Format) (operands : String) :
    Report :=
  match AllocationRequest.parse operands with
  | .error cause => .failure format "invalid allocation" [cause.message]
  | .ok request =>
    let x : Op (Session SimHost) (DdName × AllocationResult × List Error) := do
      let (name, result) ← Session.allocate request
      return (name, result, ← Session.releaseAll)
    conclude format ("allocation '" ++ operands ++ "' failed") world settings x
      fun (name, result, failures) =>
        allocationReport format name request.dsname result failures

/-- Runs a script. -/
def runBatch (world : World) (settings : Settings) (format : Format) (file : String) : Report :=
  match world.contents file with
  | none => .failure format ("cannot read " ++ file) []
  | some source =>
    match Batch.parse source with
    | .error failure => .failure format failure.message []
    | .ok ops => conclude format "batch failed" world settings (Batch.run ops) (batchReport format)

/-- Runs the program. -/
def run (world : World) (arguments : List String) : Report :=
  match Arguments.parse arguments with
  | none => .usage
  | some arguments =>
    let format := arguments.format
    match loadSettings world arguments.config with
    | .error failure => .failure format failure.message failure.causes
    | .ok settings =>
      match arguments.action with
      | .cmd text noCapture authorized mode =>
        runCommand world settings format text
          { capture := if noCapture then some false else none, authorized, mode }
      | .alloc operands => runAllocation world settings format operands
      | .batch file => runBatch world settings format file
      | .config => settingsReport format arguments.config settings

/-- The status a process ends with: the low-order byte of its code. -/
def Report.status (report : Report) : UInt8 :=
  UInt8.ofNat (report.code % 256).toNat

end TsoBridge.Cli
