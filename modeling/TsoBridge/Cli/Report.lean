/-
What a run of the program shows: an exit code and the text for the two
output channels. Each kind of result has a JSON form and a text form.
-/
import TsoBridge.Batch.Run
import TsoBridge.Cli.Arguments
import TsoBridge.Json

namespace TsoBridge.Cli

open Text

/-- What a run of the program shows. -/
structure Report where
  code : Int
  stdout : String := ""
  stderr : String := ""
deriving DecidableEq

/-- Lines, each with its line end. -/
def linesText (lines : List String) : String :=
  String.join (lines.map (· ++ "\n"))

/-- A report that shows one JSON value. -/
def Report.ofJson (code : Int) (value : Json) : Report :=
  { code, stdout := linesText [value.render 0] }

/-- A report that shows lines. -/
def Report.ofLines (code : Int) (stdout stderr : List String) : Report :=
  { code, stdout := linesText stdout, stderr := linesText stderr }

/-- A failure: what was attempted and why it did not work. -/
def Report.failure (format : Format) (message : String) (causes : List String) : Report :=
  let stdout := match format with
    | .json => (Json.object [("status", .text "error"), ("message", .text message)]).render 0 ++ "\n"
    | .text => ""
  { code := 1, stdout, stderr := linesText (("Error: " ++ message) :: causes.map ("  caused by: " ++ ·)) }

/-- The report of a command line that makes no sense. -/
def Report.usage : Report :=
  { code := 2, stderr := "usage: [OPTIONS] cmd|alloc|batch|config ...\n" }

/-- The report of a run that trapped. -/
def Report.trapped : Report :=
  { code := 101, stderr := "arithmetic overflow\n" }

-- ============================================================== command

/-- A number of the host as a JSON number. -/
def signed (value : Int32) : Json :=
  .number value.toInt

/-- A command as JSON. -/
def commandJson (text : String) (outcome : CommandOutcome) (terminal : List String) : Json :=
  .object <|
    [("status", .text (if outcome.rc = 0 then "success" else "failed")),
     ("command", .text text),
     ("return_code", signed outcome.rc),
     ("service_rc", signed outcome.report.serviceRc)]
    ++ Json.field? "abend" (outcome.report.abend.map fun code => .text code.title)
    ++ [("path", .text outcome.path.title)]
    ++ Json.field? "ddname" (outcome.binding.map fun name => .text name.text)
    ++ [("lines", Json.texts outcome.report.lines)]
    ++ (if outcome.truncated = 0 then [] else [("truncated", .number outcome.truncated)])
    ++ Json.textsField? "terminal" terminal
    ++ Json.field? "cleanup_error" (outcome.cleanup.map fun cause => .text cause.message)

/-- The report of a command that ran. -/
def commandReport (format : Format) (text : String) (outcome : CommandOutcome)
    (terminal : List String) : Report :=
  let code := outcome.rc.toInt
  match format with
  | .json => .ofJson code (commandJson text outcome terminal)
  | .text =>
    .ofLines code (terminal ++ outcome.report.lines)
      ((if outcome.truncated = 0 then []
        else ["(" ++ decimal outcome.truncated ++ " more lines not shown)"])
        ++ outcome.cleanup.toList.map fun cause => "Warning: " ++ cause.message)

-- =========================================================== allocation

/-- The report of an allocation. -/
def allocationReport (format : Format) (name : DdName) (dsname : Option String)
    (result : AllocationResult) (failures : List Error) : Report :=
  let code := result.serviceRc.toInt
  match format with
  | .json =>
    .ofJson code <| .object <|
      [("status", .text "success"), ("ddname", .text name.text)]
      ++ Json.field? "dsname" (dsname.map .text)
      ++ [("service_rc", signed result.serviceRc),
          ("reason_code", .number result.reasonCode.toNat),
          ("catalog_rc", .number result.catalogRc.toNat),
          ("freed", .bool failures.isEmpty)]
  | .text =>
    .ofLines code
      [name.text ++ " allocated (rc=" ++ signedDecimal code
        ++ ", darc=" ++ bareHexOf 4 result.reasonCode.toNat
        ++ ", ctrc=" ++ bareHexOf 4 result.catalogRc.toNat ++ ")"]
      (failures.map fun cause => "Warning: " ++ cause.message)

-- ================================================================ batch

/-- A step as JSON. -/
def stepJson (step : BatchStep) : Json :=
  .object <|
    [("line", .number step.line), ("op", .text step.op)]
    ++ Json.field? "return_code" (step.returnCode.map signed)
    ++ Json.textsField? "lines" step.lines
    ++ Json.field? "error" (step.error.map .text)
    ++ Json.field? "code" (step.code.map fun code => .number code)
    ++ Json.textsField? "warnings" step.warnings

/-- What a step says on the error channel. -/
def stepComplaints (step : BatchStep) : List String :=
  let at_ := "line " ++ decimal step.line ++ ": "
  step.error.toList.map (at_ ++ ·) ++ step.warnings.map (at_ ++ "Warning: " ++ ·)

/-- The report of a script. -/
def batchReport (format : Format) (run : BatchRun) : Report :=
  match format with
  | .json =>
    .ofJson run.exitCode <| .object
      [("status", .text (if run.failed then "failed" else "success")),
       ("exit_code", .number run.exitCode),
       ("steps", .array (run.steps.map stepJson)),
       ("released", .number run.released)]
  | .text =>
    .ofLines run.exitCode (run.steps.flatMap BatchStep.lines) (run.steps.flatMap stepComplaints)

-- ============================================================= settings

/-- Settings as JSON. -/
def settingsJson (settings : Settings) : Json :=
  let orNull (value : Option Json) : Json := value.getD .null
  .object
    [("policy", .object
      [("mode", orNull (settings.policy.mode.map fun mode => .text mode.title)),
       ("whitelist", Json.texts settings.policy.whitelist),
       ("blacklist", Json.texts settings.policy.blacklist)]),
     ("trace_level", orNull (settings.traceLevel.map fun level => .text level.title)),
     ("output_line_limit", orNull (settings.lineLimit.map fun limit => .number limit)),
     ("capture_default", .bool settings.captureDefault),
     ("capture_mode", .text settings.captureMode.title),
     ("rexx_exec", .text settings.rexxExec),
     ("rexx_dd", .text settings.rexxDd),
     ("out_dd", .text settings.outDd)]

/-- Settings as lines of keys and values. -/
def settingsLines (settings : Settings) : List String :=
  let row (key value : String) : String := padRight 25 key ++ value
  let verbs (key : String) (list : List String) : List String :=
    if list.isEmpty then [] else [row key (" ".intercalate list)]
  [row "allow.tso.cmd" ((settings.policy.mode.map PolicyMode.title).getD "all commands")]
    ++ verbs "tso.cmd.whitelist" settings.policy.whitelist
    ++ verbs "tso.cmd.blacklist" settings.policy.blacklist
    ++ [row "tso.cmd.mode" settings.captureMode.title,
        row "tso.cmd.capture.default" (if settings.captureDefault then "true" else "false"),
        row "limits.output.lines" ((settings.lineLimit.map decimal).getD "unlimited"),
        row "tso.rexx.exec" settings.rexxExec,
        row "tso.rexx.dd" settings.rexxDd,
        row "tso.out.dd" settings.outDd]

/-- The report of the settings in force. -/
def settingsReport (format : Format) (source : Option String) (settings : Settings) : Report :=
  match format with
  | .json =>
    .ofJson 0 <| .object <|
      [("status", .text "success")] ++ Json.field? "source" (source.map .text)
      ++ [("config", settingsJson settings)]
  | .text => .ofLines 0 (settingsLines settings) []

end TsoBridge.Cli
