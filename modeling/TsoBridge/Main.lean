/-
The program's entry: reads the files its command line names and the time,
runs, and writes the report.
-/
import Std.Time
import TsoBridge.Cli.Run

namespace TsoBridge.Main

/-- The contents of a file, if it can be read. -/
def readFile? (path : String) : IO (Option String) := do
  try
    return some (← IO.FS.readFile path)
  catch _ =>
    return none

/-- The time of day where the program runs. -/
def localTime : IO Sim.DateTime := do
  let now ← Std.Time.PlainDateTime.now
  return { year := now.date.year.toInt
           month := now.date.month.toNat
           day := now.date.day.toNat
           hour := now.time.hour.toNat
           minute := now.time.minute.toNat
           second := now.time.second.toNat }

end TsoBridge.Main

/-- Runs the program. -/
def main (arguments : List String) : IO UInt32 := do
  let paths := ((TsoBridge.Cli.Arguments.parse arguments).map (·.files)).getD []
  let contents ← paths.mapM fun path => do return (path, ← TsoBridge.Main.readFile? path)
  let now ← TsoBridge.Main.localTime
  let world : TsoBridge.Cli.World := { contents := fun path => (contents.lookup path).join, now }
  let report := TsoBridge.Cli.run world arguments
  (← IO.getStdout).putStr report.stdout
  (← IO.getStderr).putStr report.stderr
  return report.status.toUInt32
