/-
The command processors of the simulated host: TIME, LISTCAT, LISTALC,
LISTDS, SEND and PARMLIB. A processor looks at the session and answers
with lines and a return code; it changes nothing.
-/
import TsoBridge.Operand.Basic
import TsoBridge.Sim.Catalog
import TsoBridge.Sim.Clock
import TsoBridge.Sim.DdTable

namespace TsoBridge.Sim

open Text

/-- What a command processor answers. -/
structure CommandResult where
  output : List String
  rc : Int32
deriving DecidableEq

/-- What a command processor can see. -/
structure SessionView where
  userid : String
  dds : DdTable
  catalog : Catalog
  /-- The verbs that have to run authorized. -/
  authcmd : List String
  now : DateTime
  logon : DateTime

namespace CommandResult

/-- A command that did its work. -/
def ok (lines : List String) : CommandResult :=
  { output := lines, rc := 0 }

/-- A command that could not do its work. -/
def error (message : String) : CommandResult :=
  { output := [message], rc := 12 }

end CommandResult

namespace Processor

/-- TIME: time of day, length of the session, date. -/
def time (view : SessionView) : CommandResult :=
  let session := (view.now.seconds - view.logon.seconds).toNat
  let duration := decimalOf 2 (session / 3600) ++ ":" ++ decimalOf 2 (session / 60 % 60) ++ ":"
    ++ decimalOf 2 (session % 60)
  .ok ["IKJ56650I TIME-" ++ view.now.twelveHour ++ " CPU-00:00:00 SERVICE-"
    ++ decimal (1000 + session) ++ " SESSION-" ++ duration ++ " " ++ view.now.date]

/-- The answer of LISTCAT for what is not cataloged. -/
def notFound (entry : String) : CommandResult :=
  { output :=
      ["IDC3012I ENTRY " ++ entry ++ " NOT FOUND",
       "IDC3009I ** VSAM CATALOG RETURN CODE IS 8 - REASON CODE IS IGG0CLEG-42",
       "IDC1566I ** " ++ entry ++ " NOT LISTED"]
    rc := 4 }

/-- LISTCAT: one entry, or all datasets of a level. -/
def listcat (view : SessionView) (command : Command) : CommandResult :=
  match (command.keyword ["ENTRIES", "ENT"]).or command.firstPositional with
  | some entry =>
    match view.catalog.get? entry with
    | some dataset => .ok ["NONVSAM ------- " ++ dataset.name]
    | none => notFound entry
  | none =>
    let level := (command.keyword ["LEVEL", "LVL"]).getD view.userid
    let found := view.catalog.level level
    if found.isEmpty then notFound level
    else .ok (found.map fun dataset => "NONVSAM ------- " ++ dataset.name)

/-- LISTALC: the datasets behind all DDs. -/
def listalc (view : SessionView) (command : Command) : CommandResult :=
  let entries := view.dds.list
  if entries.isEmpty then .ok ["IKJ56246I NO DATA SETS CURRENTLY ALLOCATED"]
  else
    let status (entry : DdEntry) : List String :=
      if command.hasFlag "STATUS" then
        ["  " ++ padRight 8 entry.ddname ++ "  " ++ entry.status.keyword ++ ","
          ++ (if entry.temporary then "DELETE" else "KEEP")]
      else []
    .ok ("--DDNAME---DISP--" :: entries.flatMap fun entry => entry.dsname :: status entry)

/-- LISTDS: the attributes of a dataset. -/
def listds (view : SessionView) (command : Command) : CommandResult :=
  match command.firstPositional.or (command.keyword ["DA", "DSNAME"]) with
  | none => .error "IKJ56702I MISSING DATA SET NAME"
  | some name =>
    match view.catalog.get? name with
    | none => { output := [upper name, "IKJ58503I DATA SET NOT IN CATALOG"], rc := 4 }
    | some dataset =>
      let users := view.dds.list.filter fun entry => entry.dsname = dataset.name
      let status := users.map fun entry =>
        "  " ++ padRight 8 entry.ddname ++ "  " ++ entry.status.keyword
      .ok ([dataset.name, "--RECFM-LRECL-BLKSIZE-DSORG",
            "  " ++ dataset.recfm ++ "  " ++ dataset.dsorg]
        ++ if command.hasFlag "STATUS" then "--DDNAME---DISP--" :: status else [])

/-- SEND: the message comes back. -/
def send (command : Command) : CommandResult :=
  match command.firstPositional with
  | some text => .ok [text]
  | none => .error "IKJ56702I MISSING MESSAGE TEXT"

/-- PARMLIB: the verbs that have to run authorized. -/
def parmlib (view : SessionView) (command : Command) : CommandResult :=
  if command.hasFlag "LIST" || command.flags.isEmpty && command.positional.isEmpty then
    .ok ["IKJ745I TSO/E PARMLIB SETTINGS :",
         "  AUTHCMD NAMES( " ++ " ".intercalate view.authcmd ++ " )"]
  else .error "IKJ56712I INVALID KEYWORD"

/-- Runs a command. -/
def execute (view : SessionView) (command : Command) : CommandResult :=
  let verb := command.name
  if verb = "TIME" then time view
  else if verb = "LISTCAT" || verb = "LISTC" then listcat view command
  else if verb = "LISTALC" || verb = "LISTA" then listalc view command
  else if verb = "LISTDS" || verb = "LISTD" then listds view command
  else if verb = "SEND" || verb = "SE" then send command
  else if verb = "PARMLIB" then parmlib view command
  else if verb = "" then .error "IKJ56500I COMMAND NAME MISSING"
  else .error ("IKJ56500I COMMAND " ++ verb ++ " NOT FOUND")

end Processor
end TsoBridge.Sim
