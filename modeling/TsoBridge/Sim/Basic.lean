/-
The simulated host: who is logged on, which modules are there, the DD
table and the catalog, what went to the terminal, and how it is told to
misbehave. `build` makes one from its options: user IBMUSER, every module
present, the exec library behind SYSEXEC and a shared stream behind
TSOOUT.

Consumed by the service routines, which take its calls.
-/
import TsoBridge.Host
import TsoBridge.Sim.Processor

namespace TsoBridge.Sim

-- ================================================================ knobs

/-- What the environment service answers. -/
structure Probe where
  rc : Int32 := 0
  reason : UInt32 := 0
  abend : UInt32 := 0
deriving DecidableEq

/-- Which DD name the allocation service reports. -/
inductive DdnameReply where
  /-- The one asked for. -/
  | requested
  /-- One the DD table makes up; the one asked for is ignored. -/
  | system
  /-- This text, though it allocates under the name asked for. -/
  | overwrite (text : String)
deriving DecidableEq

/-- The modules of a host that misses none. -/
def defaultModules : List String :=
  ["IKJTSOEV", "TSODALC", "TSODFRE", "IKJEFTSI", "IKJEFTSR", "TSOEFTR", "IRXEXEC"]

/-- How a simulated host is set up. -/
structure Options where
  userid : String := "IBMUSER"
  /-- The load modules, in the order of their addresses. -/
  modules : List String := defaultModules
  probe : Probe := {}
  /-- Whether DDs can be read by record. -/
  recordAccess : Bool := true
  /-- Error and reason code with which every prepare call fails. -/
  prepareError : Option (Int32 × UInt32) := none
  /-- Reason code with which every free fails. -/
  freeFailure : Option UInt16 := none
  reply : DdnameReply := .requested
  /-- The verbs that have to run authorized. -/
  authcmd : List String := ["PARMLIB"]
  /-- The members of the exec library. -/
  execMembers : List String := ["LUTSO"]
  /-- Datasets in the catalog, with their lines. -/
  datasets : List (String × List String) := []
  /-- Length and bytes that stand for the result of every exec. -/
  evalOverride : Option (Int32 × Bytes) := none
deriving DecidableEq

namespace Options

/-- Adds a module. -/
def withModule (options : Options) (module : String) : Options :=
  let module := Text.upper module
  if options.modules.contains module then options
  else { options with modules := options.modules ++ [module] }

/-- Takes a module away. -/
def withoutModule (options : Options) (module : String) : Options :=
  { options with modules := options.modules.filter (· ≠ Text.upper module) }

end Options

-- ============================================================= the host

/-- A simulated host. -/
structure SimHost where
  userid : String
  /-- The addresses of the load modules. -/
  modules : Table String Address
  probe : Probe
  /-- The command processor list, once there is one. -/
  cppl : Option Address := none
  /-- How often the environment service was called. -/
  probeCount : Nat := 0
  /-- How often each module was called. -/
  calls : Table String Nat := {}
  dds : DdTable
  catalog : Catalog
  recordAccess : Bool
  prepareError : Option (Int32 × UInt32)
  freeFailure : Option UInt16
  reply : DdnameReply
  authcmd : List String
  evalOverride : Option (Int32 × Bytes)
  /-- The tokens handed out. -/
  tokens : List Bytes := []
  nextToken : UInt32 := 1
  /-- The number of temporary datasets made. -/
  tempSeq : UInt32 := 0
  /-- The commands run, the oldest first. -/
  executed : List Command := []
  /-- What went to the terminal, the oldest line first. -/
  terminal : List (MessageLevel × String) := []
  clock : Clock
  logon : DateTime

namespace SimHost

/-- The address of the first module. -/
def moduleBase : Nat := 0x800000

/-- Modules one after the other from an index on. -/
def loadFrom (index : Nat) (table : Table String Address) : List String → Table String Address
  | [] => table
  | module :: rest =>
    loadFrom (index + 1) (table.insert module (UInt32.ofNat (moduleBase + index * 0x1000))) rest

/-- A dataset of eighty-byte records with the given lines. -/
def textDataset (name : String) (lines : List String) : Dataset :=
  lines.foldl Dataset.push (Dataset.sequential name 80)

/-- The host of the given options, with the clock it goes by. The logon
is the first look at the clock. -/
def build (options : Options) (clock : Clock) : SimHost :=
  let userid := Text.upper options.userid
  let library := Dataset.library (userid ++ ".LUAZ.EXEC") options.execMembers
  let shared := Dataset.stream (userid ++ ".LUAZ.TSOOUT")
  let texts := options.datasets.map fun (name, lines) => textDataset name lines
  let dds := DdTable.enter
    (DdTable.enter {} { ddname := "SYSEXEC", dsname := library.name, status := .shr,
                        temporary := false })
    { ddname := "TSOOUT", dsname := shared.name, status := .mod, temporary := false }
  { userid
    modules := loadFrom 0 {} options.modules
    probe := options.probe
    dds
    catalog := (library :: shared :: texts).foldl Catalog.define {}
    recordAccess := options.recordAccess
    prepareError := options.prepareError
    freeFailure := options.freeFailure
    reply := options.reply
    authcmd := options.authcmd.map Text.upper
    evalOverride := options.evalOverride
    clock := clock.tick
    logon := clock.now }

/-- How often a module was called. -/
def callCount (host : SimHost) (module : String) : Nat :=
  (host.calls.get? (Text.upper module)).getD 0

/-- What a command processor sees. -/
def view (host : SimHost) : SessionView :=
  { userid := host.userid, dds := host.dds, catalog := host.catalog, authcmd := host.authcmd
    now := host.clock.now, logon := host.logon }

/-- Runs a command line and notes the command. -/
def execute (host : SimHost) (text : String) : CommandResult × SimHost :=
  let command := Command.parse text
  (Processor.execute host.view command,
   { host with clock := host.clock.tick, executed := host.executed ++ [command] })

-- ============================================================== datasets

/-- The name of the dataset behind a DD. -/
def dsnameOf (host : SimHost) (ddname : String) : Except Error String :=
  match host.dds.lookup ddname with
  | some entry => .ok entry.dsname
  | none => .error (.readFailed (Text.upper ddname) .notAllocated)

/-- The dataset behind a DD. -/
def datasetOf (host : SimHost) (ddname : String) : Except Error Dataset := do
  let dsname ← host.dsnameOf ddname
  match host.catalog.get? dsname with
  | some dataset => return dataset
  | none => throw (.readFailed (Text.upper ddname) (.notCataloged dsname))

/-- Appends a line to the dataset behind a DD. -/
def appendTo (host : SimHost) (ddname line : String) : Outcome SimHost := do
  let dataset ← host.datasetOf ddname
  return { host with catalog := host.catalog.define (← dataset.append line) }

/-- Starts the stream behind a DD anew. -/
def rotate (host : SimHost) (ddname : String) : Except Error SimHost := do
  let dsname ← host.dsnameOf ddname
  match host.catalog.get? dsname with
  | some dataset => return { host with catalog := host.catalog.define { dataset with body := .stream [] } }
  | none => return host

/-- Allocates a DD as a logon procedure would. -/
def defineDd (host : SimHost) (ddname dsname : String) (status : DatasetStatus) :
    Outcome SimHost := do
  match ← host.dds.allocate (some ddname) dsname status false with
  | .ok (_, dds) => return { host with dds }
  | .error refusal =>
    fail (.allocationFailed (Text.upper ddname) WorkArea.refusedRc refusal.reason 0 0)

end SimHost
end TsoBridge.Sim
