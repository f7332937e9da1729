/-
The simulated host as a host. A call is counted and goes to the service
of its module; a service that finds its parameters wrong answers with a
fixed return code, as does a module nobody knows.
-/
import TsoBridge.Sim.Service.Allocation
import TsoBridge.Sim.Service.Exec

namespace TsoBridge.Sim

namespace SimHost

/-- The service of a module and the return code for wrong parameters. -/
def service (module : String) : (Address → Op (Machine SimHost) Int32) × Int32 :=
  if module = "IKJTSOEV" then (Service.environment, 16)
  else if module = "TSODALC" then (Service.allocate, 16)
  else if module = "TSODFRE" then (Service.free, 16)
  else if module = "IKJTSFI" || module = "IKJEFTSI" then (Service.prepare, 20)
  else if module = "IKJEFTSR" then (Service.execute false, 20)
  else if module = "TSOEFTR" then (Service.execute true, 20)
  else if module = "IRXEXEC" then (Service.interpret, 20)
  else (fun _ => Op.fail (.serviceUnavailable module), 16)

/-- Counts a call. -/
def count (host : SimHost) (module : String) : SimHost :=
  { host with calls := host.calls.insert module ((host.calls.get? module).getD 0 + 1) }

/-- Takes a call. -/
def call (machine : Machine SimHost) (entry : EntryPoint) (r1 : Address) :
    Option Int32 × Machine SimHost :=
  let (run, wrongParms) := service entry.module
  match run r1 { machine with host := machine.host.count entry.module } with
  | (.ok r15, after) => (some r15, after)
  | (.error (.error _), after) => (some wrongParms, after)
  | (.error .trap, after) => (none, after)

/-- Opens a DD by record. -/
def openRecords (host : SimHost) (ddname : String) : Except Error (Option RecordSource) := do
  let dataset ← host.datasetOf ddname
  match dataset.body with
  | .records _ records => return if host.recordAccess then some { records } else none
  | .library _ => throw (.readFailed (Text.upper ddname) .needsMember)
  | .stream _ => return none

/-- Opens a DD as a stream. -/
def openStream (host : SimHost) (ddname : String) : Except Error ByteSource := do
  let dataset ← host.datasetOf ddname
  match dataset.body with
  | .library _ => throw (.readFailed (Text.upper ddname) .needsMember)
  | _ => return { bytes := dataset.streamBytes }

end SimHost

instance : Host SimHost where
  load host module :=
    let name := Text.upper module
    ((host.modules.get? name).map fun address => { module := name, address }, host)
  call := SimHost.call
  openRecords host ddname := (host.openRecords ddname, host)
  openStream host ddname := (host.openStream ddname, host)
  putLine host text level := (.ok (), { host with terminal := host.terminal ++ [(level, text)] })

end TsoBridge.Sim
