/-
The environment service of the simulated host: answers as it is told to
and, where the answer leaves a usable environment, hands out the command
processor list, which it makes once and keeps in its own subpool.
-/
import TsoBridge.Environment
import TsoBridge.Sim.Basic

namespace TsoBridge.Sim.Service

/-- The size of a command processor list. -/
def cpplSize : Nat := 16

/-- The sizes of the four areas a command processor list points to. -/
def cpplAreas : List Nat := [132, 24, 72, 56]

/-- The parameters of a call, of which there must be `count`. -/
def parms (count : Nat) (r1 : Address) : Op (Machine SimHost) (Vector Address count) :=
  Op.examine fun machine => ParmList.decodeExact machine.storage r1 count

/-- The parameters of a call that has five. -/
def fiveParms (r1 : Address) :
    Op (Machine SimHost) (Address × Address × Address × Address × Address) := do
  let p ← parms 5 r1
  return (p[0], p[1], p[2], p[3], p[4])

/-- The host as it is. -/
def theHost : Op (Machine SimHost) SimHost :=
  Op.gets fun machine => machine.host

/-- Changes the host. -/
def modifyHost (f : SimHost → SimHost) : Op (Machine SimHost) Unit :=
  Machine.onHost (Op.modify f)

/-- Obtains areas and writes their addresses from the word with the given
index on. -/
def fillCppl (cppl : Address) (index : Nat) : List Nat → Op (Machine SimHost) Unit
  | [] => return ()
  | length :: rest => do
    let area ← Machine.obtain Storage.hostSubpool length
    Machine.writeFull (← cppl.plus (index * 4)) area
    fillCppl cppl (index + 1) rest

/-- The command processor list, made on first use. -/
def ensureCppl : Op (Machine SimHost) Address := do
  match (← theHost).cppl with
  | some cppl => return cppl
  | none =>
    let cppl ← Machine.obtain Storage.hostSubpool cpplSize
    fillCppl cppl 0 cpplAreas
    modifyHost fun host => { host with cppl := some cppl }
    return cppl

/-- The command processor list that goes with a return code, zero if the
environment is not usable. -/
def offeredCppl (rc : Int32) : Op (Machine SimHost) Address :=
  if Environment.isUsable rc then ensureCppl else pure 0

/-- The environment service. In an environment that is established
already, return code 0 becomes 8. -/
def environment (r1 : Address) : Op (Machine SimHost) Int32 := do
  let (_, rcAt, reasonAt, abendAt, cpplAt) ← fiveParms r1
  modifyHost fun host => { host with probeCount := host.probeCount + 1 }
  let host ← theHost
  let rc := if host.probe.rc = 0 ∧ host.cppl.isSome then 8 else host.probe.rc
  let cppl ← offeredCppl rc
  Machine.writeSigned rcAt rc
  Machine.writeFull reasonAt host.probe.reason
  Machine.writeFull abendAt host.probe.abend
  Machine.writeFull cpplAt cppl
  return rc

end TsoBridge.Sim.Service
