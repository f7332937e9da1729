/-
The TSO environment of a session. The first use of the environment asks
the host's environment service once; what it answered, good or bad, holds
for the rest of the session. Only a command processor list handed in from
outside takes the place of an earlier answer.

A storage or addressing failure of the engine's own during the question
answers nothing: the environment stays unknown and the question does not
count.
-/
import TsoBridge.Linkage

namespace TsoBridge

/-- Leave to use the command services: the address of the command
processor list, or zero for none. -/
structure Capability where
  cppl : Address
deriving DecidableEq

/-- Whether there is a command processor list to hand on. -/
def Capability.hasCppl (capability : Capability) : Bool :=
  capability.cppl != 0

/-- Where a capability comes from. -/
inductive CapabilitySource where
  /-- The environment service, with its return code. -/
  | probed (rc : Int32)
  /-- An enclosing command processor. -/
  | adopted
deriving DecidableEq

/-- What is known about the environment. -/
inductive EnvironmentState where
  | unknown
  | ready (capability : Capability) (source : CapabilitySource)
  | failed (rc : Int32) (reason abend : UInt32)
deriving DecidableEq

/-- The environment of a session and how often the host was asked. -/
structure Environment where
  state : EnvironmentState := .unknown
  probes : Nat := 0
deriving DecidableEq

/-- What the environment service answered. -/
structure ProbeReport where
  rc : Int32
  reason : UInt32
  abend : UInt32
  cppl : Address
deriving DecidableEq

namespace Environment

variable {H : Type}

/-- The return codes that leave a usable environment: established,
established before, and running under TSO already. -/
def isUsable (rc : Int32) : Bool :=
  rc == 0 || rc == 8 || rc == 24

/-- What a report says about the environment. -/
def stateOf (report : ProbeReport) : EnvironmentState :=
  if isUsable report.rc then .ready ⟨report.cppl⟩ (.probed report.rc)
  else .failed report.rc report.reason report.abend

/-- The capability, or why there is none. -/
def answer : EnvironmentState → Except Error (Option Capability)
  | .unknown => .ok none
  | .ready capability _ => .ok (some capability)
  | .failed rc reason abend => .error (.environmentUnavailable rc reason abend)

/-- Takes a command processor list from outside. -/
def adopt (environment : Environment) (cppl : Address) : Environment :=
  { environment with state := .ready ⟨cppl⟩ .adopted }

variable [Host H]

/-- Puts the question to the environment service. -/
def question (entry : EntryPoint) : Op (Linkage H) ProbeReport :=
  Linkage.framed do
    let parm ← Linkage.obtain 4
    let rc ← Linkage.obtain 4
    let reason ← Linkage.obtain 4
    let abend ← Linkage.obtain 4
    let cppl ← Linkage.obtain 4
    let _ ← Linkage.call entry { leading := [parm, rc, reason, abend], last := cppl }
    return { rc := ← Linkage.readSigned rc
             reason := ← Linkage.readFull reason
             abend := ← Linkage.readFull abend
             cppl := ← Linkage.readFull cppl }

/-- Asks the environment service. -/
def probe : Op (Linkage H) ProbeReport := do
  let entry ← Linkage.fetch "IKJTSOEV"
  question entry

/-- Finds out about an unknown environment. A host without the service
has no environment. -/
def discover : Op (Linkage H × Environment) Unit := do
  let state ← match ← (Op.onFirst probe).attempt with
    | .ok report => pure (stateOf report)
    | .error (.serviceUnavailable _) => pure (.failed (-1) 0 0)
    | .error cause => Op.fail cause
  Op.onSecond (Op.modify fun environment => { state, probes := environment.probes + 1 })

/-- The capability of the session; asks the host if nothing is known. -/
def establish : Op (Linkage H × Environment) Capability := do
  let known ← answer (← Op.gets fun s => s.2.state)
  match known with
  | some capability => return capability
  | none =>
    discover
    match ← answer (← Op.gets fun s => s.2.state) with
    | some capability => return capability
    | none => Op.fail (.environmentUnavailable (-1) 0 0)

end Environment
end TsoBridge
