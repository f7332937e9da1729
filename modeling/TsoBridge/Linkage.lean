/-
Linkage to a host: the machine, and what is known about its load modules.
A module is looked for once in the life of a session, and the answer
holds from then on, whether it was found or not. Every branch to a module
is noted, also one that never came back.

Everything handed to a service is obtained inside `framed` and is gone
when the scope ends, whatever its outcome.
-/
import TsoBridge.Host
import TsoBridge.ParmList
import TsoBridge.Text.Case

namespace TsoBridge

/-- A machine and the modules looked for so far. -/
structure Linkage (H : Type) extends Machine H where
  /-- Each module that was looked for, with its entry point if it was
  found. -/
  modules : Table String (Option EntryPoint) := {}
  /-- The modules branched to, the oldest first. -/
  calls : List String := []

namespace Linkage

variable {H : Type} {α : Type}

-- ============================================================== storage

/-- An operation on the machine. -/
def onMachine (x : Op (Machine H) α) : Op (Linkage H) α :=
  x.on Linkage.toMachine fun link machine => { link with toMachine := machine }

/-- Obtains storage for the engine. -/
def obtain (length : Nat) : Op (Linkage H) Address :=
  onMachine (Machine.obtain Storage.engineSubpool length)

/-- Obtains storage for the engine and fills it. -/
def obtainWith (data : Bytes) : Op (Linkage H) Address :=
  onMachine (Machine.obtainWith Storage.engineSubpool data)

/-- Writes to storage. -/
def write (address : Address) (data : Bytes) : Op (Linkage H) Unit :=
  onMachine (Machine.write address data)

/-- Reads from storage. -/
def read (address : Address) (length : Nat) : Op (Linkage H) Bytes :=
  onMachine (Machine.read address length)

/-- Reads a fullword from storage. -/
def readFull (address : Address) : Op (Linkage H) UInt32 :=
  onMachine (Machine.readFull address)

/-- Reads a signed fullword from storage. -/
def readSigned (address : Address) : Op (Linkage H) Int32 :=
  onMachine (Machine.readSigned address)

/-- Does `x` inside a storage frame: what it obtains is released when it
ends, whatever its outcome. -/
def framed (x : Op (Linkage H) α) : Op (Linkage H) α := fun link =>
  let (result, after) := x { link with storage := link.storage.openFrame }
  (result, { after with storage := after.storage.closeFrame })

-- ============================================================== modules

variable [Host H]

/-- The entry point of a module, from the first answer the host gave. -/
def fetch (module : String) : Op (Linkage H) EntryPoint := fun link =>
  let key := Text.upper module
  let (found, after) := match link.modules.get? key with
    | some known => (known, link)
    | none =>
      let (found, host) := Host.load link.host key
      (found, { link with host, modules := link.modules.insert key found })
  match found with
  | some entry => (.ok entry, after)
  | none => (fail (.serviceUnavailable key), after)

/-- The first of several modules that is there. -/
def fetchFirst (modules : List String) : Op (Linkage H) EntryPoint :=
  search modules
where
  /-- Tries the modules one after the other. -/
  search : List String → Op (Linkage H) EntryPoint
    | [] => Op.fail (.serviceUnavailable ("/".intercalate modules))
    | module :: rest => do
      match ← (fetch module).attempt with
      | .ok entry => return entry
      | .error _ => search rest

/-- Whether a module was looked for and not found. -/
def isUnavailable (link : Linkage H) (module : String) : Bool :=
  link.modules.get? (Text.upper module) == some none

/-- Branches to an entry point with `r1` in register 1. -/
def branch (entry : EntryPoint) (r1 : Address) : Op (Linkage H) Int32 := fun link =>
  let (r15, machine) := Host.call link.toMachine entry r1
  let after := { link with toMachine := machine, calls := link.calls ++ [entry.module] }
  match r15 with
  | some value => (.ok value, after)
  | none => (trap, after)

/-- Branches to an entry point with a parameter list; the value is that
of register 15. -/
def call (entry : EntryPoint) (parms : ParmList) : Op (Linkage H) Int32 := do
  let r1 ← onMachine (Machine.onStorage (Op.update parms.place))
  branch entry r1

end Linkage
end TsoBridge
