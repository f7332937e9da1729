/-
Bindings: the DDs a session has allocated and not yet freed. Names not
asked for come from a counter; what the host says about the name it
assigned is believed, and an answer that is no DD name is taken back and
reported. A binding is freed at most once: from the moment the free is
attempted it is no longer live, whatever the host answers.

`withBinding` ties an allocation to one free around some work. The result
of the work and that of the free are kept apart, so a failed free never
hides what the work returned.
-/
import TsoBridge.Environment
import TsoBridge.Name.Generator
import TsoBridge.Request

namespace TsoBridge

/-- The name counter and the live bindings of a session. -/
structure Bindings where
  names : NameGenerator := {}
  live : Table DdName Unit := {}
deriving DecidableEq

namespace Bindings

variable {H : Type} {α : Type}

/-- Whether a name is live. -/
def isLive (bindings : Bindings) (name : DdName) : Bool :=
  bindings.live.contains name

/-- The live names in ascending order. -/
def liveNames (bindings : Bindings) : List DdName :=
  bindings.live.keys

-- ================================================================ names

/-- The next generated name that is not live, found among `fuel` names;
the one after them if all are live. -/
def freshFrom (live : Table DdName Unit) : Nat → NameGenerator → DdName × NameGenerator
  | 0, names => names.next
  | fuel + 1, names =>
    let (candidate, rest) := names.next
    if live.contains candidate then freshFrom live fuel rest else (candidate, rest)

/-- A generated name that is not live. -/
def fresh : Op Bindings DdName := fun bindings =>
  let (name, names) := freshFrom bindings.live NameGenerator.space bindings.names
  (.ok name, { bindings with names })

-- ============================================================= requests

variable [Host H]

/-- Sends one request of the allocation services: writes what `prepare`
makes of a work area and returns what `decode` finds in it. -/
def request (entry : EntryPoint) (capability : Capability) (ddname : String)
    (prepare : Address → Outcome Bytes) (decode : Bytes → Outcome AllocationResult) :
    Op (Linkage H) AllocationResult :=
  Linkage.framed do
    let area ← Linkage.obtain WorkArea.size
    let name ← Linkage.obtainWith (CodePage.encodeField 8 ddname)
    let rc ← Linkage.obtain 4
    let catalogRc ← Linkage.obtain 4
    Linkage.write area (← prepare area)
    let r15 ← Linkage.call entry
      { leading := [capability.cppl, name, rc, catalogRc], last := area }
    let result ← decode (← Linkage.read area WorkArea.size)
    return result.orElse r15

/-- A work area before a request is written. -/
def blankArea : Bytes :=
  List.replicate WorkArea.size 0

/-- Asks the host to allocate. -/
def requestAllocate (entry : EntryPoint) (capability : Capability) (ddname : DdName)
    (wanted : AllocationRequest) : Op (Linkage H) AllocationResult :=
  request entry capability ddname.text
    (fun area => WorkArea.prepareAllocate blankArea area ddname.text wanted.dsname wanted.status)
    WorkArea.decodeAllocate

/-- Asks the host to free. -/
def requestFree (capability : Capability) (ddname : String) :
    Op (Linkage H) AllocationResult := do
  let entry ← Linkage.fetch "TSODFRE"
  request entry capability ddname
    (fun area => WorkArea.prepareFree blankArea area ddname) WorkArea.decodeFree

/-- Takes back an allocation under a name that cannot be bound: the first
of the given names the host agrees to free. -/
def takeBack (capability : Capability) : List String → Op (Linkage H) Unit
  | [] => pure ()
  | ddname :: rest => do
    match ← (requestFree capability ddname).attempt with
    | .ok result => if result.succeeded then return () else takeBack capability rest
    | .error _ => takeBack capability rest

/-- The names an unusable allocation may be held under: the one assigned,
then the one asked for. -/
def takeBackNames (requested : DdName) (assigned : String) : List String :=
  (if assigned = "" then [] else [assigned])
    ++ (if Text.sameLetters assigned requested.text then [] else [requested.text])

-- ================================================== allocating, freeing

/-- The name an allocation asks for: the one wanted, or a generated
one. -/
def requestedName (wanted : AllocationRequest) : Op (Linkage H × Bindings) DdName :=
  match wanted.ddname with
  | some name => liftM (DdName.ofString name)
  | none => Op.onSecond fresh

/-- Binds the name the host assigned, or takes back what cannot be
bound. -/
def settle (capability : Capability) (requested : DdName) (result : AllocationResult) :
    Op (Linkage H × Bindings) (DdName × AllocationResult) :=
  if !result.succeeded then
    Op.fail (.allocationFailed requested.text result.serviceRc result.reasonCode
      result.catalogRc result.secondaryFlags)
  else match DdName.ofString result.assignedName with
    | .ok assigned => do
      Op.onSecond (Op.modify fun bindings =>
        { bindings with live := bindings.live.insert assigned () })
      return (assigned, result)
    | .error _ => do
      Op.onFirst (takeBack capability (takeBackNames requested result.assignedName))
      Op.fail (.unusableDdname requested.text result.assignedName result.serviceRc
        result.reasonCode result.catalogRc)

/-- Allocates; the name is the one the host assigned. -/
def allocate (capability : Capability) (wanted : AllocationRequest) :
    Op (Linkage H × Bindings) (DdName × AllocationResult) := do
  let requested ← requestedName wanted
  let entry ← Op.onFirst (Linkage.fetch "TSODALC")
  let result ← Op.onFirst (requestAllocate entry capability requested wanted)
  settle capability requested result

/-- Frees a live binding. -/
def free (capability : Capability) (name : DdName) :
    Op (Linkage H × Bindings) AllocationResult := do
  if !(← Op.gets fun s => s.2.isLive name) then
    Op.fail (.notAllocated name.text)
  else
    let _ ← Op.onFirst (Linkage.fetch "TSODFRE")
    Op.onSecond (Op.modify fun bindings => { bindings with live := bindings.live.erase name })
    let result ← Op.onFirst (requestFree capability name.text)
    if result.succeeded then return result
    else Op.fail (.allocationFailed name.text result.serviceRc result.reasonCode
      result.catalogRc result.secondaryFlags)

-- ============================================================== cleanup

/-- A failed free as it is reported after a command. -/
def cleanupFailure (name : DdName) : Error → Error
  | .allocationFailed ddname rc reason catalogRc _ => .cleanupFailed ddname rc reason catalogRc
  | _ => .cleanupFailed name.text (-1) 0 0

/-- Frees a binding; the value is what went wrong. -/
def release (capability : Capability) (name : DdName) :
    Op (Linkage H × Bindings) (Option Error) := do
  match ← (free capability name).attempt with
  | .ok _ => return none
  | .error cause => return some (cleanupFailure name cause)

/-- Frees several bindings; the value is all that went wrong. -/
def releaseEach (capability : Capability) : List DdName → Op (Linkage H × Bindings) (List Error)
  | [] => return []
  | name :: rest => do
    let failure ← release capability name
    return failure.toList ++ (← releaseEach capability rest)

/-- Frees every live binding; the value is all that went wrong. -/
def releaseAll (capability : Capability) : Op (Linkage H × Bindings) (List Error) := do
  releaseEach capability (← Op.gets fun s => s.2.liveNames)

/-- The result of some work with a binding and what went wrong when the
binding was freed. -/
structure Released (α : Type) where
  result : Except Error α
  cleanup : Option Error

/-- Allocates a temporary dataset, does `work` with it and frees it. Fails
as a whole only if the allocation does, and then the work is not done. -/
def withBinding (capability : Capability) (hint : Option String)
    (work : DdName → Op (Linkage H) α) : Op (Linkage H × Bindings) (Released α) := do
  let (name, _) ← allocate capability (AllocationRequest.temporary hint)
  let result ← (Op.onFirst (work name)).attempt
  let cleanup ← release capability name
  return { result, cleanup }

end Bindings
end TsoBridge
