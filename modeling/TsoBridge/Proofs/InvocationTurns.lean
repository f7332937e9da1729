/-
One invocation, driven in any order. A caller holds an invocation and asks
it to prepare or to execute, as often and in whatever order it likes, each
time on the linkage it has then. `Turn` is one such request, a `Visit` a
turn with where it was made, and `History` a row of visits to one
invocation.

# What the host is called with

`Noted` stands in front of a host and writes down every call: where it went,
the storage it was given and the storage it left. To the engine it is the
host (`Noted.maps`), so a visit under watch ends as it does without
(`Visit.watched_run`), and what is written down are the calls of the visit.

# The argument

A turn in order makes one call at most, and without a call it does not trap:
`Linkage.guarded_exchange` says so for the two services, and with it what
stands in storage on either side of the call. A turn out of order does nothing at all. So the
progress of an invocation tells which services were called, and `Account` is
what it tells; a visit keeps the account (`Account.visit`), and so does a
history (`History.account`).
-/
import TsoBridge.Proofs.CleanupReport
import TsoBridge.Proofs.Sim.FramedCall

namespace TsoBridge

variable {H : Type} {α β : Type}

-- =========================================================== noted hosts

/-- A call of a host: the entry point and register 1, the storage the
service was given, register 15 (none if it trapped), and the storage it
left. -/
structure CallNote where
  entry : EntryPoint
  r1 : Address
  given : Storage
  r15 : Option Int32
  left : Storage
deriving DecidableEq

namespace CallNote

/-- The service left this token in the prepare block it was given, the first
of its parameters. -/
def Returned (note : CallNote) (token : Bytes) : Prop :=
  ∃ parms base block, ParmList.decode note.given note.r1 = .ok parms ∧ parms[0]? = some base
    ∧ note.left.read base PrepareBlock.size = .ok block
    ∧ Field.slice block PrepareBlock.token tokenSize = token

/-- The service was given a call block with this token, the ninth of its
parameters. -/
def Carries (note : CallNote) (token : Bytes) : Prop :=
  ∃ parms address, ParmList.decode note.given note.r1 = .ok parms ∧ parms[8]? = some address
    ∧ note.given.read address tokenSize = .ok token

end CallNote

/-- A host with the calls it got, the oldest first. -/
structure Noted (H : Type) where
  host : H
  notes : List CallNote := []

instance [Host H] : Host (Noted H) where
  load noted module :=
    let (found, host) := Host.load noted.host module
    (found, { noted with host })
  call machine entry r1 :=
    let (r15, after) := Host.call (machine.mapHost Noted.host) entry r1
    let note := { entry, r1, given := machine.storage, r15, left := after.storage }
    (r15, { host := { host := after.host, notes := machine.host.notes ++ [note] }
            storage := after.storage })
  openRecords noted ddname :=
    let (source, host) := Host.openRecords noted.host ddname
    (source, { noted with host })
  openStream noted ddname :=
    let (source, host) := Host.openStream noted.host ddname
    (source, { noted with host })
  putLine noted text level :=
    let (result, host) := Host.putLine noted.host text level
    (result, { noted with host })

/-- To the engine a noted host is the host. -/
theorem Noted.maps [Host H] : Host.Maps (Noted.host : Noted H → H) fun _ => True where
  load _ _ := rfl
  call _ _ _ _ := rfl
  openRecords _ _ := rfl
  openStream _ _ := rfl
  putLine _ _ _ := rfl

/-- A linkage under watch, nothing noted yet. -/
def Linkage.noted (link : Linkage H) : Linkage (Noted H) :=
  { host := { host := link.host }, storage := link.storage, modules := link.modules
    calls := link.calls }

-- ========================================================= under watch

namespace Linkage

/-- Under watch `x` does what `y` does without. -/
def Mirrors (x : Op (Linkage (Noted H)) α) (y : Op (Linkage H) α) : Prop :=
  ∀ link, Op.Matches (mapHost Noted.host) x y link

/-- What meets the contract that asks nothing is at least the same under
watch. -/
theorem mirrors_of_meets {value : α → Prop} {x : Op (Linkage (Noted H)) α} {y : Op (Linkage H) α}
    (h : Meets .free Noted.host (fun _ => True) value x y) : Mirrors x y :=
  fun link => (h link trivial).1

end Linkage

namespace Invocation

open Linkage (Mirrors)

variable [Host H]

/-- The prepare half of an invocation, under watch. -/
theorem mirrors_obtainToken (route : Route) :
    Mirrors (obtainToken route : Op (Linkage (Noted H)) Bytes) (obtainToken route) :=
  Linkage.mirrors_of_meets (meets_obtainToken (Linkage.served_free Noted.maps) .any
    (fun _ => trivial) (fun _ _ _ _ => trivial) route)

/-- And the execute half. -/
theorem mirrors_callExecute (capability : Capability) (invocation : Invocation) :
    Mirrors (callExecute capability invocation : Op (Linkage (Noted H)) CommandReport)
      (callExecute capability invocation) :=
  Linkage.mirrors_of_meets (meets_callExecute (Linkage.served_free Noted.maps)
    Error.Running.any.toExecuting (fun _ => trivial) (fun _ _ => trivial)
    (fun _ _ _ _ => trivial) capability)

end Invocation

-- ============================================================== one call

namespace Linkage

/-- At most one call was noted, of which `asked` holds, and no module was
looked for. -/
structure Spoke (modules : Table String (Option EntryPoint)) (asked : CallNote → Prop)
    (link : Linkage (Noted H)) : Prop where
  modules : link.modules = modules
  once : link.host.notes.length ≤ 1
  asked : ∀ note ∈ link.host.notes, asked note

/-- A service trapped. -/
def Unanswered (link : Linkage (Noted H)) : Prop :=
  ∃ note ∈ link.host.notes, note.r15 = none

variable {modules : Table String (Option EntryPoint)} {asked : CallNote → Prop}
  {link : Linkage (Noted H)}

/-- Where nothing was noted, nothing was asked. -/
theorem spoke_of_none (link : Linkage (Noted H)) (h : link.host.notes = []) :
    Spoke link.modules asked link :=
  ⟨rfl, by simp [h], by simp [h]⟩

/-- A step of the storage makes no call. -/
theorem guarded_update {f : Storage → Outcome (α × Storage)} (h : Spoke modules asked link)
    (hsafe : f link.storage ≠ .error .trap) :
    (onMachine (Machine.onStorage (Op.update f)) : Op (Linkage (Noted H)) α).Guarded
      (Spoke modules asked) Unanswered link
      fun a t => ∃ storage, f link.storage = .ok (a, storage) ∧ t = { link with storage } := by
  unfold Op.Guarded Op.Ends onMachine Machine.onStorage
  cases hf : f link.storage with
  | ok pair =>
      obtain ⟨a, storage⟩ := pair
      rw [Op.run_on (Op.run_on (Op.update_of_ok hf))]
      refine ⟨⟨h.modules, h.once, h.asked⟩, fun htrap => ?_, fun b hb => ?_⟩
      · cases htrap
      · cases hb
        exact ⟨storage, rfl, rfl⟩
  | error fault =>
      rw [Op.run_on (Op.run_on (Op.update_of_fault hf))]
      refine ⟨⟨h.modules, h.once, h.asked⟩, fun htrap => ?_, fun b hb => ?_⟩
      · cases htrap
        exact absurd hf hsafe
      · cases hb

/-- Nor does a look at it. -/
theorem guarded_read {address : Address} {length : Nat} (h : Spoke modules asked link)
    (hlength : length ≤ Word.runLimit) :
    (read address length : Op (Linkage (Noted H)) Bytes).Guarded (Spoke modules asked) Unanswered
      link fun bytes t => link.storage.read address length = .ok bytes ∧ t = link :=
  Op.guarded_examine (f := fun link : Linkage (Noted H) => link.storage.read address length) h
    (Storage.read_untrapped link.storage address hlength)

/-- What is known of a call stands whatever becomes of the storage. -/
theorem guarded_framed {x : Op (Linkage (Noted H)) α} {post : α → Linkage (Noted H) → Prop}
    (hpost : ∀ a t storage, post a t → post a { t with storage })
    (h : x.Guarded (Spoke modules asked) Unanswered
      { link with storage := link.storage.openFrame } post) :
    (framed x).Guarded (Spoke modules asked) Unanswered link post :=
  ⟨⟨h.1.modules, h.1.once, h.1.asked⟩, h.2.1, fun a ha => hpost a _ _ (h.2.2 a ha)⟩

variable [Host H]

/-- A branch is noted, with the storage on either side of it. -/
theorem branch_noted (entry : EntryPoint) (r1 : Address) (link : Linkage (Noted H)) :
    (branch entry r1).Ends link fun r t => ∃ note, t.host.notes = link.host.notes ++ [note]
      ∧ t.modules = link.modules ∧ note.entry = entry ∧ note.r1 = r1
      ∧ note.given = link.storage ∧ note.left = t.storage
      ∧ (r = .error .trap → note.r15 = none) := by
  have hr15 : (Host.call link.toMachine entry r1).1
      = (Host.call (link.toMachine.mapHost Noted.host) entry r1).1 := rfl
  refine ⟨{ entry, r1, given := link.storage
            r15 := (Host.call (link.toMachine.mapHost Noted.host) entry r1).1
            left := (Host.call (link.toMachine.mapHost Noted.host) entry r1).2.storage },
    congrArg (fun machine => machine.host.notes) (branch_modules entry r1 link).2.2,
    (branch_modules entry r1 link).1, rfl, rfl, rfl, ?_, fun htrap => ?_⟩
  · exact (congrArg Machine.storage (branch_modules entry r1 link).2.2).symm
  · rw [← hr15]
    unfold branch at htrap
    rcases hcall : Host.call link.toMachine entry r1 with ⟨_ | r15, machine⟩
    · rfl
    · rw [hcall] at htrap
      cases htrap

/-- A call with a parameter list and a look at a block behind it. The block
is read from what the call left. -/
theorem guarded_exchange (link : Linkage (Noted H)) {entry : EntryPoint} {parms : ParmList}
    {base : Address} {size : Nat} {decode : Bytes → Outcome β} (hnone : link.host.notes = [])
    (hwf : link.storage.WellFormed)
    (hcount : parms.leading.length < ParmList.maxParms) (hsize : size ≤ Word.runLimit)
    (hdecode : ∀ bytes, decode bytes ≠ .error .trap)
    (hasked : ∀ note : CallNote, note.entry = entry → note.given.WellFormed →
      parms.Placed note.given note.r1 →
      (∀ base bytes, link.storage.contents base = some bytes →
        note.given.contents base = some bytes) → asked note) :
    (do
      let r15 ← call entry parms
      let result ← decode (← read base size)
      return (r15, result) : Op (Linkage (Noted H)) (Int32 × β)).Guarded
        (Spoke link.modules asked) Unanswered link
      fun answer t => ∃ note block, t.host.notes = [note]
        ∧ ParmList.decode note.given note.r1 = .ok (parms.leading ++ [parms.last])
        ∧ note.left.read base size = .ok block ∧ decode block = .ok answer.2 := by
  have hcall : (call entry parms : Op (Linkage (Noted H)) Int32).Guarded
      (Spoke link.modules asked) Unanswered link fun _ t => ∃ note, t.host.notes = [note]
        ∧ ParmList.decode note.given note.r1 = .ok (parms.leading ++ [parms.last])
        ∧ note.left = t.storage := by
    refine (guarded_update (spoke_of_none link hnone)
      (ParmList.place_untrapped hwf hcount)).bind fun r1 t _ ht => ?_
    obtain ⟨placed, hplace, rfl⟩ := ht
    obtain ⟨hplacedwf, hplaced, hkept⟩ := ParmList.place_ok hwf hplace
    refine (branch_noted entry r1 { link with storage := placed }).mono fun r after hafter => ?_
    obtain ⟨note, hnotes, hmodules, hentry, rfl, rfl, hleft, htrap⟩ := hafter
    dsimp only at hnotes hmodules
    rw [hnone, List.nil_append] at hnotes
    refine ⟨⟨hmodules, by simp [hnotes], fun other hother => ?_⟩, fun h => ?_, fun _ _ => ?_⟩
    · rw [hnotes] at hother
      rw [List.mem_singleton.mp hother]
      exact hasked note hentry hplacedwf hplaced hkept
    · exact ⟨note, by simp [hnotes], htrap h⟩
    · exact ⟨note, hnotes, hplaced.decode hplacedwf hcount, hleft⟩
  refine hcall.bind fun r15 t1 h1 hnoted => ?_
  obtain ⟨note, hnotes, hlist, hleft⟩ := hnoted
  refine (guarded_read h1 hsize).bind fun block t2 h2 hblock => ?_
  obtain ⟨hread, rfl⟩ := hblock
  refine (Op.guarded_lift h2 (hdecode block)).bind fun result t3 h3 hresult => ?_
  obtain ⟨hresult, rfl⟩ := hresult
  exact Op.guarded_pure h3 ⟨note, block, hnotes, hlist, by rw [hleft]; exact hread, hresult⟩

-- =============================================================== look-ups

/-- No call, no trap, and the storage as it was. -/
def looking : Op.Contract (Linkage (Noted H)) where
  given _ := True
  keeps link after := after.host.notes = link.host.notes ∧ after.storage = link.storage
  traps _ _ := False
  keeps_refl _ := ⟨rfl, rfl⟩
  keeps_trans h h' := ⟨h'.1.trans h.1, h'.2.trans h.2⟩
  traps_trans _ h := h

/-- Whoever branches to no module only looks. -/
theorem served_looking : Served looking (id : Noted H → Noted H)
    { Terms.any with called := fun _ => False } where
  maps := Host.maps_id _
  fetch module _ link _ := by
    refine ⟨trivial, fun _ => ⟨?_, (fetch_ends module link).2.1⟩, fun htrap => ?_, fun _ _ => trivial⟩
    · show (fetch module link).2.host.notes = link.host.notes
      unfold fetch
      simp only
      cases link.modules.get? (Text.upper module) with
      | some known => cases known <;> rfl
      | none =>
          have hload : (Host.load link.host (Text.upper module)).2.notes = link.host.notes := rfl
          rcases hfound : Host.load link.host (Text.upper module) with ⟨_ | entry, host⟩
          · rw [hfound] at hload
            exact hload
          · rw [hfound] at hload
            exact hload
    · cases fetch_fault (Prod.ext htrap rfl)
  question _ _ hcalled := hcalled.elim
  allocate _ _ _ _ _ hcalled := hcalled.elim
  free _ _ _ _ hcalled := hcalled.elim
  prepare _ _ hcalled := hcalled.elim
  execute _ _ _ _ _ hcalled := hcalled.elim
  interpret _ _ _ _ hcalled := hcalled.elim
  openRecords _ _ _ :=
    ⟨trivial, fun _ => ⟨rfl, rfl⟩, fun htrap => absurd htrap (Outcome.ofExcept_untrapped _),
      fun _ _ => trivial⟩
  openStream _ _ _ :=
    ⟨trivial, fun _ => ⟨rfl, rfl⟩, fun htrap => absurd htrap (Outcome.ofExcept_untrapped _),
      fun _ _ => trivial⟩

/-- What only looks ends with no call and no trap. -/
structure Quietly (link : Linkage (Noted H)) (r : Outcome α) (t : Linkage (Noted H)) : Prop where
  notes : t.host.notes = link.host.notes
  storage : t.storage = link.storage
  untrapped : r ≠ .error .trap

omit [Host H] in
/-- To meet this contract is to end so. -/
theorem quietly_of_looking {value : α → Prop} {x : Op (Linkage (Noted H)) α}
    (h : x.Fulfils looking id value) (link : Linkage (Noted H)) : x.Ends link (Quietly link) := by
  refine (h link trivial).mono fun r t hkept => ?_
  have hsafe : r ≠ .error .trap := hkept.traps
  exact ⟨(hkept.keeps hsafe).1, (hkept.keeps hsafe).2, hsafe⟩

theorem quietly_fetch {module : String} (h : module ∈ soughtModules) (link : Linkage (Noted H)) :
    (fetch module).Ends link (Quietly link) :=
  quietly_of_looking (served_looking.fetch module h) link

end Linkage

-- ========================================================== the two calls

namespace Invocation

open Linkage (Spoke Unanswered Quietly)

/-- The token of a prepare block. -/
theorem decode_token {block : Bytes} {result : PrepareResult}
    (h : PrepareBlock.decode block = .ok result) :
    Field.slice block PrepareBlock.token tokenSize = result.token
      ∧ result.token.length = tokenSize := by
  obtain ⟨token, htoken, h⟩ := Outcome.bind_ok h
  obtain ⟨error, -, h⟩ := Outcome.bind_ok h
  obtain ⟨abend, -, h⟩ := Outcome.bind_ok h
  obtain ⟨reason, -, h⟩ := Outcome.bind_ok h
  cases h
  obtain ⟨hfits, rfl⟩ := Field.read_ok htoken
  exact ⟨rfl, Field.length_slice hfits⟩

variable [Host H] {link : Linkage (Noted H)}

/-- A prepare call was answered, and this is what the service left. -/
def Answered (answer : Int32 × PrepareResult) (link : Linkage (Noted H)) : Prop :=
  answer.2.token.length = tokenSize
    ∧ ∃ note, link.host.notes = [note] ∧ note.Returned answer.2.token

/-- A prepare call, with what its service left. -/
theorem guarded_sendPrepare (entry : EntryPoint) (hnone : link.host.notes = [])
    (hwf : link.storage.WellFormed) :
    (sendPrepare entry : Op (Linkage (Noted H)) (Int32 × PrepareResult)).Guarded
      (Spoke link.modules fun note => note.entry = entry) Unanswered link Answered := by
  refine Linkage.guarded_framed (fun _ _ _ h => h) ?_
  have hopen : link.storage.openFrame.WellFormed := Storage.openFrame_wellFormed hwf
  have hquiet : Spoke link.modules (fun note => note.entry = entry)
      { link with storage := link.storage.openFrame } :=
    Linkage.spoke_of_none { link with storage := link.storage.openFrame } hnone
  refine (Linkage.guarded_update hquiet
    (Storage.obtain_untrapped hopen _ (by decide))).bind fun base t1 _ h1 => ?_
  obtain ⟨storage, hobtain, rfl⟩ := h1
  obtain ⟨hgrown, hcovers⟩ := Storage.obtain_extends hopen hobtain
  refine Op.ends_lift_of_ok (PrepareBlock.parms_eq (hcovers.le hgrown.wellFormed)) ?_
  have hcount : ([0, 4, PrepareBlock.token, PrepareBlock.error, PrepareBlock.abend].map
      base.shift).length < ParmList.maxParms := show 5 < ParmList.maxParms by decide
  have hsize : PrepareBlock.size ≤ Word.runLimit := by decide
  refine (Linkage.guarded_exchange { link with storage } hnone hgrown.wellFormed hcount hsize
    PrepareBlock.decode_untrapped fun note hentry _ _ _ => hentry).mono
      (fun _ h => h) fun answer t hanswer => ?_
  obtain ⟨note, block, hnotes, hlist, hread, hdecode⟩ := hanswer
  obtain ⟨htoken, hlength⟩ := decode_token hdecode
  have hfirst : some (base.shift 0) = some base := congrArg some (Address.shift_zero base)
  exact ⟨hlength, note, hnotes, _, base, block, hlist, hfirst, hread, htoken⟩

/-- Where the call succeeded, its value is the token the service left. -/
theorem guarded_callPrepare (entry : EntryPoint) (hnone : link.host.notes = [])
    (hwf : link.storage.WellFormed) :
    (callPrepare entry : Op (Linkage (Noted H)) Bytes).Guarded
      (Spoke link.modules fun note => note.entry = entry) Unanswered link
      fun token t => token.length = tokenSize
        ∧ ∃ note, t.host.notes = [note] ∧ note.Returned token := by
  refine (guarded_sendPrepare entry hnone hwf).bind fun answer t ht hanswer => ?_
  obtain ⟨r15, result⟩ := answer
  simp only
  split
  · exact Op.guarded_fail _ ht _
  · exact Op.guarded_pure ht hanswer

/-- Handing over a call block: the service finds its token there. -/
theorem guarded_sendBlock (entry : EntryPoint) (capability : Capability) (block : CallBlock)
    (htoken : block.token.length = tokenSize)
    (hcommand : block.command.length ≤ CallBlock.maxCommand) (hnone : link.host.notes = [])
    (hwf : link.storage.WellFormed) :
    (sendBlock entry capability block : Op (Linkage (Noted H)) (Int32 × ExecuteResult)).Guarded
      (Spoke link.modules fun note => note.entry = entry ∧ note.Carries block.token) Unanswered
      link fun _ _ => True := by
  refine Linkage.guarded_framed (fun _ _ _ h => h) ?_
  have hopen : link.storage.openFrame.WellFormed := Storage.openFrame_wellFormed hwf
  have hquiet : Spoke link.modules (fun note => note.entry = entry ∧ note.Carries block.token)
      { link with storage := link.storage.openFrame } :=
    Linkage.spoke_of_none { link with storage := link.storage.openFrame } hnone
  refine (Op.guarded_lift hquiet (CallBlock.encode_untrapped (by omega) hcommand)).bind
    fun bytes t _ ht => ?_
  obtain ⟨hbytes, rfl⟩ := ht
  have hlength := CallBlock.length_encode hbytes
  unfold CallBlock.maxCommand at hcommand
  have hlimit : bytes.length ≤ Storage.addressLimit := by
    unfold CallBlock.commandAt at hlength
    unfold Storage.addressLimit
    omega
  refine (Linkage.guarded_update hquiet
    (Storage.obtainWith_untrapped hopen _ hlimit)).bind fun base t1 _ h1 => ?_
  obtain ⟨storage, hobtain, rfl⟩ := h1
  obtain ⟨hcontents, -, -⟩ := Storage.obtainWith_contents hopen hobtain
  have hfilled : storage.WellFormed := (Linkage.evolves_obtainWith hobtain).wellFormed hopen
  have hbelow : base.toNat + CallBlock.commandAt ≤ Storage.addressLimit := by
    have hend := hfilled.contents_le hcontents
    omega
  have hparms := CallBlock.parms_eq hbelow capability.cppl
  refine Op.ends_lift_of_ok hparms ?_
  have hcount : ([CallBlock.flagsAt, CallBlock.commandAt, CallBlock.lengthAt, CallBlock.rcAt,
      CallBlock.reasonAt, CallBlock.abendAt, CallBlock.programAt].map base.shift
        ++ [CallBlock.cpplOf base capability.cppl, base.shift CallBlock.tokenAt]).length
      < ParmList.maxParms := show 9 < ParmList.maxParms by decide
  have hsize : block.size ≤ Word.runLimit := by
    unfold CallBlock.size CallBlock.commandAt Word.runLimit
    omega
  refine (Linkage.guarded_exchange { link with storage } hnone hfilled hcount hsize
    CallBlock.decode_untrapped fun note hentry hgiven hplaced hkept => ⟨hentry, ?_⟩).mono (fun _ h => h) fun _ _ _ => trivial
  have hsent : CallBlock.Sent note.given block capability.cppl base note.r1 :=
    ⟨hgiven, ⟨bytes, hbytes, hkept base bytes hcontents⟩, _, hparms, hplaced⟩
  exact ⟨_, base.shift CallBlock.tokenAt, hsent.decode, rfl, hsent.token htoken⟩

/-- At most one call was noted, to a module filed under one of `names`, and
of it `asked` holds. -/
structure Heard (names : List String) (asked : CallNote → Prop) (link : Linkage (Noted H)) :
    Prop where
  once : link.host.notes.length ≤ 1
  filed : ∀ note ∈ link.host.notes, ∃ module ∈ names,
    link.modules.get? (Text.upper module) = some (some note.entry)
  asked : ∀ note ∈ link.host.notes, asked note

omit [Host H] in
/-- Silence meets any expectation. -/
theorem heard_of_none (names : List String) (asked : CallNote → Prop)
    (hnone : link.host.notes = []) : Heard names asked link :=
  ⟨by simp [hnone], by simp [hnone], by simp [hnone]⟩

omit [Host H] in
/-- One call to a module that was filed. -/
theorem heard_of_spoke {names : List String} {asked : CallNote → Prop}
    {modules : Table String (Option EntryPoint)} {module : String} {entry : EntryPoint}
    (hmem : module ∈ names) (hfiled : modules.get? (Text.upper module) = some (some entry))
    (h : Spoke modules (fun note => note.entry = entry ∧ asked note) link) :
    Heard names asked link where
  once := h.once
  filed note hnote := by
    rw [h.modules, (h.asked note hnote).1]
    exact ⟨module, hmem, hfiled⟩
  asked note hnote := (h.asked note hnote).2

/-- Resolving a route calls nobody. -/
theorem quietly_resolve (route : Route) (link : Linkage (Noted H)) :
    (resolve route).Ends link (Quietly link) := by
  have hresolve : Linkage.Meets Linkage.looking (id : Noted H → Noted H) (fun _ => True) _
      (resolve route) (resolve route) :=
    meets_resolve Linkage.served_looking (fun _ => trivial) route
  exact Linkage.quietly_of_looking hresolve.fulfils link

/-- Obtaining a token calls the prepare service at most once. -/
theorem guarded_obtainToken (route : Route) (hnone : link.host.notes = [])
    (hwf : link.storage.WellFormed) :
    (obtainToken route : Op (Linkage (Noted H)) Bytes).Guarded
      (Heard prepareModules fun _ => True) Unanswered link
      fun token t => token.length = tokenSize
        ∧ ∃ note, t.host.notes = [note] ∧ note.Returned token := by
  refine ((quietly_resolve route link).and (resolve_files route link)).bind
    (fun entries t ht => ?_) fun fault t ht => ?_
  · obtain ⟨hquiet, hfiles⟩ := ht
    obtain ⟨⟨module, hmem, hfiled⟩, -⟩ := hfiles entries rfl
    have hcall := guarded_callPrepare entries.1 (hquiet.notes.trans hnone)
      (by rw [hquiet.storage]; exact hwf)
    refine hcall.mono (fun u hu => ?_) fun _ _ h => h
    exact heard_of_spoke hmem hfiled
      ⟨hu.modules, hu.once, fun note hnote => ⟨hu.asked note hnote, trivial⟩⟩
  · obtain ⟨hquiet, -⟩ := ht
    refine ⟨heard_of_none _ _ (hquiet.notes.trans hnone), fun htrap => ?_, fun _ h => by cases h⟩
    cases htrap
    exact absurd rfl hquiet.untrapped

/-- Executing with a token calls the execute service at most once, with a
call block that carries the token. -/
theorem guarded_callExecute (capability : Capability) {invocation : Invocation} {token : Bytes}
    (htoken : invocation.token = some token) (hlength : token.length = tokenSize)
    (hnone : link.host.notes = []) (hwf : link.storage.WellFormed) :
    (callExecute capability invocation : Op (Linkage (Noted H)) CommandReport).Guarded
      (Heard [invocation.route.module] fun note => note.Carries token) Unanswered link
      fun _ _ => True := by
  have hheld : (liftM invocation.heldToken : Op (Linkage (Noted H)) Bytes) link
      = (.ok token, link) := by
    unfold heldToken
    rw [htoken]
    rfl
  refine Op.Ends.bind_of_ok hheld ?_
  refine ((Linkage.quietly_fetch invocation.route.module_sought link).and
    (Linkage.fetch_ends invocation.route.module link)).bind (fun entry t ht => ?_)
    fun fault t ht => ?_
  · obtain ⟨hquiet, -, -, hfiled⟩ := ht
    have hsilent : t.host.notes = [] := hquiet.notes.trans hnone
    have hheard : Heard [invocation.route.module] (fun note => note.Carries token) t :=
      heard_of_none _ _ hsilent
    refine (Op.guarded_lift_except hheard).bind fun bare u _ hu => ?_
    obtain ⟨hmake, rfl⟩ := hu
    obtain ⟨rfl, hfits⟩ := CallBlock.make_fits hmake
    have hsend := guarded_sendBlock entry capability
      { bare with output := invocation.output.map DdName.text } hlength hfits hsilent
      (by rw [hquiet.storage]; exact hwf)
    refine (hsend.mono (fun w hw => ?_) fun _ _ h => h).bind fun answer w hw _ => ?_
    · exact heard_of_spoke (List.mem_singleton_self _) (hfiled entry rfl) hw
    · exact (Op.guarded_lift_except hw).mono (fun _ h => h) fun _ _ _ => trivial
  · obtain ⟨hquiet, -⟩ := ht
    refine ⟨heard_of_none _ _ (hquiet.notes.trans hnone), fun htrap => ?_, fun _ h => by cases h⟩
    cases htrap
    exact absurd rfl hquiet.untrapped

end Invocation

-- ================================================================= turns

/-- What can be asked of an invocation. -/
inductive Turn where
  | prepare
  | execute (capability : Capability)
deriving DecidableEq

namespace Turn

open Invocation

/-- Whether a turn asks for prepare. -/
def prepares : Turn → Bool
  | .prepare => true
  | .execute _ => false

/-- The progress a turn is in order in. -/
def due : Turn → Progress
  | .prepare => .idle
  | .execute _ => .prepared

/-- The progress a turn moves to first. -/
def target : Turn → Progress
  | .prepare => .preparing
  | .execute _ => .executing

/-- A turn may be taken in one progress only. -/
theorem mayMove_target (turn : Turn) (progress : Progress) :
    mayMove progress turn.target = true ↔ progress = turn.due := by
  cases turn <;> cases progress <;> simp [mayMove, target, due]

variable [Host H]

/-- A turn; the value of execute is the report. -/
def perform : Turn → Op (Linkage H × Invocation) (Option CommandReport)
  | .prepare => do
    Invocation.prepare
    return none
  | .execute capability => do return some (← Invocation.execute capability)

omit [Host H] in
/-- Any other progress is refused by name. -/
theorem advance_refused {target : Progress} {s : Linkage H × Invocation}
    (h : mayMove s.2.progress target ≠ true) :
    advance target s = (fail (.invalidState s.2.progress target), s) := by
  unfold advance
  rw [Op.run_bind_of_ok (show Op.gets _ s = (.ok s.2.progress, s) from rfl), if_neg h]
  rfl

/-- A turn out of order is refused and does nothing. -/
theorem perform_out_of_order (turn : Turn) {s : Linkage H × Invocation}
    (h : s.2.progress ≠ turn.due) :
    turn.perform s = (fail (.invalidState s.2.progress turn.target), s) := by
  have hrefused := advance_refused ((mayMove_target turn s.2.progress).not.mpr h)
  cases turn with
  | prepare =>
      have hprepare : Invocation.prepare s = (fail (.invalidState s.2.progress .preparing), s) :=
        Op.run_bind_of_fault hrefused
      exact Op.run_bind_of_fault hprepare
  | execute capability =>
      have hexecute : Invocation.execute capability s
          = (fail (.invalidState s.2.progress .executing), s) :=
        Op.run_bind_of_fault hrefused
      exact Op.run_bind_of_fault hexecute

/-- A linkage under watch beside an invocation, without the watch. -/
def bare (s : Linkage (Noted H) × Invocation) : Linkage H × Invocation :=
  (s.1.mapHost Noted.host, s.2)

omit [Host H] in
/-- Progress does not see the host. -/
theorem matches_advance (target : Progress) (s : Linkage (Noted H) × Invocation) :
    Op.Matches bare (advance target) (advance target) s := by
  unfold advance
  refine Op.Matches.bind rfl fun source t _ => ?_
  split
  · rfl
  · rfl

omit [Host H] in
theorem matches_onFirst {x : Op (Linkage (Noted H)) α} {y : Op (Linkage H) α}
    (h : Linkage.Mirrors x y) (s : Linkage (Noted H) × Invocation) :
    Op.Matches bare (Op.onFirst x) (Op.onFirst y) s :=
  (h s.1).on rfl fun _ => rfl

/-- A turn under watch ends as it does without. -/
theorem matches_perform (turn : Turn) (s : Linkage (Noted H) × Invocation) :
    Op.Matches bare turn.perform turn.perform s := by
  cases turn with
  | prepare =>
      refine Op.Matches.bind ?_ fun _ t _ => rfl
      refine (matches_advance _ s).bind fun _ t1 _ => ?_
      refine Op.Matches.bind rfl fun route t2 _ => ?_
      refine (matches_onFirst (mirrors_obtainToken route) t2).attempt.bind fun result t3 _ => ?_
      cases result with
      | ok token => exact Op.Matches.bind rfl fun _ t4 _ => matches_advance _ t4
      | error cause => exact (matches_advance _ t3).bind fun _ _ _ => rfl
  | execute capability =>
      refine Op.Matches.bind ?_ fun _ t _ => rfl
      refine (matches_advance _ s).bind fun _ t1 _ => ?_
      refine Op.Matches.bind rfl fun invocation t2 _ => ?_
      refine (matches_onFirst (mirrors_callExecute capability invocation) t2).attempt.bind
        fun result t3 _ => ?_
      cases result with
      | ok report => exact (matches_advance _ t3).bind fun _ _ _ => rfl
      | error cause => exact (matches_advance _ t3).bind fun _ _ _ => rfl

end Turn

-- ================================================================ visits

/-- A turn, with the linkage and the invocation it was asked on. -/
structure Visit (H : Type) where
  turn : Turn
  link : Linkage H
  invocation : Invocation

namespace Visit

open Linkage (Unanswered)
open Invocation (Heard)

variable [Host H]

/-- How a visit ended, and what it left. -/
def run (v : Visit H) : Outcome (Option CommandReport) × Linkage H × Invocation :=
  v.turn.perform (v.link, v.invocation)

/-- The same under watch. -/
def watched (v : Visit H) : Outcome (Option CommandReport) × Linkage (Noted H) × Invocation :=
  v.turn.perform (v.link.noted, v.invocation)

/-- The calls the host got in a visit. -/
def notes (v : Visit H) : List CallNote :=
  v.watched.2.1.host.notes

/-- A visit under watch is the visit. -/
theorem watched_run (v : Visit H) :
    v.run = (v.watched.1, v.watched.2.1.mapHost Noted.host, v.watched.2.2) :=
  Turn.matches_perform v.turn (v.link.noted, v.invocation)

/-- A visit out of order does nothing. -/
theorem out_of_order {v : Visit H} (h : v.invocation.progress ≠ v.turn.due) :
    v.run = (fail (.invalidState v.invocation.progress v.turn.target), v.link, v.invocation)
      ∧ v.notes = [] := by
  refine ⟨v.turn.perform_out_of_order h, ?_⟩
  have hwatched : v.watched = _ :=
    v.turn.perform_out_of_order (s := (v.link.noted, v.invocation)) h
  unfold notes
  rw [hwatched]
  rfl

/-- How a visit in order ends: with a value and the progress `done`, with a
cause and `failed`, or in the middle of things since a service trapped. -/
inductive Ended (v : Visit H) (value : Option CommandReport → Invocation → Prop) : Prop where
  | done {report : Option CommandReport} (hrun : v.run.1 = .ok report)
      (hvalue : value report v.run.2.2)
  | failed {cause : Error} (hrun : v.run.1 = fail cause)
      (hleft : v.run.2.2 = { v.invocation with progress := .failed })
  | cut (hrun : v.run.1 = trap)
      (hleft : v.run.2.2 = { v.invocation with progress := v.turn.target })
      (hnote : ∃ note ∈ v.notes, note.r15 = none)

/-- What is seen under watch is what happened. -/
theorem run_of_watched {v : Visit H} {r : Outcome (Option CommandReport)}
    {link : Linkage (Noted H)} {i : Invocation} (h : v.watched = (r, link, i)) :
    v.run.1 = r ∧ v.run.2.2 = i ∧ v.notes = link.host.notes := by
  unfold notes
  rw [watched_run, h]
  exact ⟨rfl, rfl, rfl⟩

/-- A first visit that asks for prepare. -/
theorem prepare_ended {link : Linkage H} {route : Route} {text : String} {output : Option DdName}
    (hwf : link.storage.WellFormed) {v : Visit H}
    (hv : v = ⟨.prepare, link, { route, text, output }⟩) :
    Heard Invocation.prepareModules (fun _ => True) v.watched.2.1
      ∧ v.Ended fun report i => report = none ∧ ∃ token, token.length = tokenSize
        ∧ i = { v.invocation with progress := .prepared, token := some token }
        ∧ ∃ note, v.notes = [note] ∧ note.Returned token := by
  subst hv
  have hguarded := Invocation.guarded_obtainToken route
    (show link.noted.host.notes = [] from rfl) hwf
  unfold Op.Guarded Op.Ends at hguarded
  have hprepare := Invocation.prepare_run link.noted route text output
  rcases hobtain : Invocation.obtainToken route link.noted with ⟨(cause | _) | token, after⟩
  · rw [hobtain] at hguarded hprepare
    have hwatched : watched ⟨.prepare, link, { route, text, output }⟩
        = (fail cause, after, { route, text, output, progress := .failed }) :=
      Op.run_bind_of_fault hprepare
    obtain ⟨hrun, hleft, -⟩ := run_of_watched hwatched
    exact ⟨by rw [hwatched]; exact hguarded.1, .failed hrun hleft⟩
  · rw [hobtain] at hguarded hprepare
    have hwatched : watched ⟨.prepare, link, { route, text, output }⟩
        = (trap, after, { route, text, output, progress := .preparing }) :=
      Op.run_bind_of_fault hprepare
    obtain ⟨hrun, hleft, hnotes⟩ := run_of_watched hwatched
    exact ⟨by rw [hwatched]; exact hguarded.1,
      .cut hrun hleft (by rw [hnotes]; exact hguarded.2.1 rfl)⟩
  · rw [hobtain] at hguarded hprepare
    have hwatched : watched ⟨.prepare, link, { route, text, output }⟩
        = (.ok none, after,
          { route, text, output, progress := .prepared, token := some token }) :=
      Op.run_bind_of_ok hprepare
    obtain ⟨hrun, hleft, hnotes⟩ := run_of_watched hwatched
    obtain ⟨hlength, note, hnote, hreturned⟩ := hguarded.2.2 token rfl
    exact ⟨by rw [hwatched]; exact hguarded.1,
      .done hrun ⟨rfl, token, hlength, hleft, note, hnotes.trans hnote, hreturned⟩⟩

/-- A visit that asks for execute with a token in hand. -/
theorem execute_ended {link : Linkage H} {i : Invocation} {capability : Capability}
    {token : Bytes} (hprogress : i.progress = .prepared) (htoken : i.token = some token)
    (hlength : token.length = tokenSize) (hwf : link.storage.WellFormed) {v : Visit H}
    (hv : v = ⟨.execute capability, link, i⟩) :
    Heard [i.route.module] (fun note => note.Carries token) v.watched.2.1
      ∧ v.Ended fun _ left => left = { i with progress := .succeeded } := by
  subst hv
  have hguarded := Invocation.guarded_callExecute capability
    (show ({ i with progress := .executing } : Invocation).token = some token from htoken) hlength
    (show link.noted.host.notes = [] from rfl) hwf
  unfold Op.Guarded Op.Ends at hguarded
  have hexecute := Invocation.execute_run capability link.noted hprogress
  rcases hcall : Invocation.callExecute capability { i with progress := .executing } link.noted
    with ⟨(cause | _) | report, after⟩
  · rw [hcall] at hguarded hexecute
    have hwatched : watched ⟨.execute capability, link, i⟩
        = (fail cause, after, { i with progress := .failed }) :=
      Op.run_bind_of_fault hexecute
    obtain ⟨hrun, hleft, -⟩ := run_of_watched hwatched
    exact ⟨by rw [hwatched]; exact hguarded.1, .failed hrun hleft⟩
  · rw [hcall] at hguarded hexecute
    have hwatched : watched ⟨.execute capability, link, i⟩
        = (trap, after, { i with progress := .executing }) :=
      Op.run_bind_of_fault hexecute
    obtain ⟨hrun, hleft, hnotes⟩ := run_of_watched hwatched
    exact ⟨by rw [hwatched]; exact hguarded.1,
      .cut hrun hleft (by rw [hnotes]; exact hguarded.2.1 rfl)⟩
  · rw [hcall] at hguarded hexecute
    have hwatched : watched ⟨.execute capability, link, i⟩
        = (.ok (some report), after, { i with progress := .succeeded }) :=
      Op.run_bind_of_ok hexecute
    obtain ⟨hrun, hleft, -⟩ := run_of_watched hwatched
    exact ⟨by rw [hwatched]; exact hguarded.1, .done hrun hleft⟩

end Visit

-- ============================================================= histories

/-- Visits to one invocation, the oldest first, and what they make of it.
Each is on the linkage the caller has then, whatever became of it in
between. -/
inductive History [Host H] (start : Invocation) : List (Visit H) → Invocation → Prop where
  | nil : History start [] start
  | snoc {past : List (Visit H)} {v : Visit H} (h : History start past v.invocation)
      (hwf : v.link.storage.WellFormed) : History start (past ++ [v]) v.run.2.2

namespace Invocation

variable [Host H] {start i : Invocation} {past early late : List (Visit H)} {v : Visit H}

/-- The calls made in some of the turns. -/
def notesOf (which : Turn → Bool) (past : List (Visit H)) : List CallNote :=
  (past.filter fun v => which v.turn).flatMap Visit.notes

/-- The calls of one more visit come last. -/
theorem notesOf_snoc (which : Turn → Bool) (past : List (Visit H)) (v : Visit H) :
    notesOf which (past ++ [v]) = notesOf which past ++ if which v.turn then v.notes else [] := by
  unfold notesOf
  cases hwhich : which v.turn <;> simp [hwhich]

/-- A visit without a call adds none. -/
theorem notesOf_silent (which : Turn → Bool) (past : List (Visit H)) (h : v.notes = []) :
    notesOf which (past ++ [v]) = notesOf which past := by
  rw [notesOf_snoc, h, ite_self, List.append_nil]

/-- A prepare call returned, and this is the token its service left. -/
def Obtained (past : List (Visit H)) (token : Bytes) : Prop :=
  ∃ p ∈ past, p.turn = .prepare ∧ p.run.1 = .ok none
    ∧ ∃ note, p.notes = [note] ∧ note.Returned token

/-- A service trapped. -/
def Cut (past : List (Visit H)) : Prop :=
  ∃ v ∈ past, ∃ note ∈ v.notes, note.r15 = none

theorem Obtained.snoc {token : Bytes} (h : Obtained past token) (v : Visit H) :
    Obtained (past ++ [v]) token := by
  obtain ⟨p, hmem, hp⟩ := h
  exact ⟨p, List.mem_append_left _ hmem, hp⟩

theorem Cut.snoc (h : Cut past) (v : Visit H) : Cut (past ++ [v]) := by
  obtain ⟨p, hmem, hp⟩ := h
  exact ⟨p, List.mem_append_left _ hmem, hp⟩

/-- What the progress of an invocation tells about the visits so far. -/
structure Account (start : Invocation) (past : List (Visit H)) (i : Invocation) : Prop where
  route : i.route = start.route
  prepared : (notesOf Turn.prepares past).length ≤ 1
  executed : (notesOf (fun turn => !turn.prepares) past).length ≤ 1
  /-- Nothing was asked for yet. -/
  idle : i.progress = .idle → i = start ∧ notesOf Turn.prepares past = []
  /-- Execute was not asked for yet. -/
  early : i.progress = .idle ∨ i.progress = .prepared →
    notesOf (fun turn => !turn.prepares) past = []
  /-- The token in hand is the one a prepare call returned. -/
  token : i.progress = .prepared → ∃ token, i.token = some token ∧ token.length = tokenSize
    ∧ Obtained past token
  /-- In the middle of things a service trapped. -/
  cut : i.progress = .preparing ∨ i.progress = .executing → Cut past

/-- An idle invocation has nothing behind it. -/
theorem account_start (hidle : start.progress = .idle) :
    Account start ([] : List (Visit H)) start where
  route := rfl
  prepared := Nat.zero_le 1
  executed := Nat.zero_le 1
  idle _ := ⟨rfl, rfl⟩
  early _ := rfl
  token h := by
    rw [hidle] at h
    cases h
  cut h := by
    rw [hidle] at h
    rcases h with h | h <;> cases h

/-- A visit without a call that leaves the invocation alone. -/
theorem Account.silent (h : Account start past i) (hnotes : v.notes = []) :
    Account start (past ++ [v]) i where
  route := h.route
  prepared := by rw [notesOf_silent _ _ hnotes]; exact h.prepared
  executed := by rw [notesOf_silent _ _ hnotes]; exact h.executed
  idle hidle := by rw [notesOf_silent _ _ hnotes]; exact h.idle hidle
  early hearly := by rw [notesOf_silent _ _ hnotes]; exact h.early hearly
  token hprepared := by
    obtain ⟨token, htoken, hlength, hobtained⟩ := h.token hprepared
    exact ⟨token, htoken, hlength, hobtained.snoc v⟩
  cut hcut := (h.cut hcut).snoc v

/-- Of an invocation on its way there is less to tell. -/
theorem account_closed (hroute : i.route = start.route)
    (hprepared : (notesOf Turn.prepares past).length ≤ 1)
    (hexecuted : (notesOf (fun turn => !turn.prepares) past).length ≤ 1)
    (hprogress : i.progress ≠ .idle ∧ i.progress ≠ .prepared)
    (hcut : i.progress = .preparing ∨ i.progress = .executing → Cut past) :
    Account start past i where
  route := hroute
  prepared := hprepared
  executed := hexecuted
  idle hidle := absurd hidle hprogress.1
  early hearly := absurd hearly (by simp [hprogress])
  token htoken := absurd htoken hprogress.2
  cut := hcut

/-- The account after a prepare call in order. -/
theorem Account.prepare (h : Account start past i)
    (hfresh : start = { route := start.route, text := start.text, output := start.output })
    (hidle : i.progress = .idle) {link : Linkage H} (hwf : link.storage.WellFormed)
    (hv : v = ⟨.prepare, link, i⟩) : Account start (past ++ [v]) v.run.2.2 := by
  obtain ⟨rfl, hnone⟩ := h.idle hidle
  have hturn : v.turn = .prepare := by rw [hv]
  have hinvocation : v.invocation = i := by rw [hv]
  rw [hfresh] at hv
  obtain ⟨hheard, hended⟩ := Visit.prepare_ended hwf hv
  rw [hinvocation] at hended
  have hexecuted : notesOf (fun turn => !turn.prepares) (past ++ [v]) = [] := by
    rw [notesOf_snoc, h.early (.inl hidle), hturn]
    rfl
  have hprepared : (notesOf Turn.prepares (past ++ [v])).length ≤ 1 := by
    rw [notesOf_snoc, hnone, hturn]
    exact hheard.once
  have hfew : (notesOf (fun turn => !turn.prepares) (past ++ [v])).length ≤ 1 := by
    simp [hexecuted]
  cases hended with
  | done hrun hvalue =>
      obtain ⟨rfl, token, hlength, hleft, hnote⟩ := hvalue
      have hobtained : Obtained (past ++ [v]) token := ⟨v, by simp, hturn, hrun, hnote⟩
      rw [hleft]
      exact ⟨rfl, hprepared, hfew, nofun, fun _ => hexecuted,
        fun _ => ⟨token, rfl, hlength, hobtained⟩, by simp⟩
  | failed _ hleft =>
      rw [hleft, hinvocation]
      exact account_closed rfl hprepared hfew (by simp) (by simp)
  | cut _ hleft hnote =>
      rw [hleft, hinvocation, hturn]
      exact account_closed rfl hprepared hfew (by simp [Turn.target]) fun _ => ⟨v, by simp, hnote⟩

/-- The account after an execute call in order. -/
theorem Account.execute (h : Account start past i) (hprogress : i.progress = .prepared)
    {link : Linkage H} (hwf : link.storage.WellFormed) {capability : Capability}
    (hv : v = ⟨.execute capability, link, i⟩) : Account start (past ++ [v]) v.run.2.2 := by
  obtain ⟨token, htoken, hlength, -⟩ := h.token hprogress
  obtain ⟨hheard, hended⟩ := Visit.execute_ended hprogress htoken hlength hwf hv
  have hturn : v.turn = .execute capability := by rw [hv]
  have hinvocation : v.invocation = i := by rw [hv]
  have hprepared : (notesOf Turn.prepares (past ++ [v])).length ≤ 1 := by
    rw [notesOf_snoc, hturn]
    simpa [Turn.prepares] using h.prepared
  have hexecuted : (notesOf (fun turn => !turn.prepares) (past ++ [v])).length ≤ 1 := by
    rw [notesOf_snoc, h.early (.inr hprogress), hturn]
    exact hheard.once
  cases hended with
  | done _ hleft =>
      rw [hleft]
      exact account_closed h.route hprepared hexecuted (by simp) (by simp)
  | failed _ hleft =>
      rw [hleft, hinvocation]
      exact account_closed h.route hprepared hexecuted (by simp) (by simp)
  | cut _ hleft hnote =>
      rw [hleft, hinvocation, hturn]
      exact account_closed h.route hprepared hexecuted (by simp [Turn.target])
        fun _ => ⟨v, by simp, hnote⟩

/-- A visit keeps the account. -/
theorem Account.visit (h : Account start past v.invocation)
    (hfresh : start = { route := start.route, text := start.text, output := start.output })
    (hwf : v.link.storage.WellFormed) : Account start (past ++ [v]) v.run.2.2 := by
  by_cases hdue : v.invocation.progress = v.turn.due
  · obtain ⟨turn, link, i⟩ := v
    cases turn with
    | prepare => exact h.prepare hfresh hdue hwf rfl
    | execute capability => exact h.execute hdue hwf rfl
  · obtain ⟨hrun, hnotes⟩ := Visit.out_of_order hdue
    rw [hrun]
    exact h.silent hnotes

end Invocation

namespace History

open Invocation (Account)

variable [Host H] {start i : Invocation} {past early late : List (Visit H)} {v : Visit H}

/-- A history keeps the account. -/
theorem account (h : History start past i)
    (hfresh : start = { route := start.route, text := start.text, output := start.output }) :
    Account start past i := by
  induction h with
  | nil => exact Invocation.account_start (by rw [hfresh])
  | snoc _ hwf ih => exact ih.visit hfresh hwf

/-- The history up to a visit. -/
theorem upTo (h : History start past i) (hpast : past = early ++ v :: late) :
    History start early v.invocation ∧ v.link.storage.WellFormed := by
  induction h generalizing late with
  | nil => simp at hpast
  | @snoc past last h hwf ih =>
      rcases List.eq_nil_or_concat late with rfl | ⟨rest, newest, rfl⟩
      · obtain ⟨rfl, hlast⟩ := List.append_inj' hpast rfl
        cases hlast
        exact ⟨h, hwf⟩
      · rw [List.concat_eq_append, ← List.cons_append, ← List.append_assoc] at hpast
        exact ih (List.append_inj' hpast rfl).1

/-- Once succeeded or failed, an invocation stays as it is. -/
theorem settled (h : History start past i) (hmem : v ∈ past)
    (hsettled : v.invocation.progress = .succeeded ∨ v.invocation.progress = .failed) :
    i = v.invocation := by
  have hrefused : ∀ turn : Turn, v.invocation.progress ≠ turn.due := by
    intro turn
    rcases hsettled with h | h <;> cases turn <;> simp [h, Turn.due]
  induction h with
  | nil => cases hmem
  | @snoc past last h hwf ih =>
      have hsame : last.invocation = v.invocation := by
        rcases List.mem_append.mp hmem with hold | hlast
        · exact ih hold
        · rw [List.mem_singleton.mp hlast]
      have hdue : last.invocation.progress ≠ last.turn.due := by
        rw [hsame]
        exact hrefused last.turn
      rw [(Visit.out_of_order hdue).1]
      exact hsame

/-- A prepare call goes to a module filed under one of the names of the
prepare service. -/
theorem prepare_filed (h : History start early v.invocation)
    (hfresh : start = { route := start.route, text := start.text, output := start.output })
    (hwf : v.link.storage.WellFormed) (hturn : v.turn = .prepare) {note : CallNote}
    (hnote : note ∈ v.notes) : ∃ module ∈ Invocation.prepareModules,
      v.run.2.1.modules.get? (Text.upper module) = some (some note.entry) := by
  by_cases hdue : v.invocation.progress = v.turn.due
  · rw [hturn] at hdue
    have hstart := ((h.account hfresh).idle hdue).1
    rw [hfresh] at hstart
    have hheard := (Visit.prepare_ended hwf (v := v) (by rw [← hstart, ← hturn])).1
    rw [Visit.watched_run]
    exact hheard.filed note hnote
  · rw [(Visit.out_of_order hdue).2] at hnote
    cases hnote

/-- An execute call goes to the module filed under the name of the route,
with the token that an earlier prepare call returned. -/
theorem execute_carries (h : History start early v.invocation)
    (hfresh : start = { route := start.route, text := start.text, output := start.output })
    (hwf : v.link.storage.WellFormed) {capability : Capability}
    (hturn : v.turn = .execute capability) {note : CallNote} (hnote : note ∈ v.notes) :
    v.run.2.1.modules.get? (Text.upper start.route.module) = some (some note.entry)
      ∧ ∃ token, Invocation.Obtained early token ∧ note.Carries token := by
  by_cases hdue : v.invocation.progress = v.turn.due
  · rw [hturn] at hdue
    have haccount := h.account hfresh
    obtain ⟨token, htoken, hlength, hobtained⟩ := haccount.token hdue
    have hheard := (Visit.execute_ended hdue htoken hlength hwf (v := v) (by rw [← hturn])).1
    obtain ⟨module, hmem, hfiled⟩ := hheard.filed note hnote
    rw [List.mem_singleton.mp hmem, haccount.route] at hfiled
    rw [Visit.watched_run]
    exact ⟨hfiled, token, hobtained, hheard.asked note hnote⟩
  · rw [(Visit.out_of_order hdue).2] at hnote
    cases hnote

end History

/-- The protocol of prepare and execute. Take any host, any invocation that
was made, and any prepare and execute calls on it, in any order and each on
any linkage.

Each call is, under watch, the call without. As long as the services return,
the invocation is idle, prepared, succeeded or failed between two calls. The
prepare service is called at most once, the execute service at most once;
each is the module filed under its name. The execute service is called only
after a prepare call that returned, and finds in its call block the token
that the prepare service left. A call out of order is refused with the
progress it met, calls nobody, and leaves linkage and invocation as they
are. An invocation that succeeded or failed stays as it is. -/
theorem Invocation.calls_keep_order [Host H] {route : Route} {command : String}
    {output : Option DdName} {start i : Invocation} {past : List (Visit H)}
    (hmake : make route command output = .ok start) (h : History start past i) :
    (∀ v ∈ past, v.run = (v.watched.1, v.watched.2.1.mapHost Noted.host, v.watched.2.2))
      ∧ ((∀ v ∈ past, ∀ note ∈ v.notes, note.r15 ≠ none) →
        i.progress = .idle ∨ i.progress = .prepared ∨ i.progress = .succeeded
          ∨ i.progress = .failed)
      ∧ (notesOf Turn.prepares past).length ≤ 1
      ∧ (notesOf (fun turn => !turn.prepares) past).length ≤ 1
      ∧ (∀ v ∈ past, v.turn = .prepare → ∀ note ∈ v.notes, ∃ module ∈ prepareModules,
          v.run.2.1.modules.get? (Text.upper module) = some (some note.entry))
      ∧ (∀ early v late, past = early ++ v :: late → ∀ capability, v.turn = .execute capability →
          ∀ note ∈ v.notes,
            v.run.2.1.modules.get? (Text.upper route.module) = some (some note.entry)
              ∧ ∃ token, Obtained early token ∧ note.Carries token)
      ∧ (∀ v ∈ past, v.invocation.progress ≠ v.turn.due →
          v.run = (fail (.invalidState v.invocation.progress v.turn.target), v.link, v.invocation)
            ∧ v.notes = [])
      ∧ (∀ v ∈ past, v.invocation.progress = .succeeded ∨ v.invocation.progress = .failed →
          i = v.invocation) := by
  obtain ⟨hstart, -, -⟩ := make_ok hmake
  have hfresh : start = { route := start.route, text := start.text, output := start.output } := by
    rw [hstart]
  have hroute : start.route = route := by rw [hstart]
  have haccount := h.account hfresh
  refine ⟨fun v _ => v.watched_run, fun hreturned => ?_, haccount.prepared, haccount.executed,
    fun v hmem hturn note hnote => ?_, fun early v late hpast capability hturn note hnote => ?_,
    fun v _ hdue => Visit.out_of_order hdue, fun v hmem hsettled => h.settled hmem hsettled⟩
  · by_contra hprogress
    have hmiddle : i.progress = .preparing ∨ i.progress = .executing := by
      revert hprogress
      cases i.progress <;> simp
    obtain ⟨v, hmem, note, hnote, htrapped⟩ := haccount.cut hmiddle
    exact hreturned v hmem note hnote htrapped
  · obtain ⟨early, late, hpast⟩ := List.append_of_mem hmem
    obtain ⟨hearly, hwf⟩ := h.upTo hpast
    exact hearly.prepare_filed hfresh hwf hturn hnote
  · obtain ⟨hearly, hwf⟩ := h.upTo hpast
    rw [← hroute]
    exact hearly.execute_carries hfresh hwf hturn hnote

namespace Sim

/-- A command prepared, executed, and executed once more: the execute
service is called by the first of the two, with the token of the prepare
call, and the other is refused. -/
theorem calls_keep_order_time :
    let link : Linkage SimHost := { host := SimHost.build {} noon }
    let start : Invocation := { route := .standard, text := "TIME", output := none }
    let first : Visit SimHost := ⟨.prepare, link, start⟩
    let second : Visit SimHost := ⟨.execute ⟨0⟩, first.run.2.1, first.run.2.2⟩
    let third : Visit SimHost := ⟨.execute ⟨0⟩, second.run.2.1, second.run.2.2⟩
    second.notes.map (fun note => note.entry.module) = ["IKJEFTSR"]
      ∧ (∀ note ∈ second.notes, ∃ token, Invocation.Obtained [first] token ∧ note.Carries token)
      ∧ third.run = (fail (.invalidState .succeeded .executing), third.link, third.invocation)
      ∧ third.notes = [] := by
  intro link start first second third
  have hmake : Invocation.make .standard "TIME" none = .ok start := by decide +kernel
  have hseen : second.link.storage = {} ∧ third.link.storage = {}
      ∧ third.invocation.progress = .succeeded
      ∧ second.notes.map (fun note => note.entry.module) = ["IKJEFTSR"] := by
    decide +kernel
  have hturns : second.turn = .execute ⟨0⟩ ∧ third.turn = .execute ⟨0⟩ := ⟨rfl, rfl⟩
  have hfirst : first.link.storage = {} ∧ first.invocation = start := ⟨rfl, rfl⟩
  have hsecond : second.invocation = first.run.2.2 := by simp only [second]
  have hthird : third.invocation = second.run.2.2 := by simp only [third]
  -- from here on the visits are what was seen of them
  clear_value third second first
  obtain ⟨hstorage2, hstorage3, hdone, hcalled⟩ := hseen
  have hwf : ∀ v : Visit SimHost, v.link.storage = {} → v.link.storage.WellFormed := by
    intro v hstorage
    rw [hstorage]
    exact Storage.wellFormed_empty
  have h1 : History start ([] : List (Visit SimHost)) first.invocation := by
    rw [hfirst.2]
    exact .nil
  have h2 : History start [first] second.invocation := by
    rw [hsecond]
    exact h1.snoc (hwf first hfirst.1)
  have h3 : History start [first, second] third.invocation := by
    rw [hthird]
    exact h2.snoc (hwf second hstorage2)
  have h4 : History start [first, second, third] third.run.2.2 := h3.snoc (hwf third hstorage3)
  obtain ⟨-, -, -, -, -, hcarries, hrefused, -⟩ := Invocation.calls_keep_order hmake h4
  have hlast := hrefused third (by simp) (by simp [hdone, hturns.2, Turn.due])
  rw [hdone, hturns.2] at hlast
  refine ⟨hcalled, fun note hnote => ?_, hlast⟩
  exact (hcarries [first] second [third] rfl ⟨0⟩ hturns.1 note hnote).2

end Sim

end TsoBridge
