/-
Engine and simulated host, request by request. What the engine concludes
from a work area is what happened to the DD table: an allocation that
returns a name has entered it, and one that fails has left the table alone
(`allocate_ends`); a free that reaches the host takes out the name and no
other (`requestFree_frees`).

Three things decide whether a free reaches the host: the module is found,
the host refuses no free, and the request can be posted. The first two are
how the host was set up, and the third holds wherever an allocation with
the same capability went through and storage has kept its shape since.
-/
import TsoBridge.Proofs.Pairing
import TsoBridge.Proofs.Sim.Allocation

namespace TsoBridge.Sim

open WorkArea
open Bindings (Postable)

variable {link : Linkage SimHost} {entry : EntryPoint} {r1 : Address}

-- ============================================================= branches

/-- A branch that came back with another code than that for wrong
parameters: the service came back with it. -/
theorem branch_ok {called : Linkage SimHost} {r15 : Int32}
    (h : Linkage.branch entry r1 link = (.ok r15, called))
    (hr15 : r15 ≠ (SimHost.service entry.module).2) :
    (SimHost.service entry.module).1 r1 (counted link.toMachine entry.module)
      = (.ok r15, called.toMachine) := by
  unfold Linkage.branch at h
  rcases hcall : Host.call link.toMachine entry r1 with ⟨_ | value, machine⟩
  · rw [hcall] at h
    cases h
  rw [hcall] at h
  cases h
  change SimHost.call link.toMachine entry r1 = _ at hcall
  unfold SimHost.call at hcall
  rcases hrun : (SimHost.service entry.module).1 r1 (counted link.toMachine entry.module)
    with ⟨(_ | _) | value, after⟩
  · unfold counted at hrun
    simp only [hrun] at hcall
    cases hcall
    exact absurd rfl hr15
  · unfold counted at hrun
    simp only [hrun] at hcall
    cases hcall
  · unfold counted at hrun
    simp only [hrun] at hcall
    cases hcall
    rfl

/-- A branch leaves the machine that the service leaves. -/
theorem branch_machine (entry : EntryPoint) (r1 : Address) (link : Linkage SimHost) :
    (Linkage.branch entry r1 link).2.toMachine
      = ((SimHost.service entry.module).1 r1 (counted link.toMachine entry.module)).2 := by
  rw [(Linkage.branch_modules entry r1 link).2.2]
  exact call_snd link.toMachine entry r1

/-- A branch to a service that returns comes back with what it returned. -/
theorem branch_returns {r15 : Int32}
    (h : ((SimHost.service entry.module).1 r1 (counted link.toMachine entry.module)).1 = .ok r15) :
    (Linkage.branch entry r1 link).1 = .ok r15 := by
  obtain ⟨after, hrun⟩ := Op.ends_of_fst h
  have hcall : SimHost.call link.toMachine entry r1 = (some r15, after) := by
    unfold SimHost.call
    unfold counted at hrun
    simp only [hrun]
  unfold Linkage.branch
  simp only [show Host.call link.toMachine entry r1 = (some r15, after) from hcall]

/-- A branch to a service that traps traps. -/
theorem branch_traps
    (h : ((SimHost.service entry.module).1 r1 (counted link.toMachine entry.module)).1 = trap) :
    (Linkage.branch entry r1 link).1 = trap := by
  obtain ⟨after, hrun⟩ := Op.ends_of_fst h
  have hcall : SimHost.call link.toMachine entry r1 = (none, after) := by
    unfold SimHost.call
    unfold counted at hrun
    simp only [hrun]
    rfl
  unfold Linkage.branch
  simp only [show Host.call link.toMachine entry r1 = (none, after) from hcall]

/-- Looking for a module leaves the host alone. -/
theorem fetch_host (module : String) (link : Linkage SimHost) :
    (Linkage.fetch module).Ends link fun _ t => t.host = link.host := by
  unfold Op.Ends Linkage.fetch
  simp only
  cases link.modules.get? (Text.upper module) with
  | some known => cases known <;> rfl
  | none =>
      rcases hload : Host.load link.host (Text.upper module) with ⟨_ | entry, host⟩
      · exact (congrArg Prod.snd hload).symm
      · exact (congrArg Prod.snd hload).symm

-- ============================================================== modules

/-- What looking for `module` leaves of a linkage: host and storage are as
they were, and what was found is that module and will be found again. -/
structure LookedUp (module : String) (link : Linkage SimHost) (r : Outcome EntryPoint)
    (t : Linkage SimHost) : Prop where
  named : t.Named
  host : t.host = link.host
  storage : t.storage = link.storage
  filed : ∀ entry, r = .ok entry → entry.module = module
  again : ∀ entry, r = .ok entry → t.finds module = true

/-- How looking for a module ends. -/
theorem fetch_lookedUp {module : String} (hnamed : link.Named)
    (hupper : Text.upper module = module) :
    (Linkage.fetch module).Ends link (LookedUp module link) := by
  have huses : (Linkage.fetch module : Op (Linkage SimHost) EntryPoint).Uses id
      (fun _ => False) fun entry => entry.module = module := Linkage.uses_fetch_named hupper
  obtain ⟨hreach, hfiled⟩ := huses link hnamed
  obtain ⟨-, hstorage, hknown⟩ := Linkage.fetch_ends module link
  exact {
    named := hreach.named hnamed
    host := fetch_host module link
    storage := hstorage
    filed := hfiled
    again := fun entry hentry => Linkage.finds_of_fetch (Linkage.fetch_known (hknown entry hentry)) }

/-- The host has a module, which was found whenever it was looked for. -/
structure Offers (module : String) (link : Linkage SimHost) : Prop where
  upper : Text.upper module = module
  present : (link.host.modules.get? module).isSome = true
  cached : ∀ found, link.modules.get? module = some found → found.isSome = true

section Offers

variable {branches : String → Prop} {module : String} {after : Linkage SimHost}

/-- A module on offer stays on offer. -/
theorem Offers.move (hoffers : Offers module link) (h : Linkage.Move branches link after) :
    Offers module after where
  upper := hoffers.upper
  present := by
    rw [← reach_setup h.reach]
    exact hoffers.present
  cached := by
    cases h with
    | @load key found host hload _ _ _ =>
        intro known hknown
        by_cases hkey : module = key
        · subst hkey
          rw [Table.get?_insert_self] at hknown
          have hfound : (link.host.modules.get? (Text.upper module)).map _ = found :=
            congrArg Prod.fst hload
          rw [← Option.some.inj hknown, ← hfound, Option.isSome_map, hoffers.upper]
          exact hoffers.present
        · rw [Table.get?_insert_ne _ _ hkey] at hknown
          exact hoffers.cached known hknown
    | branch r1 _ =>
        rw [(Linkage.branch_modules _ r1 link).1]
        exact hoffers.cached
    | _ => exact hoffers.cached

/-- So it does over a run of moves. -/
theorem Offers.reach (hoffers : Offers module link) (h : Linkage.Reach branches link after) :
    Offers module after := by
  induction h with
  | refl => exact hoffers
  | tail _ hmove ih => exact ih.move hmove

/-- It will be found. -/
theorem Offers.finds (h : Offers module link) : link.finds module = true := by
  have hupper := h.upper
  rcases hget : link.modules.get? (Text.upper module) with _ | found
  · obtain ⟨address, haddress⟩ := Option.isSome_iff_exists.mp h.present
    have hload : Host.load link.host (Text.upper module) = (some ⟨module, address⟩, link.host) := by
      rw [hupper]
      show ((link.host.modules.get? (Text.upper module)).map _, _) = _
      rw [hupper, haddress]
      rfl
    obtain ⟨after, hfetch⟩ := Linkage.fetch_new hget hload
    exact Linkage.finds_of_fetch hfetch
  · have hfound : found.isSome = true := h.cached found (by rwa [hupper] at hget)
    obtain ⟨entry, rfl⟩ := Option.isSome_iff_exists.mp hfound
    exact Linkage.finds_of_fetch (Linkage.fetch_known hget)

open Session

variable {host : SimHost} {settings : Settings} {s t : Session SimHost}

/-- No step takes a module away. -/
theorem step_offers (h : Step Touched s t) (hnamed : s.linkage.Named)
    (hs : Offers module s.linkage) : Offers module t.linkage := by
  rcases h.cases hnamed with ⟨text, options, rfl⟩ | hmoves | ⟨after, htouched, hlinkage⟩
  · have hall : Supported fun _ => True := fun _ _ => trivial
    exact hs.reach (uses_run hall trivial text trivial s hnamed).1
  · exact hs.reach hmoves
  · have hmodules : after.modules = s.host.modules := by
      rw [← htouched.scope]
      rfl
    rw [hlinkage]
    refine ⟨hs.upper, ?_, hs.cached⟩
    show (after.modules.get? module).isSome = true
    rw [hmodules]
    exact hs.present

/-- A module that the host has is found at every moment of a session. -/
theorem reachable_offers (h : Reachable Touched host settings s)
    (hupper : Text.upper module = module)
    (hpresent : (host.modules.get? module).isSome = true) : Offers module s.linkage := by
  induction h with
  | refl => exact ⟨hupper, hpresent, fun _ hget => by cases hget⟩
  | tail hreach hstep ih => exact step_offers hstep (Reachable.named hreach) ih

end Offers

-- ================================================================ shapes

/-- Only the environment service obtains storage; the others only write. -/
theorem onlyWrites {module : String} (h : module ≠ "IKJTSOEV") :
    Linkage.OnlyWrites SimHost module := by
  rintro m entry r1 rfl
  refine (call_acts m entry r1).carries_storage (P := Storage.Inner m.storage)
    (fun hobtain => absurd hobtain h) ?_ (refl_of Storage.Inner m.storage)
  exact fun _ _ _ _ _ hwrite hinner => trans_of Storage.Inner hinner (Storage.inner_write hwrite)

/-- So do those a command is prepared with. -/
theorem onlyWrites_prepare : ∀ module ∈ Invocation.prepareModules,
    Linkage.OnlyWrites SimHost module :=
  fun module h => onlyWrites (Invocation.prepare_ne_environment module h)

-- ============================================================== answers

/-- Register 15 says no more than an area that holds the same code. -/
theorem orElse_same {r15 : Int32} {answer : AllocationResult} (h : answer.serviceRc = r15) :
    answer.orElse r15 = answer := by
  unfold AllocationResult.orElse
  rw [h]
  simp

/-- What the engine makes of an answer. -/
structure Reads (result : AllocationResult) (answer : Service.AllocationAnswer) : Prop where
  rc : result.serviceRc = answer.rc
  reason : result.reasonCode = answer.reason
  catalogRc : result.catalogRc = answer.catalogRc
  flags : result.secondaryFlags = 0
  name : ∀ ddname, answer.ddname = some ddname →
    result.assignedName = CodePage.decodeField (CodePage.encodeField 8 ddname)

/-- The answer that stands in a request block is what the engine reads. -/
theorem Service.Answered.reads {storage : Storage} {area : Address} {block : Nat}
    {answer : Service.AllocationAnswer} (h : Service.Answered storage area block answer)
    (hblock : block + 20 ≤ size) :
    ∃ bytes result, storage.read area size = .ok bytes ∧ decode bytes block = .ok result
      ∧ Reads result answer := by
  obtain ⟨bytes, hbytes, hlength⟩ := h.whole
  have hread : storage.read area size = .ok bytes := by
    have hwhole := Storage.read_contents h.wellFormed hbytes
      (Nat.le_of_eq (Nat.zero_add bytes.length))
    rwa [Address.shift_zero, Field.slice_full, hlength] at hwhole
  have hrc := h.rc.slice h.wellFormed h.whole hread
  have hreason := h.reason.slice h.wellFormed h.whole hread
  have hcatalog := h.catalog.slice h.wellFormed h.whole hread
  have hflags := h.flags.slice h.wellFormed h.whole hread
  rw [Word.length_ofSigned] at hrc
  rw [Word.length_ofHalf] at hreason hcatalog
  rw [List.length_singleton] at hflags
  refine ⟨bytes, answerIn bytes block, hread, decode_eq hlength hblock, ?_⟩
  constructor
  · exact (congrArg Word.toSigned hrc).trans (Word.toSigned_ofSigned _)
  · exact (congrArg Word.toHalf hreason).trans (Word.toHalf_ofHalf _)
  · exact (congrArg Word.toHalf hcatalog).trans (Word.toHalf_ofHalf _)
  · exact congrArg (fun bytes => UInt8.ofNat (Word.valueOf bytes)) hflags
  · intro ddname hname
    have hfield := (h.name ddname hname).slice h.wellFormed h.whole hread
    rw [CodePage.length_encodeField] at hfield
    exact congrArg CodePage.decodeField hfield

-- ============================================================= requests

/-- The engine reads the answer that the service left in the work area. -/
theorem callWith_reads (link : Linkage SimHost) {area : Address} {block : Nat}
    {answer : Service.AllocationAnswer}
    (hreturned : ((SimHost.service entry.module).1 r1 (counted link.toMachine entry.module)).1
      = .ok answer.rc)
    (hanswered : Service.Answered ((SimHost.service entry.module).1 r1
      (counted link.toMachine entry.module)).2.storage area block answer)
    (hblock : block + 20 ≤ size) :
    ∃ result, (Bindings.callWith entry (decode · block) (area, r1) link).1 = .ok result
      ∧ Reads result answer := by
  obtain ⟨bytes, result, hread, hdecoded, hreads⟩ := hanswered.reads hblock
  obtain ⟨called, hcalled⟩ := Op.ends_of_fst (branch_returns hreturned)
  have hmachine := branch_machine entry r1 link
  rw [hcalled] at hmachine
  rw [← hmachine] at hread
  have hcall : (Bindings.callWith entry (decode · block) (area, r1)).Ends link fun r _ =>
      r = .ok result := by
    refine Op.Ends.bind_of_ok hcalled (Op.ends_examine_of_ok hread ?_)
    refine Op.ends_lift_of_ok hdecoded ?_
    exact congrArg _ (orElse_same hreads.rc)
  exact ⟨result, hcall, hreads⟩

/-- An allocate request that can be posted is met by the host, and the
engine reads the answer. -/
theorem requestAllocate_meets (hmodule : entry.module = "TSODALC")
    (hwf : link.storage.WellFormed) (capability : Capability) (ddname : DdName)
    (wanted : AllocationRequest) :
    (Bindings.requestAllocate entry capability ddname wanted).Ends link fun r t =>
      (∃ cause, r = .error (.error cause)) ∧ t.host = link.host
          ∧ ¬Postable capability link.storage.openFrame
        ∨ Postable capability link.storage.openFrame
          ∧ ∃ outcome, Service.Meets (link.host.count "TSODALC") ddname.text
              (Service.datasetOf (received (wanted.dsname.getD ""))) wanted.status outcome t.host
            ∧ (∀ answer, outcome = .ok answer → ∃ result, r = .ok result ∧ Reads result answer)
            ∧ ∀ fault, outcome = .error fault → r = trap := by
  refine (Bindings.request_ends hwf (fills_prepareAllocate _ _ _) entry capability ddname.text
    decodeAllocate).mono fun r t h => ?_
  rcases h with ⟨cause, storage, rfl, rfl, hnot⟩
    | ⟨storage, bytes, name, rc, catalogRc, area, r1, hprepared, hsent, hpostable, hr, hhost⟩
  · exact .inl ⟨⟨cause, rfl⟩, rfl, hnot⟩
  refine .inr ⟨hpostable, ?_⟩
  have hservice := Service.allocate_meets
    (m := counted ({ link with storage } : Linkage SimHost).toMachine "TSODALC") hsent ddname.field
    ddname.nonempty (prepareAllocate_asks hprepared)
  have hmachine := branch_machine entry r1 { link with storage }
  rw [hmodule] at hmachine
  obtain ⟨outcome, hmeets, hok, hfault⟩ := hservice
  refine ⟨outcome, ?_, fun answer hanswer => ?_, fun fault hstop => ?_⟩
  · rw [hhost, hmachine]
    exact hmeets
  · obtain ⟨hreturned, hanswered⟩ := hok answer hanswer
    rw [hr]
    exact callWith_reads { link with storage } (by rw [hmodule]; exact hreturned)
      (by rw [hmodule]; exact hanswered) (by decide)
  · have hreturned := hfault fault hstop
    rw [hstop] at hmeets
    obtain rfl := hmeets.fault
    have hbranch : (Linkage.branch entry r1 { link with storage }).1 = trap :=
      branch_traps (by rw [hmodule]; exact hreturned)
    obtain ⟨u, hcalled⟩ := Op.ends_of_fst hbranch
    rw [hr]
    unfold Bindings.callWith
    rw [Op.run_bind_of_fault hcalled]
    rfl

/-- An allocate request that reports success has entered its name, and one
that does not has left the table alone. -/
theorem requestAllocate_ends (hmodule : entry.module = "TSODALC")
    (hwf : link.storage.WellFormed) (hreply : link.host.reply = .requested)
    (capability : Capability) (ddname : DdName) (wanted : AllocationRequest) :
    (Bindings.requestAllocate entry capability ddname wanted).Ends link fun r t =>
      t.host.dds = link.host.dds ∧ (∀ result, r = .ok result → result.succeeded = false)
      ∨ (∃ result, r = .ok result ∧ result.succeeded = true
            ∧ result.assignedName = ddname.text)
        ∧ DdTable.Entered ddname.text link.host.dds t.host.dds
        ∧ Postable capability link.storage.openFrame
        ∧ (wanted.dsname = none → HoldsRecords t.host ddname.text []) := by
  refine (requestAllocate_meets hmodule hwf capability ddname wanted).mono fun r t h => ?_
  rcases h with ⟨⟨cause, rfl⟩, hhost, -⟩ | ⟨hpostable, outcome, hmeets, hok, hfault⟩
  · exact .inl ⟨by rw [hhost], fun _ h => by cases h⟩
  rcases hmeets.table hreply with ⟨hdds, hrc⟩ | ⟨rfl, hentered, hempty⟩
  · refine .inl ⟨hdds, fun result hresult => ?_⟩
    cases outcome with
    | ok answer =>
        obtain ⟨_, hr, hreads⟩ := hok answer rfl
        rw [hr] at hresult
        cases hresult
        unfold AllocationResult.succeeded
        rw [hreads.rc]
        simp [hrc answer rfl]
    | error fault =>
        rw [hfault fault rfl] at hresult
        cases hresult
  · obtain ⟨result, hr, hreads⟩ := hok _ rfl
    refine .inr ⟨⟨result, hr, ?_, ?_⟩, hentered, hpostable, fun hnone => hempty ?_⟩
    · unfold AllocationResult.succeeded
      rw [hreads.rc, hreads.reason]
      rfl
    · rw [hreads.name _ rfl, ddname.upper, ddname.field]
    · rw [hnone]
      rfl

/-- A free request takes out the DD it asks for, or leaves the host alone
but for the count of its calls. It takes it out wherever it reaches the
host and the host refuses no free. Where it reaches the host, the engine
reads the answer. -/
theorem requestFree_frees {ddname : String} (hnamed : link.Named) (hwf : link.storage.WellFormed)
    (hfield : CodePage.decodeField (CodePage.encodeField 8 ddname) = ddname)
    (capability : Capability) :
    (Bindings.requestFree capability ddname).Ends link fun r t =>
      (t.host = Service.freed (link.host.count "TSODFRE") ddname
        ∨ (t.host = link.host ∨ t.host = link.host.count "TSODFRE")
          ∧ ¬(link.finds "TSODFRE" = true ∧ link.host.freeFailure = none
            ∧ Postable capability link.storage.openFrame))
      ∧ (link.finds "TSODFRE" = true → Postable capability link.storage.openFrame →
          ∃ result, r = .ok result ∧ Reads result (Service.freeAnswer link.host ddname)) := by
  have hlook := fetch_lookedUp hnamed (Linkage.upper_sought (by simp) : Text.upper "TSODFRE" = _)
  rcases hfetch : Linkage.fetch "TSODFRE" link with ⟨fault | entry, found⟩
  · have hhost := (hlook.fault hfetch).host
    have hmissing : link.finds "TSODFRE" ≠ true := by
      intro hfinds
      obtain ⟨entry, after, hfound⟩ := Linkage.fetch_of_finds hfinds
      rw [hfetch] at hfound
      cases hfound
    unfold Op.Ends Bindings.requestFree
    rw [Op.run_bind_of_fault hfetch]
    exact ⟨.inr ⟨.inl hhost, fun hall => hmissing hall.1⟩, fun hfinds => absurd hfinds hmissing⟩
  · obtain ⟨-, hhost, hstorage, hfiled, -⟩ := hlook.ok hfetch
    have hmodule : entry.module = "TSODFRE" := hfiled entry rfl
    refine Op.Ends.bind_of_ok hfetch ?_
    rw [← hhost, ← hstorage]
    refine (Bindings.request_ends (by rw [hstorage]; exact hwf) (fills_prepareFree ddname) entry
      capability ddname decodeFree).mono fun r t h => ?_
    rcases h with ⟨cause, storage, -, rfl, hnot⟩
      | ⟨storage, bytes, name, rc, catalogRc, area, r1, hprepared, hsent, -, hr, hafter⟩
    · exact ⟨.inr ⟨.inl rfl, fun hall => hnot hall.2.2⟩, fun _ hpostable => absurd hpostable hnot⟩
    · have hservice := Service.free_ends
        (m := counted ({ found with storage } : Linkage SimHost).toMachine "TSODFRE") hsent hfield
        (prepareFree_code hprepared)
      have hmachine := branch_machine entry r1 { found with storage }
      rw [hmodule] at hmachine
      obtain ⟨hleft, hreturned, hanswered⟩ := hservice
      have hend : t.host = if found.host.freeFailure.isSome then found.host.count "TSODFRE"
          else Service.freed (found.host.count "TSODFRE") ddname := by
        rw [hafter, hmachine]
        exact hleft
      refine ⟨?_, fun _ _ => ?_⟩
      · rw [hend]
        cases hfailure : found.host.freeFailure with
        | none => exact .inl rfl
        | some reason => exact .inr ⟨.inr rfl, fun hall => by cases hall.2.1⟩
      · rw [hr]
        exact callWith_reads { found with storage } (by rw [hmodule]; exact hreturned)
          (by rw [hmodule]; exact hanswered) (by decide)

/-- What such a request does to the table. -/
theorem requestFree_ends (hnamed : link.Named) (hwf : link.storage.WellFormed)
    (capability : Capability) (name : DdName) :
    (Bindings.requestFree capability name.text).Ends link fun _ t =>
      t.host.dds = link.host.dds.without name.text
        ∨ t.host.dds = link.host.dds
          ∧ ¬(link.finds "TSODFRE" = true ∧ link.host.freeFailure = none
            ∧ Postable capability link.storage.openFrame) := by
  refine (requestFree_frees hnamed hwf name.field capability).mono fun r t h => ?_
  rcases h.1 with hfreed | ⟨hsame | hcounted, hnot⟩
  · rw [hfreed, Service.freed_dds]
    exact .inl rfl
  · exact .inr ⟨by rw [hsame], hnot⟩
  · exact .inr ⟨by rw [hcounted]; rfl, hnot⟩

/-- How a free of a live name ends. Without the module nothing changes;
with it the name is gone, and so is the DD, unless the host refuses or the
request cannot be posted. -/
theorem free_ends {s : Linkage SimHost × Bindings} {name : DdName} (hnamed : s.1.Named)
    (hwf : s.1.storage.WellFormed) (hlive : s.2.isLive name = true)
    (capability : Capability) :
    (Bindings.free capability name).Ends s fun _ t =>
      s.1.finds "TSODFRE" = false ∧ t.1.host.dds = s.1.host.dds ∧ t.2 = s.2
        ∨ t.2 = s.2.without name
          ∧ (t.1.host.dds = s.1.host.dds.without name.text
            ∨ t.1.host.dds = s.1.host.dds
              ∧ ¬(s.1.host.freeFailure = none ∧ Postable capability s.1.storage.openFrame)) := by
  have hlook := fetch_lookedUp hnamed (Linkage.upper_sought (by simp) : Text.upper "TSODFRE" = _)
  unfold Op.Ends
  rcases hfetch : Linkage.fetch "TSODFRE" s.1 with ⟨fault | entry, found⟩
  · have hfinds : s.1.finds "TSODFRE" = false := by
      unfold Linkage.finds
      rw [hfetch]
      rfl
    rw [Bindings.free_eq_fault capability hlive hfetch]
    exact .inl ⟨hfinds, congrArg SimHost.dds (hlook.fault hfetch).host, rfl⟩
  · obtain ⟨hnamed', hhost, hstorage, -, hagain⟩ := hlook.ok hfetch
    have hrequest := requestFree_ends hnamed' (by rw [hstorage]; exact hwf) capability name
    rw [hhost, hstorage] at hrequest
    rw [Bindings.free_snd capability hlive hfetch]
    exact .inr ⟨rfl, hrequest.imp_right fun hsame =>
      ⟨hsame.1, fun hall => hsame.2 ⟨hagain entry rfl, hall⟩⟩⟩

-- ============================================================ bindings

/-- Asking for the name of a request touches nothing but the counter of
generated names. -/
theorem requestedName_ends (wanted : AllocationRequest) (s : Linkage SimHost × Bindings) :
    (Bindings.requestedName wanted).Ends s fun _ t => t.1 = s.1 ∧ t.2.live = s.2.live := by
  unfold Bindings.requestedName
  cases wanted.ddname with
  | some text => exact ⟨rfl, rfl⟩
  | none => exact ⟨rfl, rfl⟩

/-- How an allocation ends: it failed and left the table and the live
names alone, or its name is new in the table and among the live names. -/
def Allocated (capability : Capability) (wanted : AllocationRequest)
    (s : Linkage SimHost × Bindings) (r : Outcome (DdName × AllocationResult))
    (t : Linkage SimHost × Bindings) : Prop :=
  (∃ fault, r = .error fault) ∧ t.1.host.dds = s.1.host.dds ∧ t.2.live = s.2.live
    ∨ ∃ name result, r = .ok (name, result)
      ∧ DdTable.Entered name.text s.1.host.dds t.1.host.dds
      ∧ t.2.live = s.2.live.insert name ()
      ∧ Postable capability s.1.storage.openFrame
      ∧ Storage.SameShape s.1.storage t.1.storage
      ∧ (wanted.dsname = none → HoldsRecords t.1.host name.text [])

/-- How an allocation ends on a host that keeps to the names asked for. -/
theorem allocate_ends {s : Linkage SimHost × Bindings} (hnamed : s.1.Named)
    (hwf : s.1.storage.WellFormed) (hreply : s.1.host.reply = .requested)
    (capability : Capability) (wanted : AllocationRequest) :
    (Bindings.allocate capability wanted).Ends s (Allocated capability wanted s) := by
  have hfailed : ∀ {t : Linkage SimHost × Bindings} fault, t.1.host.dds = s.1.host.dds →
      t.2.live = s.2.live → Allocated capability wanted s (.error fault) t :=
    fun fault hdds hlive => .inl ⟨⟨fault, rfl⟩, hdds, hlive⟩
  refine (requestedName_ends wanted s).bind (fun requested t1 h1 => ?_)
    fun fault t1 h1 => hfailed fault (by rw [h1.1]) h1.2
  obtain ⟨hlink, hlive⟩ := h1
  -- the module is the allocate service, and looking for it changes nothing else
  have hnamed1 : t1.1.Named := by
    rw [hlink]
    exact hnamed
  have hlook := fetch_lookedUp hnamed1 (Linkage.upper_sought (by simp) : Text.upper "TSODALC" = _)
  have hfound : (Op.onFirst (Linkage.fetch "TSODALC") :
      Op (Linkage SimHost × Bindings) EntryPoint).Ends t1 fun r t => t.1.host = s.1.host
        ∧ t.1.storage = s.1.storage ∧ t.2.live = s.2.live
        ∧ ∀ entry, r = .ok entry → entry.module = "TSODALC" := by
    refine hlook.on fun r t h => ⟨?_, ?_, hlive, h.filed⟩
    · rw [← hlink]
      exact h.host
    · rw [← hlink]
      exact h.storage
  refine hfound.bind (fun entry t2 h2 => ?_) fun fault t2 h2 => hfailed fault (by rw [h2.1]) h2.2.2.1
  obtain ⟨hhost, hstorage, hlive2, hentry⟩ := h2
  -- the service met the request, or it left the table alone
  have hwf2 : t2.1.storage.WellFormed := by
    rw [hstorage]
    exact hwf
  have hrequest := requestAllocate_ends (hentry entry rfl) hwf2 (by rw [hhost]; exact hreply)
    capability requested wanted
  rw [hhost, hstorage] at hrequest
  have hposted : Linkage.Posted entry
      (Bindings.requestAllocate entry capability requested wanted : Op (Linkage SimHost) _)
      (Bindings.requestAllocate entry capability requested wanted : Op (Linkage SimHost) _) :=
    Bindings.posted_allocate entry capability requested wanted
  have hsteady := hposted.steady (hentry entry rfl ▸ onlyWrites (by decide))
  have hshape := (hsteady t2.1 hwf2).2
  rw [hstorage] at hshape
  have hasked : (Op.onFirst (Bindings.requestAllocate entry capability requested wanted) :
      Op (Linkage SimHost × Bindings) AllocationResult).Ends t2 fun r t => t.2.live = s.2.live
        ∧ Storage.SameShape s.1.storage t.1.storage
        ∧ (t.1.host.dds = s.1.host.dds ∧ (∀ result, r = .ok result → result.succeeded = false)
          ∨ (∃ result, r = .ok result ∧ result.succeeded = true
                ∧ result.assignedName = requested.text)
            ∧ DdTable.Entered requested.text s.1.host.dds t.1.host.dds
            ∧ Postable capability s.1.storage.openFrame
            ∧ (wanted.dsname = none → HoldsRecords t.1.host requested.text [])) :=
    ⟨hlive2, hshape, hrequest⟩
  refine hasked.bind (fun result t3 h3 => ?_) fun fault t3 h3 => ?_
  · obtain ⟨hlive3, hshape3, ⟨hdds, hnot⟩ | ⟨⟨result', hresult, hsucceeded, hassigned⟩, hentered,
      hpostable, hempty⟩⟩ := h3
    · obtain ⟨cause, hsettled⟩ := Bindings.settle_refused (hnot result rfl) capability requested t3
      unfold Op.Ends
      rw [hsettled]
      exact hfailed _ hdds hlive3
    · cases hresult
      have hbound : DdName.ofString result.assignedName = .ok requested := by
        rw [hassigned]
        exact requested.ofString_text
      unfold Op.Ends
      rw [Bindings.settle_bound hsucceeded hbound]
      refine .inr ⟨requested, result, rfl, hentered, ?_, hpostable, hshape3, hempty⟩
      show t3.2.live.insert requested () = _
      rw [hlive3]
  · obtain ⟨hlive3, -, ⟨hdds, -⟩ | ⟨⟨result', hresult, -⟩, -⟩⟩ := h3
    · exact hfailed fault hdds hlive3
    · cases hresult

/-- An allocation of a temporary dataset that succeeded bound a name, and
its dataset is empty. -/
theorem allocate_private {capability : Capability} {link after : Linkage SimHost}
    {bindings bindings' : Bindings} {name : DdName} {result : AllocationResult}
    (hnamed : link.Named) (hwf : link.storage.WellFormed)
    (hreply : link.host.reply = .requested)
    (h : Bindings.allocate capability (AllocationRequest.temporary none) (link, bindings)
      = (.ok (name, result), (after, bindings'))) :
    HoldsRecords after.host name.text [] := by
  have hends : (Bindings.allocate capability (.temporary none)).Ends (link, bindings)
      (Allocated capability (.temporary none) (link, bindings)) :=
    allocate_ends hnamed hwf hreply capability (.temporary none)
  rcases hends.ok h with ⟨⟨fault, hfault⟩, -⟩ | ⟨bound, _, hbound, -, -, -, -, hempty⟩
  · cases hfault
  · cases hbound
    exact hempty rfl

end TsoBridge.Sim
