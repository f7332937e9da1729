/-
An allocation between the host's decision and the engine's verdict on it.
The engine writes the request into a work area, the host decides and
writes its answer there, and the engine settles what it reads. `Reached`
says how a request that was posted went that way, and every allocation
either was never posted or went it (`allocate_settles`).

# Using up the numbers

A host numbers a temporary dataset before it looks at the name of the DD,
and counts in a machine word. So a name that is in use costs a number each
time it is asked for, and nothing else changes (`Refusing.step`): a session
that goes on asking comes to the last number (`Refusing.exhausts`), and
then no temporary dataset can be allocated any more (`allocate_spent`).
-/
import TsoBridge.Proofs.Operands
import TsoBridge.Proofs.Refusal
import TsoBridge.Proofs.Sim.Rest

namespace TsoBridge

namespace Sim

open WorkArea
open Bindings (Postable)

/-- A request that was read from text arrives as it is. -/
theorem datasetOf_parsed {text : String} {request : AllocationRequest}
    (h : AllocationRequest.parse text = .ok request) :
    Service.datasetOf (received (request.dsname.getD "")) = request.dsname := by
  cases hdsname : request.dsname with
  | none => rfl
  | some dsname =>
      obtain ⟨hflaw, hupper⟩ := (AllocationRequest.parse_ok h).2 dsname hdsname
      unfold Service.datasetOf
      rw [Option.getD_some, received_of_no_flaw hflaw, hupper,
        if_neg (Name.dsname_of_no_flaw hflaw).1]

-- ========================================================= the allocation

/-- The cause is no answer of the allocation service. -/
def Unrefused (cause : Error) : Prop :=
  ∀ ddname rc reason catalogRc flags,
    cause ≠ .allocationFailed ddname rc reason catalogRc flags

theorem asking_unrefused : Error.Asking Unrefused where
  mechanical := by
    rintro cause h ddname rc reason catalogRc flags rfl
    cases h
  service _ _ _ _ _ _ h := by cases h
  environment _ _ _ _ _ _ _ _ h := by cases h

section Allocating

variable {s asked : Linkage SimHost × Bindings} {wanted : AllocationRequest} {requested : DdName}

/-- A request that reached the host: `outcome` is what the host made of it,
`middle` is how things stood then, and what the engine made of the answer
ends it. -/
structure Reached (capability : Capability) (wanted : AllocationRequest) (requested : DdName)
    (s asked middle : Linkage SimHost × Bindings) (outcome : Outcome Service.AllocationAnswer)
    (r : Outcome (DdName × AllocationResult)) (t : Linkage SimHost × Bindings) : Prop where
  meets : Service.Meets (s.1.host.count "TSODALC") requested.text
    (Service.datasetOf (received (wanted.dsname.getD ""))) wanted.status outcome middle.1.host
  posted : ∃ entry found, Linkage.fetch "TSODALC" s.1 = (.ok entry, found)
    ∧ entry.module = "TSODALC"
    ∧ (Bindings.requestAllocate entry capability requested wanted found).2 = middle.1
  bindings : middle.2 = asked.2
  settled : ∀ answer, outcome = .ok answer → ∃ result, Reads result answer
    ∧ Bindings.settle capability requested result middle = (r, t)
  trapped : ∀ fault, outcome = .error fault → r = trap ∧ t = middle

/-- An allocation up to the engine's verdict on the answer: nobody was
asked, or the host met the request. -/
theorem allocate_settles (hnamed : s.1.Named) (hwf : s.1.storage.WellFormed)
    (hasked : Bindings.requestedName wanted s = (.ok requested, asked)) (capability : Capability) :
    (Bindings.allocate capability wanted).Ends s fun r t =>
      (∃ fault, r = .error fault) ∧ r.Raises Unrefused ∧ t.1.host = s.1.host
          ∧ ¬(s.1.finds "TSODALC" = true ∧ Postable capability s.1.storage.openFrame)
        ∨ ∃ outcome middle, Reached capability wanted requested s asked middle outcome r t := by
  obtain ⟨hlink, -⟩ := (requestedName_ends wanted s).ok hasked
  refine Op.Ends.bind_of_ok hasked ?_
  have hlook := fetch_lookedUp hnamed (Linkage.upper_sought (by simp) : Text.upper "TSODALC" = _)
  rcases hfetch : Linkage.fetch "TSODALC" s.1 with ⟨fault | entry, found⟩
  · have hfinds : s.1.finds "TSODALC" = false := by
      unfold Linkage.finds
      rw [hfetch]
      rfl
    have hraises := (Linkage.raises_fetch asking_unrefused.service "TSODALC" s.1).fault hfetch
    have hhost := (hlook.fault hfetch).host
    rw [← hlink] at hfetch
    unfold Op.Ends
    rw [Op.run_bind_of_fault (Op.run_onFirst hfetch)]
    exact .inl ⟨⟨fault, rfl⟩, hraises.fault, hhost, fun hall => by rw [hfinds] at hall; cases hall.1⟩
  · obtain ⟨-, hhost, hstorage, hfiled, -⟩ := hlook.ok hfetch
    have hmodule : entry.module = "TSODALC" := hfiled entry rfl
    have hposted : Linkage.Posted entry
        (Bindings.requestAllocate entry capability requested wanted : Op (Linkage SimHost) _)
        (Bindings.requestAllocate entry capability requested wanted : Op (Linkage SimHost) _) :=
      Bindings.posted_allocate entry capability requested wanted
    have hraises := hposted.raises asking_unrefused.mechanical found
    have hmeets := requestAllocate_meets hmodule (by rw [hstorage]; exact hwf) capability
      requested wanted
    rw [hhost, hstorage] at hmeets
    refine Op.Ends.bind_of_ok (Op.run_onFirst (by rw [hlink]; exact hfetch)) ?_
    rcases hrequest : Bindings.requestAllocate entry capability requested wanted found with
      ⟨fault | result, after⟩
    · unfold Op.Ends
      rw [Op.run_bind_of_fault (Op.run_onFirst hrequest)]
      rcases hmeets.fault hrequest with ⟨-, hsame, hnot⟩ | ⟨-, outcome, hmeets, hok, hfault⟩
      · exact .inl ⟨⟨fault, rfl⟩, (hraises.fault hrequest).fault, hsame, fun hall => hnot hall.2⟩
      · refine .inr ⟨outcome, (after, asked.2), hmeets, ⟨entry, found, hfetch, hmodule, ?_⟩, rfl,
          fun answer hanswer => ?_, fun stop hstop => ?_⟩
        · exact congrArg Prod.snd hrequest
        · obtain ⟨_, hr, -⟩ := hok answer hanswer
          cases hr
        · cases hfault stop hstop
          exact ⟨rfl, rfl⟩
    · refine Op.Ends.bind_of_ok (Op.run_onFirst hrequest) ?_
      rcases hmeets.ok hrequest with ⟨⟨_, hr⟩, -⟩ | ⟨-, outcome, hmeets, hok, hfault⟩
      · cases hr
      · refine .inr ⟨outcome, (after, asked.2), hmeets, ⟨entry, found, hfetch, hmodule, ?_⟩, rfl,
          fun answer hanswer => ?_, fun stop hstop => ?_⟩
        · exact congrArg Prod.snd hrequest
        · obtain ⟨_, hr, hreads⟩ := hok answer hanswer
          cases hr
          exact ⟨result, hreads, rfl⟩
        · cases hfault stop hstop

/-- A name that is given is the name that is asked for. -/
theorem requestedName_given {given : String} (hddname : wanted.ddname = some given)
    (hgiven : DdName.ofString given = .ok requested) (s : Linkage SimHost × Bindings) :
    Bindings.requestedName wanted s = (.ok requested, s) := by
  unfold Bindings.requestedName
  rw [hddname]
  show (liftM (DdName.ofString given) : Op (Linkage SimHost × Bindings) DdName) s = _
  rw [hgiven]
  rfl

theorem refused_rc {reason catalogRc : UInt16} :
    (Service.AllocationAnswer.refused reason catalogRc).rc ≠ 0 :=
  show refusedRc ≠ 0 by decide

/-- An answer that refuses is reported with its codes. -/
theorem settle_refusal {answer : Service.AllocationAnswer} {result : AllocationResult}
    (hreads : Reads result answer) (hrc : answer.rc ≠ 0) (capability : Capability)
    (middle : Linkage SimHost × Bindings) :
    Bindings.settle capability requested result middle
      = (.error (.error (.allocationFailed requested.text answer.rc answer.reason
          answer.catalogRc 0)), middle) := by
  have hfailed : result.succeeded = false := by
    unfold AllocationResult.succeeded
    rw [hreads.rc]
    simp [hrc]
  unfold Bindings.settle
  rw [hfailed, ← hreads.rc, ← hreads.reason, ← hreads.catalogRc, ← hreads.flags]
  rfl

/-- An allocation that the host refused fails with the host's codes and
leaves what the host left. -/
theorem Reached.refused {capability : Capability} {answer : Service.AllocationAnswer}
    {middle t : Linkage SimHost × Bindings} {r : Outcome (DdName × AllocationResult)}
    {outcome : Outcome Service.AllocationAnswer}
    (h : Reached capability wanted requested s asked middle outcome r t)
    (houtcome : outcome = .ok answer) (hrc : answer.rc ≠ 0) :
    r = .error (.error (.allocationFailed requested.text answer.rc answer.reason
        answer.catalogRc 0))
      ∧ t = middle := by
  obtain ⟨result, hreads, hsettled⟩ := h.settled answer houtcome
  rw [settle_refusal hreads hrc] at hsettled
  cases hsettled
  exact ⟨rfl, rfl⟩

/-- An answer with the name asked for binds it. -/
theorem settle_named {result : AllocationResult}
    (hreads : Reads result { ddname := some requested.text }) (capability : Capability)
    (middle : Linkage SimHost × Bindings) :
    Bindings.settle capability requested result middle
      = (.ok (requested, result),
          (middle.1, { middle.2 with live := middle.2.live.insert requested () })) := by
  have hassigned : DdName.ofString result.assignedName = .ok requested := by
    rw [hreads.name _ rfl, requested.field]
    exact requested.ofString_text
  have hsucceeded : result.succeeded = true := by
    unfold AllocationResult.succeeded
    rw [hreads.rc, hreads.reason]
    rfl
  exact Bindings.settle_bound hsucceeded hassigned capability requested middle

end Allocating

-- =========================================================== the numbers

open Session

variable {host : SimHost} {settings : Settings} {s : Session SimHost} {ddname : String}
  {name : DdName}

/-- Without a further number a request for a temporary dataset traps. -/
theorem Service.Meets.spent {after : SimHost} {status : DatasetStatus}
    {outcome : Outcome Service.AllocationAnswer} (h : Meets host ddname none status outcome after)
    (hlast : host.tempSeq.toNat + 1 = UInt32.size) : outcome = trap := by
  have hnone : ∀ {name : String} {supplied : SimHost},
      ¬Supplied host status none name supplied := by
    intro name supplied hsupplied
    cases hsupplied with
    | @temporary number hnext =>
        have hnumber := successor_ok hnext
        have := number.toNat_lt_size
        omega
  cases h with
  | missing hname => cases hname
  | exhausted => rfl
  | flawed hsupplied => exact absurd hsupplied hnone
  | inUse hsupplied => exact absurd hsupplied hnone
  | bound hsupplied => exact absurd hsupplied hnone
  | madeUp hsupplied => exact absurd hsupplied hnone

/-- With a further number the host numbers the dataset before it refuses a
name that is in use. -/
theorem Service.Meets.numbered {after : SimHost} {status : DatasetStatus}
    {outcome : Outcome Service.AllocationAnswer} (h : Meets host ddname none status outcome after)
    (hnext : host.tempSeq.toNat + 1 < UInt32.size) (hreply : host.reply ≠ .system)
    (hflaw : Name.ddnameFlaw? ddname = none) (hused : (host.dds.lookup ddname).isSome = true) :
    outcome = .ok (.refused ddnameInUse 0) ∧ after.dds = host.dds
      ∧ after.tempSeq.toNat = host.tempSeq.toNat + 1 := by
  cases h with
  | missing hname => cases hname
  | exhausted _ hfull => exact absurd (successor_trap hfull) hnext.ne
  | flawed _ hflawed => exact absurd hflaw hflawed
  | inUse hsupplied _ =>
      refine ⟨rfl, hsupplied.kept.1, ?_⟩
      cases hsupplied with
      | temporary hnumber => exact successor_ok hnumber
  | bound _ _ hnew =>
      rw [hnew] at hused
      cases hused
  | madeUp _ hsystem => exact absurd hsystem hreply

/-- An allocation in a reachable session: the request reaches the host. -/
theorem reachable_settles (hs : Reachable Touched host settings s)
    (hpresent : (host.modules.get? "TSODALC").isSome = true) {capability : Capability}
    (hcapability : capability.cppl.toNat < 0x80000000) (wanted : AllocationRequest)
    {given : String} {name : DdName} (hddname : wanted.ddname = some given)
    (hgiven : DdName.ofString given = .ok name) :
    (Bindings.allocate capability wanted).Ends (s.linkage, s.bindings) fun r t =>
      ∃ outcome middle, Reached capability wanted name (s.linkage, s.bindings)
        (s.linkage, s.bindings) middle outcome r t := by
  have hrest := reachable_resting hs
  have hfinds := (reachable_offers hs (Linkage.upper_sought (by simp)) hpresent).finds
  have hpostable : Postable capability s.linkage.storage.openFrame :=
    ⟨hrest.room, by rw [← Bool.not_eq_true, ParmList.marked_iff]; omega⟩
  refine (allocate_settles (s := (s.linkage, s.bindings)) hrest.named hrest.wellFormed
    (requestedName_given hddname hgiven _) capability).mono fun r t h => ?_
  exact h.resolve_left fun ⟨_, _, _, hnot⟩ => hnot ⟨hfinds, hpostable⟩

/-- A session that has used up the numbers allocates no temporary dataset
any more. -/
theorem allocate_spent (hs : Reachable Touched host settings s)
    (hpresent : (host.modules.get? "TSODALC").isSome = true) {capability : Capability}
    (hcapability : capability.cppl.toNat < 0x80000000) {given : String} {name : DdName}
    (hgiven : DdName.ofString given = .ok name) (status : DatasetStatus)
    (hlast : s.host.tempSeq.toNat + 1 = UInt32.size) :
    (Bindings.allocate capability { ddname := some given, dsname := none, status }
      (s.linkage, s.bindings)).1 = trap := by
  obtain ⟨outcome, middle, hreached⟩ := reachable_settles hs hpresent hcapability
    { ddname := some given, dsname := none, status } rfl hgiven
  have hmeets : Service.Meets (s.host.count "TSODALC") name.text none status outcome
      middle.1.host := hreached.meets
  exact (hreached.trapped _ (hmeets.spent hlast)).1

/-- An allocation that starts in a known environment asks for no other. -/
theorem run_allocate {capability : Capability} {source : CapabilitySource}
    (hready : s.environment.state = .ready capability source) (wanted : AllocationRequest) :
    Session.allocate wanted s = onBindings (Bindings.allocate capability wanted) s := by
  have hknown : Session.establish s = (.ok capability, s) := by
    have hgets : (Op.gets fun t : Linkage SimHost × Environment => t.2.state)
        (s.linkage, s.environment) = (.ok (.ready capability source), (s.linkage, s.environment)) := by
      rw [← hready]
      rfl
    unfold Session.establish onEnvironment
    refine (Op.run_on (t := (s.linkage, s.environment)) ?_).trans rfl
    unfold Environment.establish
    rw [Op.run_bind_of_ok hgets]
    rfl
  unfold Session.allocate
  rw [Op.run_bind_of_ok hknown]

/-- A session whose environment is known, on a host that has a DD of this
name and keeps to the names it is asked for. -/
structure Refusing (host : SimHost) (settings : Settings) (name : DdName)
    (s : Session SimHost) : Prop where
  reachable : Reachable Touched host settings s
  reply : host.reply ≠ .system
  allocates : (host.modules.get? "TSODALC").isSome = true
  ready : ∃ capability source, s.environment.state = .ready capability source
    ∧ capability.cppl.toNat < 0x80000000
  used : (s.host.dds.lookup name.text).isSome = true

namespace Refusing

/-- A session that has found out about its environment and done nothing
else. -/
theorem established {capability : Capability} {source : CapabilitySource}
    (hstate : (Session.establish (start host settings)).2.environment.state
      = .ready capability source)
    (hcapability : capability.cppl.toNat < 0x80000000) (hreply : host.reply ≠ .system)
    (hallocates : (host.modules.get? "TSODALC").isSome = true)
    (hused : ((Session.establish (start host settings)).2.host.dds.lookup name.text).isSome
      = true) :
    Refusing host settings name (Session.establish (start host settings)).2 where
  reachable := .tail .refl (.establish _)
  reply := hreply
  allocates := hallocates
  ready := ⟨capability, source, hstate, hcapability⟩
  used := hused

/-- While there is a further number, asking for the name once more takes it
and leaves the DDs as they are. -/
theorem step (h : Refusing host settings name s)
    (hspare : s.host.tempSeq.toNat + 1 < UInt32.size) :
    ∃ t, Refusing host settings name t ∧ t.host.dds = s.host.dds
      ∧ t.host.tempSeq.toNat = s.host.tempSeq.toNat + 1 := by
  obtain ⟨capability, source, hready, hcapability⟩ := h.ready
  let wanted : AllocationRequest := { ddname := some name.text, dsname := none, status := .new }
  have hreply : s.host.reply ≠ .system := by
    rw [show s.host.reply = host.reply by rw [← reachable_setup h.reachable]; rfl]
    exact h.reply
  obtain ⟨outcome, middle, hreached⟩ :=
    reachable_settles h.reachable h.allocates hcapability wanted rfl name.ofString_text
  have hmeets : Service.Meets (s.host.count "TSODALC") name.text none .new outcome
      middle.1.host := hreached.meets
  obtain ⟨houtcome, hdds, hnumber⟩ := hmeets.numbered hspare hreply name.flawless h.used
  obtain ⟨-, hmiddle⟩ := hreached.refused houtcome refused_rc
  rw [← hmiddle] at hdds hnumber
  have hrun := run_allocate hready wanted
  have hhost : (Session.allocate wanted s).2.host
      = (Bindings.allocate capability wanted (s.linkage, s.bindings)).2.1.host := by
    rw [hrun]
    rfl
  refine ⟨(Session.allocate wanted s).2, { h with reachable := ?_, ready := ?_, used := ?_ },
    ?_, ?_⟩
  · exact h.reachable.tail (.allocate s wanted)
  · exact ⟨capability, source, by rw [hrun]; exact hready, hcapability⟩
  · rw [hhost, hdds]
    exact h.used
  · rw [hhost]
    exact hdds
  · rw [hhost]
    exact hnumber

/-- Asking again and again uses up the numbers. -/
theorem exhausts (h : Refusing host settings name s) :
    ∃ t, Refusing host settings name t ∧ t.host.dds = s.host.dds
      ∧ t.host.tempSeq.toNat + 1 = UInt32.size := by
  have hcount : ∀ n, s.host.tempSeq.toNat + n < UInt32.size →
      ∃ t, Refusing host settings name t ∧ t.host.dds = s.host.dds
        ∧ t.host.tempSeq.toNat = s.host.tempSeq.toNat + n := by
    intro n
    induction n with
    | zero => exact fun _ => ⟨s, h, rfl, rfl⟩
    | succ n ih =>
        intro hle
        obtain ⟨t, ht, hdds, hn⟩ := ih (by omega)
        obtain ⟨u, hu, hsame, hnext⟩ := ht.step (by omega)
        exact ⟨u, hu, hsame.trans hdds, by omega⟩
  have hlt := s.host.tempSeq.toNat_lt_size
  obtain ⟨t, ht, hdds, hlast⟩ := hcount (UInt32.size - 1 - s.host.tempSeq.toNat) (by omega)
  exact ⟨t, ht, hdds, by omega⟩

/-- At the last number the session allocates no temporary dataset. -/
theorem spent (h : Refusing host settings name s)
    (hlast : s.host.tempSeq.toNat + 1 = UInt32.size) {given : String} {wanted : DdName}
    (hgiven : DdName.ofString given = .ok wanted) (status : DatasetStatus) :
    (Session.allocate { ddname := some given, dsname := none, status } s).1 = trap := by
  obtain ⟨capability, source, hready, hcapability⟩ := h.ready
  rw [run_allocate hready]
  exact allocate_spent h.reachable h.allocates hcapability hgiven status hlast

end Refusing

end Sim
end TsoBridge
