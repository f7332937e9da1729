/-
What becomes of an allocation that a script asks for. The engine writes the
request into a work area field by field, the host reads it, decides and
writes its answer there, and the engine reads that. On a host that answers
with the name asked for the three come to one decision, taken on the DD
table and the catalog alone (`allocation_performs_request`): a dataset that
is not there is not found, a name that is in use is refused, and every
other request is met with exactly the DD that it names.

# What a refusal leaves behind

A refused request leaves the live names and the DD table as they were. The
catalog it leaves alone too, with one exception: a dataset that is to be
made is made before the table is asked, and stays when the table refuses
the name (`refused_allocation_leaves`). A temporary dataset is made
afterwards, so nothing of it stays.
-/
import TsoBridge.Proofs.Settling

namespace TsoBridge

namespace Sim

open WorkArea

-- =============================================================== theorems

open Session

variable {host : SimHost} {settings : Settings} {s t : Session SimHost}
  {text : String} {request : AllocationRequest}

/-- The request names a dataset that is neither there nor to be made. -/
def Missing (host : SimHost) (request : AllocationRequest) : Prop :=
  ∃ dsname, request.dsname = some dsname ∧ host.catalog.contains dsname = false
    ∧ (request.status = .shr ∨ request.status = .old)

theorem not_made_iff (status : DatasetStatus) :
    ¬(status = .new ∨ status = .mod) ↔ status = .shr ∨ status = .old := by
  cases status <;> decide

/-- A request for which a dataset is at hand does not miss it, and a
temporary one has its number. -/
theorem Service.Supplied.ready {module name : String} {supplied : SimHost}
    (h : Supplied (host.count module) request.status request.dsname name supplied) :
    ¬Missing host request
      ∧ (request.dsname = none → host.tempSeq.toNat + 1 < UInt32.size) := by
  generalize hdsname : request.dsname = dsname at h
  cases h with
  | @temporary number hnext =>
      refine ⟨fun ⟨_, hsome, _⟩ => ?_, fun _ => ?_⟩
      · rw [hdsname] at hsome
        cases hsome
      · have hnumber : number.toNat = host.tempSeq.toNat + 1 := successor_ok hnext
        rw [← hnumber]
        exact number.toNat_lt_size
  | cataloged hthere =>
      refine ⟨fun ⟨_, hsome, hmissing, _⟩ => ?_, fun hnone => by cases hnone⟩
      rw [hdsname] at hsome
      cases hsome
      rw [show host.catalog.contains name = true from hthere] at hmissing
      cases hmissing
  | made _ hstatus =>
      refine ⟨fun ⟨_, _, _, hmissing⟩ => ?_, fun hnone => by cases hnone⟩
      exact (not_made_iff request.status).mpr hmissing hstatus

/-- What the host performs for a request under `ddname`, read off its
table and catalog; the name it answers with is `reported`. -/
structure PerformedAs (host : SimHost) (request : AllocationRequest) (ddname reported : String)
    (outcome : Outcome Service.AllocationAnswer) (after : SimHost) : Prop where
  missing : Missing host request →
    outcome = .ok (.refused dsnameNotFound 8) ∧ after.dds = host.dds
  exhausted : request.dsname = none → host.tempSeq.toNat + 1 = UInt32.size →
    outcome = trap ∧ after.dds = host.dds
  inUse : ¬Missing host request →
    (request.dsname = none → host.tempSeq.toNat + 1 < UInt32.size) →
    (host.dds.lookup ddname).isSome = true →
    outcome = .ok (.refused ddnameInUse 0) ∧ after.dds = host.dds
  bound : ¬Missing host request →
    (request.dsname = none → host.tempSeq.toNat + 1 < UInt32.size) →
    host.dds.lookup ddname = none →
    outcome = .ok { ddname := some reported }
      ∧ ∃ dsname, after.dds = host.dds.enter { ddname, dsname, status := request.status
                                               temporary := request.dsname.isNone }
        ∧ (∀ n, request.dsname = some n → dsname = Text.upper n)
        ∧ (request.dsname = none → ∃ dataset, after.catalog.get? dsname = some dataset
          ∧ dataset.temporary = true)

/-- The same, for a host that answers with the name asked for. -/
abbrev Performed (host : SimHost) (request : AllocationRequest) (ddname : String) :
    Outcome Service.AllocationAnswer → SimHost → Prop :=
  PerformedAs host request ddname ddname

theorem Service.Meets.performedAs {module ddname : String} {outcome : Outcome AllocationAnswer}
    {after : SimHost}
    (h : Meets (host.count module) ddname request.dsname request.status outcome after)
    (hreply : host.reply ≠ .system) (hflaw : Name.ddnameFlaw? ddname = none)
    (hupper : Text.upper ddname = ddname) :
    PerformedAs host request ddname (reportedName host.reply ddname) outcome after := by
  cases h with
  | missing hname hcatalog hstatus =>
      have hmissing : Missing host request :=
        ⟨_, hname, hcatalog, (not_made_iff request.status).mp hstatus⟩
      refine ⟨fun _ => ⟨rfl, rfl⟩, fun hnone => ?_, fun hnot => absurd hmissing hnot,
        fun hnot => absurd hmissing hnot⟩
      rw [hnone] at hname
      cases hname
  | exhausted hname hfull =>
      have hlast : ¬host.tempSeq.toNat + 1 < UInt32.size :=
        Nat.not_lt.mpr (successor_trap hfull).ge
      refine ⟨fun ⟨_, hsome, _⟩ => ?_, fun _ _ => ⟨rfl, rfl⟩,
        fun _ hnumbered => absurd (hnumbered hname) hlast,
        fun _ hnumbered => absurd (hnumbered hname) hlast⟩
      rw [hname] at hsome
      cases hsome
  | flawed _ hflawed => exact absurd hflaw hflawed
  | inUse hsupplied hused =>
      obtain ⟨hready, hnumbered⟩ := hsupplied.ready
      refine ⟨fun hmissing => absurd hmissing hready, fun hnone hlast => ?_,
        fun _ _ _ => ⟨rfl, hsupplied.kept.1⟩, fun _ _ hnew => ?_⟩
      · exact absurd (hnumbered hnone) (by omega)
      · rw [show (host.count module).dds.lookup ddname = none from hnew] at hused
        cases hused
  | @bound name supplied hsupplied _ hnew =>
      obtain ⟨hready, hnumbered⟩ := hsupplied.ready
      refine ⟨fun hmissing => absurd hmissing hready, fun hnone hlast => ?_,
        fun _ _ hused => ?_, fun _ _ _ => ⟨?_, Text.upper name, ?_, fun n hn => ?_, fun hnone => ?_⟩⟩
      · exact absurd (hnumbered hnone) (by omega)
      · rw [show host.dds.lookup ddname = none from hnew] at hused
        cases hused
      · rw [hupper]
        rfl
      · rw [hupper]
        exact congrArg (DdTable.enter · _) hsupplied.kept.1
      · generalize request.dsname = dsname at hsupplied hn
        subst hn
        cases hsupplied <;> rfl
      · rw [hnone]
        exact ⟨temporaryDataset (Text.upper name), Catalog.get?_define _ rfl, rfl⟩
  | madeUp _ hsystem _ => exact absurd hsystem hreply

theorem Service.Meets.performed {module ddname : String} {outcome : Outcome AllocationAnswer}
    {after : SimHost}
    (h : Meets (host.count module) ddname request.dsname request.status outcome after)
    (hreply : host.reply = .requested) (hflaw : Name.ddnameFlaw? ddname = none)
    (hupper : Text.upper ddname = ddname) : Performed host request ddname outcome after := by
  have hperformed := h.performedAs (by rw [hreply]; decide) hflaw hupper
  rwa [hreply] at hperformed

/-- The request that the engine makes of a text is the request the host
performs: it fails for a dataset that is not there or else for a name in
use, and leaves the DD table alone, or it enters the DD it names and
nothing else. A host that cannot number a further temporary dataset traps
before it looks at the name. -/
theorem allocation_performs_request (hs : Reachable Touched host settings s)
    (hreply : host.reply = .requested)
    (hpresent : (host.modules.get? "TSODALC").isSome = true) (capability : Capability)
    (hcapability : capability.cppl.toNat < 0x80000000)
    (hparse : AllocationRequest.parse text = .ok request) :
    ∃ d : DdName, request.ddname.map Text.upper = some d.text
      ∧ (Bindings.allocate capability request).Ends (s.linkage, s.bindings) fun r t =>
        (Missing s.host request →
          r = .error (.error (.allocationFailed d.text 12 0x1708 8 0))
            ∧ t.1.host.dds = s.host.dds)
        ∧ (request.dsname = none → s.host.tempSeq.toNat + 1 = UInt32.size →
          r = trap ∧ t.1.host.dds = s.host.dds)
        ∧ (¬Missing s.host request →
          (request.dsname = none → s.host.tempSeq.toNat + 1 < UInt32.size) →
          ((s.host.dds.lookup d.text).isSome = true →
            r = .error (.error (.allocationFailed d.text 12 0x0410 0 0))
              ∧ t.1.host.dds = s.host.dds)
          ∧ (s.host.dds.lookup d.text = none →
            ∃ result dsname, r = .ok (d, result)
              ∧ t.1.host.dds = s.host.dds.enter
                { ddname := d.text, dsname, status := request.status
                  temporary := request.dsname.isNone }
              ∧ (∀ n, request.dsname = some n → dsname = n)
              ∧ (request.dsname = none →
                ∃ dataset, t.1.host.catalog.get? dsname = some dataset
                  ∧ dataset.temporary = true))) := by
  obtain ⟨⟨given, hddname, hflaw⟩, hdataset⟩ := AllocationRequest.parse_ok hparse
  have hrequested : s.host.reply = .requested := by
    rw [← reachable_setup hs]
    exact hreply
  obtain ⟨d, hgiven⟩ := DdName.ofString_of_no_flaw hflaw
  have hupper : Text.upper given = d.text := (DdName.ofString_eq_ok_iff.mp hgiven).2
  refine ⟨d, by rw [hddname, Option.map_some, hupper], ?_⟩
  refine (reachable_settles hs hpresent hcapability request hddname hgiven).mono fun r t h => ?_
  obtain ⟨outcome, middle, hreached⟩ := h
  have hmeets := hreached.meets
  rw [datasetOf_parsed hparse] at hmeets
  have hperformed : Performed s.host request d.text outcome middle.1.host :=
    hmeets.performed hrequested d.flawless d.upper
  refine ⟨fun hmissing => ?_, fun hnone hlast => ?_, fun hthere hnumbered => ⟨fun hused => ?_,
    fun hnew => ?_⟩⟩
  · obtain ⟨houtcome, hdds⟩ := hperformed.missing hmissing
    obtain ⟨hr, rfl⟩ := hreached.refused houtcome refused_rc
    exact ⟨hr, hdds⟩
  · obtain ⟨houtcome, hdds⟩ := hperformed.exhausted hnone hlast
    obtain ⟨hr, rfl⟩ := hreached.trapped _ houtcome
    exact ⟨hr, hdds⟩
  · obtain ⟨houtcome, hdds⟩ := hperformed.inUse hthere hnumbered hused
    obtain ⟨hr, rfl⟩ := hreached.refused houtcome refused_rc
    exact ⟨hr, hdds⟩
  · obtain ⟨houtcome, dsname, hdds, hsame, htemporary⟩ := hperformed.bound hthere hnumbered hnew
    obtain ⟨result, hreads, hsettled⟩ := hreached.settled _ houtcome
    rw [settle_named hreads] at hsettled
    cases hsettled
    refine ⟨result, dsname, rfl, hdds, fun n hn => ?_, htemporary⟩
    rw [hsame n hn]
    exact (hdataset n hn).2

/-- A dataset that is made for a new DD. -/
theorem allocation_performs_request_made :
    let s := start (SimHost.build {} noon) {}
    let request : AllocationRequest :=
      { ddname := some "WORK", dsname := some "NEW.DATA", status := .mod }
    AllocationRequest.parse "file(work) da('new.data') mod" = .ok request
      ∧ (Bindings.allocate ⟨0⟩ request).Ends (s.linkage, s.bindings) fun r t =>
        (∃ result, r = .ok ({ text := "WORK" }, result))
          ∧ t.1.host.dds = s.host.dds.enter
            { ddname := "WORK", dsname := "NEW.DATA", status := .mod, temporary := false } := by
  intro s request
  have hparse : AllocationRequest.parse "file(work) da('new.data') mod" = .ok request := by
    decide +kernel
  obtain ⟨d, hd, hperforms⟩ := allocation_performs_request
    (.refl : Reachable Touched (SimHost.build {} noon) {} s) rfl (by decide +kernel) ⟨0⟩
    (by decide) hparse
  obtain rfl : d = { text := "WORK" } := by
    have hupper : Text.upper "WORK" = "WORK" := by decide +kernel
    exact DdName.ext ((Option.some.inj hd).symm.trans hupper)
  refine ⟨hparse, hperforms.mono fun r t hrt => ?_⟩
  have hthere : ¬Missing s.host request := by
    rintro ⟨_, _, _, h | h⟩
    · cases h
    · cases h
  have hfree : s.host.dds.lookup "WORK" = none := by decide +kernel
  obtain ⟨result, dsname, hr, hdds, hsame, -⟩ :=
    (hrt.2.2 hthere fun hnone => by cases hnone).2 hfree
  obtain rfl : dsname = "NEW.DATA" := hsame _ rfl
  exact ⟨⟨result, hr⟩, hdds⟩

/-- Where a request is not performed though its name is free: in a session
that has used up the numbers of temporary datasets it traps, and in storage
that somebody else has filled there is no room to make it. -/
theorem allocation_unperformed :
    let host := SimHost.build {} noon
    let request : AllocationRequest := { ddname := some "WORK", dsname := none, status := .new }
    AllocationRequest.parse "WORK" = .ok request
      ∧ (∃ s, Reachable Touched host {} s ∧ s.host.dds.lookup "WORK" = none
        ∧ (Bindings.allocate ⟨0⟩ request (s.linkage, s.bindings)).1 = trap)
      ∧ ∃ full, Storage.obtain {} Storage.engineSubpool 0x7FFEFFF8 = .ok (0x10000, full)
        ∧ (Bindings.allocate ⟨0⟩ request ({ host, storage := full }, {})).1
          = .error (.error (.obtainFailed 256 .exhausted)) := by
  intro host request
  have hestablished : (Session.establish (start host {})).2.environment.state
      = .ready ⟨0x10040⟩ (.probed 0) := by
    decide +kernel
  have hrefusing : Refusing host {} { text := "TSOOUT" } (Session.establish (start host {})).2 :=
    .established hestablished (by decide) (by decide +kernel) (by decide +kernel)
      (by decide +kernel)
  obtain ⟨s, hs, hdds, hlast⟩ := hrefusing.exhausts
  refine ⟨by decide +kernel, ⟨s, hs.reachable, ?_, ?_⟩, _, rfl, ?_⟩
  · rw [hdds]
    decide +kernel
  · exact allocate_spent hs.reachable hs.allocates (by decide : (0 : Address).toNat < 0x80000000)
      (DdName.ofString_text { text := "WORK" }) .new hlast
  · decide +kernel

-- ================================================================ refusals

/-- A dataset of this name is made for the request. -/
def MadeFor (host : SimHost) (request : AllocationRequest) (dsname : String) : Prop :=
  request.dsname = some dsname ∧ host.catalog.contains dsname = false
    ∧ (request.status = .new ∨ request.status = .mod)

theorem Service.Supplied.catalog {name module : String} {supplied : SimHost}
    (h : Supplied (host.count module) request.status request.dsname name supplied) :
    ((∀ dsname, ¬MadeFor host request dsname) ∧ supplied.catalog = host.catalog)
      ∨ MadeFor host request name
        ∧ supplied.catalog = host.catalog.define (Dataset.sequential name 80) := by
  generalize hdsname : request.dsname = dsname at h
  cases h with
  | temporary =>
      refine .inl ⟨fun n hmade => ?_, rfl⟩
      rw [MadeFor, hdsname] at hmade
      cases hmade.1
  | cataloged hthere =>
      refine .inl ⟨fun n hmade => ?_, rfl⟩
      rw [MadeFor, hdsname] at hmade
      obtain ⟨hn, hmissing, -⟩ := hmade
      cases hn
      rw [show host.catalog.contains name = true from hthere] at hmissing
      cases hmissing
  | made hmissing hstatus => exact .inr ⟨⟨hdsname, hmissing, hstatus⟩, rfl⟩

/-- What an answer that refuses leaves. -/
theorem Service.Meets.refused {module ddname : String} {answer : AllocationAnswer}
    {after : SimHost}
    (h : Meets (host.count module) ddname request.dsname request.status (.ok answer) after)
    (hflaw : Name.ddnameFlaw? ddname = none) :
    answer.rc = 0 ∧ answer.reason = 0
      ∨ after.dds = host.dds
        ∧ ((∀ dsname, ¬MadeFor host request dsname) ∧ after.catalog = host.catalog
          ∨ ∃ dsname, MadeFor host request dsname
            ∧ after.catalog = host.catalog.define (Dataset.sequential dsname 80)) := by
  generalize houtcome : (.ok answer : Outcome AllocationAnswer) = outcome at h
  cases h with
  | missing _ _ hstatus =>
      exact .inr ⟨rfl, .inl ⟨fun _ hmade => hstatus hmade.2.2, rfl⟩⟩
  | exhausted => cases houtcome
  | flawed _ hflawed => exact absurd hflaw hflawed
  | inUse hsupplied _ =>
      exact .inr ⟨hsupplied.kept.1, hsupplied.catalog.imp_right fun hmade => ⟨_, hmade⟩⟩
  | bound =>
      cases houtcome
      exact .inl ⟨rfl, rfl⟩
  | madeUp _ _ hr =>
      rcases hr with rfl | ⟨_, rfl, hrc, hreason⟩
      · cases houtcome
      · cases houtcome
        exact .inl ⟨hrc, hreason⟩

/-- An answer that grants is not reported as a refusal. -/
theorem raises_settle_granted {result : AllocationResult} (h : result.succeeded = true)
    (capability : Capability) (requested : DdName) :
    (Bindings.settle capability requested result :
      Op (Linkage SimHost × Bindings) (DdName × AllocationResult)).Raises Unrefused := by
  unfold Bindings.settle
  rw [h]
  simp only [Bool.not_true, Bool.false_eq_true, if_false]
  split
  · exact (Op.raises_modify _).on.bind fun _ => Op.raises_pure _
  · have htaken : (Bindings.takeBack capability
        (Bindings.takeBackNames requested result.assignedName) : Op (Linkage SimHost) Unit).Raises
          Unrefused :=
      (Bindings.meets_takeBack (Linkage.served_free (Host.maps_id _)) (fun _ _ => trivial)
        capability _).raises
    exact htaken.on.bind fun _ => Op.raises_fail fun _ _ _ _ _ => nofun

/-- The catalog is left alone or a dataset is made in it, whichever the
request says. -/
theorem catalog_left {catalog : Catalog}
    (h : (∀ dsname, ¬MadeFor host request dsname) ∧ catalog = host.catalog
      ∨ ∃ dsname, MadeFor host request dsname
        ∧ catalog = host.catalog.define (Dataset.sequential dsname 80)) :
    (catalog = host.catalog ↔ ∀ dsname, ¬MadeFor host request dsname)
      ∧ ∀ dsname, MadeFor host request dsname →
        catalog = host.catalog.define (Dataset.sequential dsname 80) := by
  rcases h with ⟨hnone, rfl⟩ | ⟨dsname, hmade, rfl⟩
  · exact ⟨⟨fun _ => hnone, fun _ => rfl⟩, fun dsname hmade => absurd hmade (hnone dsname)⟩
  · refine ⟨⟨fun hsame => ?_, fun hnone => absurd hmade (hnone dsname)⟩, fun other hother => ?_⟩
    · have hthere : (host.catalog.define (Dataset.sequential dsname 80)).contains dsname = true :=
        congrArg Option.isSome (Catalog.get?_define host.catalog rfl)
      rw [hsame, hmade.2.1] at hthere
      cases hthere
    · rw [Option.some.inj (hother.1.symm.trans hmade.1)]

/-- An allocation that fails as refused was refused by the host, and what
the host left is what there is. -/
theorem allocate_refused {s t : Linkage SimHost × Bindings} {capability : Capability} {d : String}
    {rc : Int32} {reason catalogRc : UInt16} {flags : UInt8} (hnamed : s.1.Named)
    (hwf : s.1.storage.WellFormed) (hparse : AllocationRequest.parse text = .ok request)
    (h : Bindings.allocate capability request s
      = (.error (.error (.allocationFailed d rc reason catalogRc flags)), t)) :
    t.2 = s.2 ∧ t.1.host.dds = s.1.host.dds
      ∧ ((∀ dsname, ¬MadeFor s.1.host request dsname) ∧ t.1.host.catalog = s.1.host.catalog
        ∨ ∃ dsname, MadeFor s.1.host request dsname
          ∧ t.1.host.catalog = s.1.host.catalog.define (Dataset.sequential dsname 80)) := by
  obtain ⟨⟨given, hddname, hflaw⟩, -⟩ := AllocationRequest.parse_ok hparse
  obtain ⟨name, hgiven⟩ := DdName.ofString_of_no_flaw hflaw
  rcases (allocate_settles hnamed hwf (requestedName_given hddname hgiven s) capability).fault h with
    ⟨-, hraises, -⟩ | ⟨outcome, middle, hreached⟩
  · exact absurd rfl (hraises _ rfl d rc reason catalogRc flags)
  cases outcome with
  | error fault => cases (hreached.trapped fault rfl).1
  | ok answer =>
      obtain ⟨result, hreads, hsettled⟩ := hreached.settled answer rfl
      have hmeets := hreached.meets
      have hbindings := hreached.bindings
      have hrefused : result.succeeded = false := by
        by_contra hgranted
        have hraises := (raises_settle_granted (by simpa using hgranted) capability _
          middle).fault hsettled
        exact absurd rfl (hraises _ rfl d rc reason catalogRc flags)
      obtain ⟨cause, hstays⟩ := Bindings.settle_refused hrefused capability _ middle
      rw [hstays] at hsettled
      cases hsettled
      rw [datasetOf_parsed hparse] at hmeets
      have hleaves : answer.rc = 0 ∧ answer.reason = 0
          ∨ t.1.host.dds = s.1.host.dds ∧ _ :=
        hmeets.refused name.flawless
      rcases hleaves with ⟨hrc, hreason⟩ | hleaves
      · unfold AllocationResult.succeeded at hrefused
        rw [hreads.rc, hreads.reason, hrc, hreason] at hrefused
        cases hrefused
      · exact ⟨hbindings, hleaves⟩

/-- What a refused allocation leaves behind: the bindings and the DD table
are as they were, and so is the catalog, unless a dataset was to be made;
that one is made, and stays. -/
theorem refused_allocation_leaves {d : String} {rc : Int32} {reason catalogRc : UInt16}
    {flags : UInt8} (hs : Reachable Touched host settings s)
    (hparse : AllocationRequest.parse text = .ok request)
    (h : Session.allocate request s
      = (.error (.error (.allocationFailed d rc reason catalogRc flags)), t)) :
    t.bindings = s.bindings ∧ t.host.dds = s.host.dds
      ∧ (t.host.catalog = s.host.catalog ↔ ∀ dsname, ¬MadeFor s.host request dsname)
      ∧ ∀ dsname, MadeFor s.host request dsname →
        t.host.catalog = s.host.catalog.define (Dataset.sequential dsname 80) := by
  have hrest := reachable_resting hs
  rcases Op.bind_fault h with hestablish | ⟨capability, u, hestablish, hallocate⟩
  · have hraises : (establish : Op (Session SimHost) Capability).Raises Unrefused :=
      (meets_establish (Linkage.served_free (Host.maps_id _)) (fun _ _ _ _ => trivial)
        asking_unrefused).raises
    exact absurd rfl (((hraises s).fault hestablish) _ rfl d rc reason catalogRc flags)
  -- finding out about the environment changes nothing a script sees
  have hreach : Linkage.Reach (· = "IKJTSOEV") s.linkage u.linkage :=
    ((probes_establish s hrest.named).ok hestablish).1
  have hbindings : u.bindings = s.bindings := by
    have hkept : (establish s).2.bindings = s.bindings := rfl
    rwa [hestablish] at hkept
  have hhost := reach_probing hreach
  have hdds : u.linkage.host.dds = s.host.dds := by
    rw [← hhost]
    rfl
  have hcatalog : u.linkage.host.catalog = s.host.catalog := by
    rw [← hhost]
    rfl
  have hmade : ∀ dsname, MadeFor u.linkage.host request dsname ↔ MadeFor s.host request dsname := by
    intro dsname
    unfold MadeFor
    rw [hcatalog]
  rcases hp : Bindings.allocate capability request (u.linkage, u.bindings) with ⟨r, p⟩
  unfold onBindings Op.on at hallocate
  rw [hp] at hallocate
  cases hallocate
  obtain ⟨hsame, hkept, hcatalogs⟩ := allocate_refused (s := (u.linkage, u.bindings))
    (hreach.named hrest.named) (reach_wellFormed hreach hrest.wellFormed) hparse hp
  refine ⟨hsame.trans hbindings, hkept.trans hdds, ?_⟩
  rw [hcatalog] at hcatalogs
  simp only [hmade] at hcatalogs
  exact catalog_left hcatalogs

/-- A dataset that is not there and not to be made. -/
theorem refused_allocation_leaves_all :
    let s := start (SimHost.build {} noon) {}
    let request : AllocationRequest :=
      { ddname := some "WORK", dsname := some "NO.DATA", status := .shr }
    AllocationRequest.parse "FILE(WORK) DA('NO.DATA')" = .ok request
      ∧ ∃ t, Session.allocate request s
          = (.error (.error (.allocationFailed "WORK" 12 0x1708 8 0)), t)
        ∧ t.bindings = s.bindings ∧ t.host.dds = s.host.dds
        ∧ t.host.catalog = s.host.catalog := by
  intro s request
  have hparse : AllocationRequest.parse "FILE(WORK) DA('NO.DATA')" = .ok request := by
    decide +kernel
  have hrefused : (Session.allocate request s).1
      = .error (.error (.allocationFailed "WORK" 12 0x1708 8 0)) := by
    decide +kernel
  obtain ⟨t, hrun⟩ := Op.ends_of_fst hrefused
  obtain ⟨hbindings, hdds, hcatalog, -⟩ := refused_allocation_leaves
    (.refl : Reachable Touched (SimHost.build {} noon) {} s) hparse hrun
  refine ⟨hparse, t, hrun, hbindings, hdds, hcatalog.mpr ?_⟩
  rintro _ ⟨-, -, h | h⟩
  · cases h
  · cases h

/-- A name in use, and a dataset made for it all the same. -/
theorem refused_allocation_catalogs :
    let s := start (SimHost.build {} noon) {}
    let request : AllocationRequest :=
      { ddname := some "SYSEXEC", dsname := some "NEW.DATA", status := .new }
    AllocationRequest.parse "FILE(SYSEXEC) DA('NEW.DATA') NEW" = .ok request
      ∧ s.host.reply = .requested
      ∧ (Session.allocate request s).1
        = .error (.error (.allocationFailed "SYSEXEC" 12 0x0410 0 0))
      ∧ s.host.catalog.contains "NEW.DATA" = false
      ∧ (Session.allocate request s).2.host.catalog.contains "NEW.DATA" = true := by
  decide +kernel

end Sim
end TsoBridge
