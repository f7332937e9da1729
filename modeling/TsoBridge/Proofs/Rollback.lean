/-
An allocation whose name cannot be bound is taken back. A host may report
another name than the one it allocated under, and if what it reports is no
DD name the engine has nothing to bind. It does not know under which name
the DD is held, so it asks the host to free the reported one first and the
requested one next, until the host agrees to one (`takeBack_frees`).

That is safe for every text a host may report. What arrives of a text in a
field crosses the field again unchanged (`decodeField_idem`), so the host
looks for just the name it reported; and there is no DD of such a name,
since the names in the table are ones a caller may ask for, or were made
up and then are too long for a field or could have been asked for as well
(`DdTable.Named.lookup_flawed`). So the first attempt frees nothing, the
second frees what was allocated, and the table is as it was
(`takeBack_undoes`).

On such a host an allocation can end in four ways, and all of them are
failures (`Fails`). Which it is depends on the table, the catalog and the
number of the next temporary dataset alone (`unusable_name_rolled_back`).
-/
import TsoBridge.Proofs.AllocationOutcome
import TsoBridge.Proofs.Sim.Agreement

namespace TsoBridge

-- ================================================================ fields

namespace CodePage

/-- What arrives in a field is no longer than the field. -/
theorem length_decodeField {width : Nat} {bytes : Bytes} (hlength : bytes.length ≤ width) :
    (decodeField bytes).toList.length ≤ width := by
  have hlist : (decodeField bytes).toList
      = (bytes.rdropWhile fun byte => byte == space || byte == 0).map toChar :=
    String.toList_ofList
  rw [hlist, List.length_map]
  exact Nat.le_trans (List.rdropWhile_prefix _ bytes).length_le hlength

/-- What arrives in a field crosses a field of that width unchanged. -/
theorem decodeField_idem {width : Nat} {bytes : Bytes} (hlength : bytes.length ≤ width) :
    decodeField (encodeField width (decodeField bytes)) = decodeField bytes := by
  let filler : UInt8 → Bool := fun byte => byte == space || byte == 0
  have hlist : (decodeField bytes).toList = (bytes.rdropWhile filler).map toChar :=
    String.toList_ofList
  apply decodeField_encodeField (length_decodeField hlength)
  · intro c hc
    rw [hlist] at hc
    obtain ⟨byte, -, rfl⟩ := List.mem_map.mp hc
    rw [toNat_toChar]
    exact UInt8.toNat_lt _
  · intro c hc
    rw [hlist, List.getLast?_map] at hc
    obtain ⟨byte, hbyte, rfl⟩ := Option.map_eq_some_iff.mp hc
    have hne : bytes.rdropWhile filler ≠ [] := by
      intro hnil
      rw [hnil] at hbyte
      cases hbyte
    rw [List.getLast?_eq_some_getLast hne] at hbyte
    cases hbyte
    have hlast := List.rdropWhile_last_not filler bytes hne
    rw [ofChar_toChar]
    simpa [filler] using hlast

end CodePage

namespace Sim

-- ================================================================= names

namespace DdTable

/-- No DD has a name that fits a field and is no DD name. -/
theorem Named.lookup_flawed {table : DdTable} {name : String} (h : table.Named)
    (hlength : name.toList.length ≤ 8) (hflaw : Name.ddnameFlaw? name ≠ none) :
    table.lookup name = none := by
  by_contra hfound
  have hcontains : table.entries.contains (Text.upper name) = true :=
    Option.isSome_iff_ne_none.mpr hfound
  rcases h _ hcontains with hflawless | ⟨n, -, hmade⟩
  · exact hflaw (Name.ddnameFlaw?_upper_iff.mp hflawless)
  · apply hflaw
    apply Name.ddnameFlaw?_upper_iff.mp
    rw [hmade]
    apply ddnameFlaw?_nameOf_iff.mpr
    rw [← length_nameOf_le_iff, ← hmade, Text.toList_upper, List.length_map]
    exact hlength

end DdTable

-- =========================================================== taking back

open DdTable (Entered)
open WorkArea (received refusedRc)
open Bindings (Postable)

section TakeBack

variable {link : Linkage SimHost} {capability : Capability}

/-- A free request that reaches the host is granted just where the name is
that of a DD, and that DD goes. -/
theorem requestFree_granted {ddname : String} (hrest : Resting link) (hfrees : Frees link)
    (hunmarked : ParmList.marked capability.cppl = false)
    (hfield : CodePage.decodeField (CodePage.encodeField 8 ddname) = ddname) :
    (Bindings.requestFree capability ddname).Ends link fun r t =>
      (∃ result, r = .ok result ∧ result.succeeded = (link.host.dds.lookup ddname).isSome)
        ∧ t.host.dds = link.host.dds.without ddname ∧ Resting t ∧ Frees t := by
  have hpostable : Postable capability link.storage.openFrame := ⟨hrest.room, hunmarked⟩
  have hfulfils : (Bindings.requestFree capability ddname : Op (Linkage SimHost) _).Fulfils restful
      id fun _ => True :=
    (Bindings.meets_requestFree served_restful .any (fun _ _ => trivial) capability ddname).fulfils
  have hkept : Resting (Bindings.requestFree capability ddname link).2 :=
    hrest.kept (conserved_of_restful hfulfils hrest)
  have hmoves : Linkage.Reach (fun _ => True) link (Bindings.requestFree capability ddname link).2 :=
    (Bindings.uses_requestFree trivial capability ddname link hrest.named).1
  obtain ⟨hhost, hanswer⟩ :=
    requestFree_frees hrest.named hrest.wellFormed hfield capability
  obtain ⟨result, hresult, hreads⟩ := hanswer hfrees.finds hpostable
  refine ⟨⟨result, hresult, ?_⟩, ?_, hkept, hfrees.reach hmoves⟩
  · unfold AllocationResult.succeeded
    rw [hreads.rc, hreads.reason]
    unfold Service.freeAnswer
    rw [hfrees.accepts]
    cases link.host.dds.lookup ddname with
    | none => rfl
    | some entry => rfl
  · rcases hhost with hfreed | ⟨-, hnot⟩
    · rw [hfreed, Service.freed_dds]
      rfl
    · exact absurd ⟨hfrees.finds, hfrees.accepts, hpostable⟩ hnot

/-- Taking back frees the first of the names that is that of a DD, and
nothing else. -/
theorem takeBack_frees (names : List String) (hrest : Resting link) (hfrees : Frees link)
    (hunmarked : ParmList.marked capability.cppl = false)
    (hfields : ∀ name ∈ names, CodePage.decodeField (CodePage.encodeField 8 name) = name) :
    (Bindings.takeBack capability names).Ends link fun r t => r = .ok ()
      ∧ t.host.dds = (names.find? fun name => (link.host.dds.lookup name).isSome).elim
        link.host.dds link.host.dds.without := by
  induction names generalizing link with
  | nil => exact ⟨rfl, rfl⟩
  | cons name rest ih =>
      obtain ⟨⟨result, hresult, hgranted⟩, hdds, hrest', hfrees'⟩ :=
        requestFree_granted hrest hfrees hunmarked (hfields name List.mem_cons_self)
      obtain ⟨after, hrun⟩ := Op.ends_of_fst hresult
      rw [hrun] at hdds hrest' hfrees'
      refine Op.Ends.bind_of_ok (Op.run_attempt_of_ok hrun) ?_
      rw [List.find?_cons]
      cases hlookup : link.host.dds.lookup name with
      | some entry =>
          rw [hlookup] at hgranted
          simp only [hgranted, Option.isSome_some, if_true]
          exact ⟨rfl, hdds⟩
      | none =>
          rw [hlookup] at hgranted
          simp only [hgranted, Option.isSome_none]
          -- the table is as it was, and the next name is tried
          have hsame := DdTable.without_absent hlookup
          have hnext := ih hrest' hfrees' fun other hother =>
            hfields other (List.mem_cons_of_mem _ hother)
          rw [hdds, hsame] at hnext
          exact hnext

/-- Where the name that was reported is none of a DD, the DD that was
entered under the name asked for is the one that goes. -/
theorem takeBack_undoes {table : DdTable} (requested : DdName) {assigned : String}
    (hrest : Resting link) (hfrees : Frees link)
    (hunmarked : ParmList.marked capability.cppl = false) (horderly : link.host.Orderly)
    (hentered : Entered requested.text table link.host.dds)
    (hfield : CodePage.decodeField (CodePage.encodeField 8 assigned) = assigned)
    (hlength : assigned.toList.length ≤ 8) (hflaw : Name.ddnameFlaw? assigned ≠ none) :
    (Bindings.takeBack capability (Bindings.takeBackNames requested assigned)).Ends link
      fun r t => r = .ok () ∧ t.host.dds = table := by
  have hunused : link.host.dds.lookup assigned = none :=
    horderly.named.lookup_flawed hlength hflaw
  have hdifferent : Text.sameLetters assigned requested.text = false := by
    by_contra hsame
    have hupper : Text.upper assigned = Text.upper requested.text := by
      simpa [Text.sameLetters] using hsame
    apply hflaw
    rw [← Name.ddnameFlaw?_upper_iff, hupper]
    exact Name.ddnameFlaw?_upper requested.flawless
  have hfields : ∀ name ∈ Bindings.takeBackNames requested assigned,
      CodePage.decodeField (CodePage.encodeField 8 name) = name := by
    intro name hname
    unfold Bindings.takeBackNames at hname
    rw [hdifferent, if_neg Bool.false_ne_true] at hname
    rcases List.mem_append.mp hname with hfirst | hsecond
    · split at hfirst
      · exact absurd hfirst List.not_mem_nil
      · rw [List.mem_singleton.mp hfirst]
        exact hfield
    · rw [List.mem_singleton.mp hsecond]
      exact requested.field
  have hfound : (Bindings.takeBackNames requested assigned).find?
      (fun name => (link.host.dds.lookup name).isSome) = some requested.text := by
    have hsecond : [requested.text].find? (fun name => (link.host.dds.lookup name).isSome)
        = some requested.text := List.find?_cons_of_pos hentered.lookup_self
    unfold Bindings.takeBackNames
    rw [hdifferent, if_neg Bool.false_ne_true]
    split
    · exact hsecond
    · rw [List.find?_append, hsecond, List.find?_singleton, hunused]
      rfl
  refine (takeBack_frees _ hrest hfrees hunmarked hfields).mono fun r t h => ⟨h.1, ?_⟩
  rw [h.2, hfound]
  exact hentered.undone

/-- Between rest and the host's answer nothing is lost. -/
theorem Reached.conserved {s asked middle t : Linkage SimHost × Bindings}
    {wanted : AllocationRequest} {requested : DdName}
    {outcome : Outcome Service.AllocationAnswer} {r : Outcome (DdName × AllocationResult)}
    (h : Reached capability wanted requested s asked middle outcome r t) (hrest : Resting s.1) :
    Conserved s.1 middle.1 ∧ Linkage.Reach (fun _ => True) s.1 middle.1 := by
  obtain ⟨entry, found, hfetch, hmodule, hmiddle⟩ := h.posted
  have hlooked : Linkage.Reach (fun _ => True) s.1 found :=
    ((Linkage.uses_fetch "TSODALC" s.1 hrest.named).ok hfetch).1
  have hfetched : Conserved s.1 found := by
    have hkept := conserved_of_restful (served_restful.fetch "TSODALC" (by simp)) hrest
    rwa [hfetch] at hkept
  have hrest' : Resting found := hrest.kept hfetched
  have hposted : Linkage.Posted entry
      (Bindings.requestAllocate entry capability requested wanted : Op (Linkage SimHost) _)
      (Bindings.requestAllocate entry capability requested wanted : Op (Linkage SimHost) _) :=
    Bindings.posted_allocate entry capability requested wanted
  have hasked := served_restful.allocate entry capability requested wanted hmodule trivial
  rw [← hmiddle]
  exact ⟨hfetched.trans (conserved_of_restful hasked hrest'),
    hlooked.trans (hposted.reach trivial found)⟩

end TakeBack

-- =============================================================== theorems

open Session

variable {host : SimHost} {settings : Settings} {s : Session SimHost} {text reported : String}
  {request : AllocationRequest}

/-- An answer that grants under a name that is none of a DD: the DD is
taken back, and the name reported as unusable. -/
theorem settle_unusable {capability : Capability} {requested : DdName} {result : AllocationResult}
    {middle : Linkage SimHost × Bindings} {taken : Linkage SimHost}
    (hreads : Reads result { ddname := some reported })
    (hflaw : Name.ddnameFlaw? (CodePage.decodeField (CodePage.encodeField 8 reported)) ≠ none)
    (htaken : Bindings.takeBack capability (Bindings.takeBackNames requested
      (CodePage.decodeField (CodePage.encodeField 8 reported))) middle.1 = (.ok (), taken)) :
    Bindings.settle capability requested result middle
      = (.error (.error (.unusableDdname requested.text
          (CodePage.decodeField (CodePage.encodeField 8 reported)) 0 0 0)), (taken, middle.2)) := by
  have hsucceeded : result.succeeded = true := by
    unfold AllocationResult.succeeded
    rw [hreads.rc, hreads.reason]
    rfl
  have hname : ∃ cause, DdName.ofString result.assignedName = .error cause := by
    rw [hreads.name reported rfl]
    cases hread : DdName.ofString (CodePage.decodeField (CodePage.encodeField 8 reported)) with
    | ok name => exact absurd (DdName.ofString_eq_ok_iff.mp hread).1 hflaw
    | error cause => exact ⟨cause, rfl⟩
  obtain ⟨cause, hname⟩ := hname
  unfold Bindings.settle
  simp only [hsucceeded, hname, Bool.not_true, Bool.false_eq_true, if_false]
  rw [hreads.name reported rfl, hreads.rc, hreads.reason, hreads.catalogRc]
  rw [Op.run_bind_of_ok (Op.run_onFirst htaken)]
  rfl

/-- What is settled of a DD that was entered under the name asked for and
reported under one that is none. -/
theorem settled_unusable {capability : Capability} {requested : DdName}
    {result : AllocationResult} {r : Outcome (DdName × AllocationResult)} {table : DdTable}
    {middle t : Linkage SimHost × Bindings} (hrest : Resting middle.1) (hfrees : Frees middle.1)
    (hunmarked : ParmList.marked capability.cppl = false) (horderly : middle.1.host.Orderly)
    (hentered : Entered requested.text table middle.1.host.dds)
    (hflaw : Name.ddnameFlaw? (CodePage.decodeField (CodePage.encodeField 8 reported)) ≠ none)
    (hreads : Reads result { ddname := some reported })
    (hsettled : Bindings.settle capability requested result middle = (r, t)) :
    r = .error (.error (.unusableDdname requested.text
        (CodePage.decodeField (CodePage.encodeField 8 reported)) 0 0 0))
      ∧ t.1.host.dds = table := by
  have hlength := (CodePage.length_encodeField 8 reported).le
  obtain ⟨htaken, hdds⟩ := takeBack_undoes requested hrest hfrees hunmarked horderly hentered
    (CodePage.decodeField_idem hlength) (CodePage.length_decodeField hlength) hflaw
  obtain ⟨taken, hrun⟩ := Op.ends_of_fst htaken
  rw [hrun] at hdds
  rw [settle_unusable hreads hflaw hrun] at hsettled
  cases hsettled
  exact ⟨rfl, hdds⟩

/-- How a request under `ddname` fails on a host that reports something of
which `arrived` arrives, and that is no DD name. -/
inductive Fails (host : SimHost) (request : AllocationRequest) (ddname arrived : String) :
    Outcome (DdName × AllocationResult) → Prop
  | missing (hmissing : Missing host request) :
      Fails host request ddname arrived
        (.error (.error (.allocationFailed ddname 12 0x1708 8 0)))
  | exhausted (hnone : request.dsname = none) (hlast : host.tempSeq.toNat + 1 = UInt32.size) :
      Fails host request ddname arrived trap
  | inUse (hthere : ¬Missing host request)
      (hnumbered : request.dsname = none → host.tempSeq.toNat + 1 < UInt32.size)
      (hused : (host.dds.lookup ddname).isSome = true) :
      Fails host request ddname arrived
        (.error (.error (.allocationFailed ddname 12 0x0410 0 0)))
  | unusable (hthere : ¬Missing host request)
      (hnumbered : request.dsname = none → host.tempSeq.toNat + 1 < UInt32.size)
      (hnew : host.dds.lookup ddname = none) :
      Fails host request ddname arrived
        (.error (.error (.unusableDdname ddname arrived 0 0 0)))

/-- Whatever the host performs of a request, the engine fails and leaves
the DD table as it was, if it does so where a DD was entered. -/
theorem PerformedAs.fails {capability : Capability} {requested : DdName} {arrived : String}
    {outcome : Outcome Service.AllocationAnswer}
    {start asked middle t : Linkage SimHost × Bindings} {r : Outcome (DdName × AllocationResult)}
    (h : PerformedAs host request requested.text reported outcome middle.1.host)
    (hreached : Reached capability request requested start asked middle outcome r t)
    (hundone : Entered requested.text host.dds middle.1.host.dds →
      ∀ result, Reads result { ddname := some reported } →
        Bindings.settle capability requested result middle = (r, t) →
        r = .error (.error (.unusableDdname requested.text arrived 0 0 0))
          ∧ t.1.host.dds = host.dds) :
    Fails host request requested.text arrived r ∧ t.1.host.dds = host.dds := by
  by_cases hmissing : Missing host request
  · obtain ⟨houtcome, hdds⟩ := h.missing hmissing
    obtain ⟨rfl, rfl⟩ := hreached.refused houtcome refused_rc
    exact ⟨.missing hmissing, hdds⟩
  by_cases hlast : request.dsname = none ∧ host.tempSeq.toNat + 1 = UInt32.size
  · obtain ⟨houtcome, hdds⟩ := h.exhausted hlast.1 hlast.2
    obtain ⟨rfl, rfl⟩ := hreached.trapped _ houtcome
    exact ⟨.exhausted hlast.1 hlast.2, hdds⟩
  have hnumbered : request.dsname = none → host.tempSeq.toNat + 1 < UInt32.size := by
    intro hnone
    have hle := host.tempSeq.toNat_lt_size
    have hne : host.tempSeq.toNat + 1 ≠ UInt32.size := fun heq => hlast ⟨hnone, heq⟩
    omega
  cases hlookup : host.dds.lookup requested.text with
  | some entry =>
      have hused : (host.dds.lookup requested.text).isSome = true := by rw [hlookup]; rfl
      obtain ⟨houtcome, hdds⟩ := h.inUse hmissing hnumbered hused
      obtain ⟨rfl, rfl⟩ := hreached.refused houtcome refused_rc
      exact ⟨.inUse hmissing hnumbered hused, hdds⟩
  | none =>
      obtain ⟨houtcome, dsname, hentered, -⟩ := h.bound hmissing hnumbered hlookup
      obtain ⟨result, hreads, hsettled⟩ := hreached.settled _ houtcome
      obtain ⟨rfl, hdds⟩ :=
        hundone ⟨requested.flawless, hlookup, _, requested.upper.symm, hentered⟩ result hreads
          hsettled
      exact ⟨.unusable hmissing hnumbered hlookup, hdds⟩

/-- The four ways exclude each other. -/
theorem Fails.tells {ddname arrived : String} {r : Outcome (DdName × AllocationResult)}
    (h : Fails host request ddname arrived r) :
    (∀ bound, r ≠ .ok bound)
      ∧ (Missing host request → r = .error (.error (.allocationFailed ddname 12 0x1708 8 0)))
      ∧ (request.dsname = none → host.tempSeq.toNat + 1 = UInt32.size → r = trap)
      ∧ (¬Missing host request →
        (request.dsname = none → host.tempSeq.toNat + 1 < UInt32.size) →
        ((host.dds.lookup ddname).isSome = true →
          r = .error (.error (.allocationFailed ddname 12 0x0410 0 0)))
        ∧ (host.dds.lookup ddname = none →
          r = .error (.error (.unusableDdname ddname arrived 0 0 0)))) := by
  have hsome : Missing host request → request.dsname ≠ none := by
    rintro ⟨dsname, hdsname, -⟩ hnone
    rw [hnone] at hdsname
    cases hdsname
  cases h with
  | missing hmissing =>
      exact ⟨nofun, fun _ => rfl, fun hnone => absurd hnone (hsome hmissing),
        fun hthere => absurd hmissing hthere⟩
  | exhausted hnone hlast =>
      refine ⟨nofun, fun hmissing => absurd hnone (hsome hmissing), fun _ _ => rfl,
        fun _ hnumbered => ?_⟩
      have := hnumbered hnone
      omega
  | inUse hthere hnumbered hused =>
      refine ⟨nofun, fun hmissing => absurd hmissing hthere, fun hnone hlast => ?_,
        fun _ _ => ⟨fun _ => rfl, fun hnew => ?_⟩⟩
      · have := hnumbered hnone
        omega
      · rw [hnew] at hused
        cases hused
  | unusable hthere hnumbered hnew =>
      refine ⟨nofun, fun hmissing => absurd hmissing hthere, fun hnone hlast => ?_,
        fun _ _ => ⟨fun hused => ?_, fun _ => rfl⟩⟩
      · have := hnumbered hnone
        omega
      · rw [hnew] at hused
        cases hused

/-- A host that reports something that is no DD name: no allocation comes
back with a name. What the host refuses fails with its codes, and what it
grants is taken back before the allocation fails; either way the live
names and the DD table are as they were. -/
theorem unusable_name_rolled_back (hmade : host.Made) (hs : Reachable Touched host settings s)
    (hreply : host.reply = .overwrite reported)
    (hflaw : Name.ddnameFlaw? (CodePage.decodeField (CodePage.encodeField 8 reported)) ≠ none)
    (hallocates : (host.modules.get? "TSODALC").isSome = true)
    (hfrees : (host.modules.get? "TSODFRE").isSome = true) (haccepts : host.freeFailure = none)
    (capability : Capability) (hcapability : capability.cppl.toNat < 0x80000000)
    (hparse : AllocationRequest.parse text = .ok request) :
    ∃ d : DdName, request.ddname.map Text.upper = some d.text
      ∧ (Bindings.allocate capability request).Ends (s.linkage, s.bindings) fun r t =>
        (∀ bound, r ≠ .ok bound) ∧ t.2.live = s.bindings.live ∧ t.1.host.dds = s.host.dds
        ∧ (Missing s.host request →
          r = .error (.error (.allocationFailed d.text 12 0x1708 8 0)))
        ∧ (request.dsname = none → s.host.tempSeq.toNat + 1 = UInt32.size → r = trap)
        ∧ (¬Missing s.host request →
          (request.dsname = none → s.host.tempSeq.toNat + 1 < UInt32.size) →
          ((s.host.dds.lookup d.text).isSome = true →
            r = .error (.error (.allocationFailed d.text 12 0x0410 0 0)))
          ∧ (s.host.dds.lookup d.text = none →
            r = .error (.error (.unusableDdname d.text
              (CodePage.decodeField (CodePage.encodeField 8 reported)) 0 0 0)))) := by
  obtain ⟨⟨given, hddname, hflawless⟩, -⟩ := AllocationRequest.parse_ok hparse
  obtain ⟨d, hgiven⟩ := DdName.ofString_of_no_flaw hflawless
  have hupper : Text.upper given = d.text := (DdName.ofString_eq_ok_iff.mp hgiven).2
  have hrest := reachable_resting hs
  have hunmarked : ParmList.marked capability.cppl = false := by
    rw [← Bool.not_eq_true, ParmList.marked_iff]
    omega
  have hreported : s.host.reply = .overwrite reported := by
    rw [← reachable_setup hs]
    exact hreply
  have hkeeps : s.host.reply ≠ .system := by
    rw [hreported]
    nofun
  have hfreeing := reachable_frees hs haccepts hfrees
  have hfinds := (reachable_offers hs (Linkage.upper_sought (by simp)) hallocates).finds
  have hasked := requestedName_given hddname hgiven (s.linkage, s.bindings)
  refine ⟨d, by rw [hddname, Option.map_some, hupper], ?_⟩
  -- whatever went wrong, the live names stay
  have hbinds := Bindings.allocate_binds capability request (s.linkage, s.bindings)
  refine ((allocate_settles (s := (s.linkage, s.bindings)) hrest.named hrest.wellFormed hasked
    capability).and hbinds).mono fun r t h => ?_
  rcases h with ⟨⟨-, -, -, hnot⟩ | ⟨outcome, middle, hreached⟩, hlive⟩
  · exact absurd ⟨hfinds, hrest.room, hunmarked⟩ hnot
  obtain ⟨hkept, hmoved⟩ := hreached.conserved hrest
  have hmeets := hreached.meets
  rw [datasetOf_parsed hparse] at hmeets
  have hperformed : PerformedAs s.host request d.text
      (Service.reportedName s.host.reply d.text) outcome middle.1.host :=
    hmeets.performedAs hkeeps d.flawless d.upper
  rw [hreported] at hperformed
  obtain ⟨hfails, hdds⟩ := hperformed.fails hreached
    fun hentered result hreads hsettled =>
      settled_unusable (hrest.kept hkept) (hfreeing.reach hmoved) hunmarked
        (hkept.orderly (reachable_orderly hs hmade.orderly)) hentered hflaw hreads hsettled
  obtain ⟨hunbound, hcases⟩ := hfails.tells
  refine ⟨hunbound, ?_, hdds, hcases⟩
  cases r with
  | ok bound => exact absurd rfl (hunbound bound)
  | error fault => exact hlive.2 fault rfl

/-- A host that reports the name of another DD with two marks behind. -/
theorem unusable_name_rolled_back_marked :
    let host := SimHost.build { reply := .overwrite "TSOOUT??" } noon
    let s := start host {}
    let request : AllocationRequest :=
      { ddname := some "WORK", dsname := some "NEW.DATA", status := .mod }
    host.Made ∧ host.reply = .overwrite "TSOOUT??" ∧ host.freeFailure = none
      ∧ AllocationRequest.parse "file(work) da('new.data') mod" = .ok request
      ∧ (Bindings.allocate ⟨0⟩ request).Ends (s.linkage, s.bindings) fun r t =>
        r = .error (.error (.unusableDdname "WORK" "TSOOUT??" 0 0 0))
          ∧ t.2.live = s.bindings.live ∧ t.1.host.dds = s.host.dds := by
  intro host s request
  have hmade : host.Made := .build _ noon
  have hparse : AllocationRequest.parse "file(work) da('new.data') mod" = .ok request := by
    decide +kernel
  have harrives : CodePage.decodeField (CodePage.encodeField 8 "TSOOUT??") = "TSOOUT??" := by
    decide +kernel
  have hflaw : Name.ddnameFlaw? (CodePage.decodeField (CodePage.encodeField 8 "TSOOUT??"))
      ≠ none := by
    decide +kernel
  have hpresent : (host.modules.get? "TSODALC").isSome = true
      ∧ (host.modules.get? "TSODFRE").isSome = true := by
    decide +kernel
  obtain ⟨d, hd, hends⟩ := unusable_name_rolled_back hmade
    (.refl : Reachable Touched host {} s) rfl hflaw hpresent.1 hpresent.2 rfl ⟨0⟩ (by decide) hparse
  obtain rfl : d = { text := "WORK" } := by
    have hupper : Text.upper "WORK" = "WORK" := by decide +kernel
    exact DdName.ext ((Option.some.inj hd).symm.trans hupper)
  refine ⟨hmade, rfl, rfl, hparse, hends.mono fun r t h => ?_⟩
  obtain ⟨-, hlive, hdds, -, -, hperforms⟩ := h
  have hthere : ¬Missing s.host request := by
    rintro ⟨_, _, _, h | h⟩
    · cases h
    · cases h
  have hfree : s.host.dds.lookup "WORK" = none := by decide +kernel
  have hr := (hperforms hthere fun hnone => by cases hnone).2 hfree
  rw [harrives] at hr
  exact ⟨hr, hlive, hdds⟩

/-- Where nothing is granted and nothing refused: in a session that has used
up the numbers of temporary datasets the allocation traps, and in storage
that somebody else has filled it has no room for the request. -/
theorem unusable_name_unreported :
    let host := SimHost.build { reply := .overwrite "TSOOUT??" } noon
    let request : AllocationRequest := { ddname := some "WORK", dsname := none, status := .new }
    host.Made ∧ AllocationRequest.parse "WORK" = .ok request
      ∧ Name.ddnameFlaw? (CodePage.decodeField (CodePage.encodeField 8 "TSOOUT??")) ≠ none
      ∧ (∃ s, Reachable Touched host {} s
        ∧ (Bindings.allocate ⟨0⟩ request (s.linkage, s.bindings)).1 = trap)
      ∧ ∃ full, Storage.obtain {} Storage.engineSubpool 0x7FFEFFF8 = .ok (0x10000, full)
        ∧ (Bindings.allocate ⟨0⟩ request ({ host, storage := full }, {})).1
          = .error (.error (.obtainFailed 256 .exhausted)) := by
  intro host request
  have hestablished : (Session.establish (start host {})).2.environment.state
      = .ready ⟨0x10040⟩ (.probed 0) := by
    decide +kernel
  have hrefusing : Refusing host {} { text := "TSOOUT" } (Session.establish (start host {})).2 :=
    .established hestablished (by decide) (by decide +kernel) (by decide +kernel)
      (by decide +kernel)
  obtain ⟨s, hs, -, hlast⟩ := hrefusing.exhausts
  refine ⟨.build _ noon, by decide +kernel, by decide +kernel, ⟨s, hs.reachable, ?_⟩, _, rfl, ?_⟩
  · exact allocate_spent hs.reachable hs.allocates (by decide : (0 : Address).toNat < 0x80000000)
      (DdName.ofString_text { text := "WORK" }) .new hlast
  · decide +kernel

end Sim
end TsoBridge
