/-
What the private dataset of a command does to the other datasets. A
temporary dataset is named after the time and a running number, in the
name space that scripts use too, and its name is not looked up before it
is cataloged. So it replaces a dataset that happens to have its name
(`private_dataset_collides`), and no other.

# One dataset

From the allocation to the free the DD of the command stands for its
temporary dataset, and that is cataloged under its own name (`Confined`).
What the engine does with the DD then changes this dataset alone: the
command's lines go to the DD that the call block names, and the free takes
out the dataset that the DD stands for. All else that happens in between
leaves table and catalog alone.
-/
import TsoBridge.Proofs.AllocationOutcome
import TsoBridge.Proofs.DirectCapture
import TsoBridge.Proofs.Sim.Agreement

namespace TsoBridge.Sim

-- ============================================================ the catalog

/-- Every dataset but one is as it was. -/
def Spares (dsname : String) (host after : SimHost) : Prop :=
  ∀ other, Text.upper other ≠ Text.upper dsname →
    after.catalog.get? other = host.catalog.get? other

/-- The DD stands for the dataset of that name, if for any, and the
dataset is cataloged under its own name. -/
structure Confined (ddname dsname : String) (host : SimHost) : Prop where
  stands : ∀ entry, host.dds.lookup ddname = some entry →
    Text.upper entry.dsname = Text.upper dsname
  called : ∀ dataset, host.catalog.get? dsname = some dataset →
    dataset.name = Text.upper dsname

/-- The DD still stands for its dataset, and no other has changed. -/
structure Kept (ddname dsname : String) (host after : SimHost) : Prop where
  confined : Confined ddname dsname after
  spares : Spares dsname host after

section Host

variable {host after last : SimHost} {ddname dsname : String}

/-- What is kept twice is kept. -/
theorem Kept.trans (h : Kept ddname dsname host after) (h' : Kept ddname dsname after last) :
    Kept ddname dsname host last :=
  ⟨h'.confined, fun other hother => (h'.spares other hother).trans (h.spares other hother)⟩

/-- What touches neither table nor catalog. -/
theorem Confined.same (h : Confined ddname dsname host) (hdds : after.dds = host.dds)
    (hcatalog : after.catalog = host.catalog) : Kept ddname dsname host after := by
  refine ⟨⟨?_, ?_⟩, fun _ _ => by rw [hcatalog]⟩
  · rw [hdds]
    exact h.stands
  · rw [hcatalog]
    exact h.called

/-- A line that is appended goes to the dataset. -/
theorem Confined.append {line : String} (h : Confined ddname dsname host)
    (happend : host.appendTo ddname line = .ok after) : Kept ddname dsname host after := by
  obtain ⟨dataset, hfound, hpushed⟩ := Outcome.bind_ok happend
  obtain ⟨longer, hlonger, hdefined⟩ := Outcome.bind_ok hpushed
  cases hdefined
  obtain ⟨entry, hlookup, hget⟩ : ∃ entry, host.dds.lookup ddname = some entry
      ∧ host.catalog.get? entry.dsname = some dataset := by
    cases hdataset : host.datasetOf ddname with
    | error cause =>
        rw [hdataset] at hfound
        cases hfound
    | ok found =>
        rw [hdataset] at hfound
        cases hfound
        exact datasetOf_ok hdataset
  have hname : longer.name = Text.upper dsname := by
    rw [Dataset.append_name hlonger]
    refine h.called dataset ?_
    unfold Catalog.get?
    rw [← h.stands entry hlookup]
    exact hget
  refine ⟨⟨h.stands, fun found hnow => ?_⟩, fun other hother => ?_⟩
  · rw [show ({ host with catalog := host.catalog.define longer } : SimHost).catalog
      = host.catalog.define longer from rfl, Catalog.get?_define _ hname] at hnow
    cases hnow
    exact hname
  · exact Catalog.get?_define_ne _ (by rw [hname]; exact hother)

/-- A free takes out the dataset the DD stands for, and no other. -/
theorem Confined.freed (h : Confined ddname dsname host) :
    Kept ddname dsname host (Service.freed host ddname) := by
  have hgone : ∀ entry, (Service.freed host ddname).dds.lookup ddname = some entry →
      Text.upper entry.dsname = Text.upper dsname := by
    intro entry hentry
    rw [Service.freed_dds] at hentry
    unfold DdTable.lookup DdTable.without DdTable.erase at hentry
    rw [Table.get?_erase_self] at hentry
    cases hentry
  rcases Service.freed_catalog host ddname with hsame | ⟨entry, hlookup, hremoved⟩
  · exact ⟨⟨hgone, by rw [hsame]; exact h.called⟩, fun _ _ => by rw [hsame]⟩
  · have hstands := h.stands entry hlookup
    refine ⟨⟨hgone, fun dataset hdataset => ?_⟩, fun other hother => ?_⟩
    · rw [hremoved, Catalog.get?_remove_self _ hstands.symm] at hdataset
      cases hdataset
    · rw [hremoved]
      exact Catalog.get?_remove_ne _ (by rw [hstands]; exact hother)

end Host

-- =========================================================== the services

section Service

variable {ddname dsname : String} {m : Machine SimHost}

/-- Lines for the DD go to its dataset. -/
theorem appendLines_kept (lines : List String) (h : Confined ddname dsname m.host) :
    (Service.appendLines ddname lines).Ends m fun _ t => Kept ddname dsname m.host t.host := by
  induction lines generalizing m with
  | nil => exact h.same rfl rfl
  | cons line rest ih =>
      have hline : (Machine.onHost (Op.update fun host => do
          return ((), ← host.appendTo ddname line)) : Op (Machine SimHost) Unit).Ends m
            fun _ t => Kept ddname dsname m.host t.host := by
        unfold Op.Ends Machine.onHost Op.on Op.update
        cases happend : m.host.appendTo ddname line with
        | ok after =>
            simp only [happend, bind, Except.bind, pure, Except.pure]
            exact h.append happend
        | error fault =>
            simp only [happend, bind, Except.bind]
            exact h.same rfl rfl
      refine hline.bind (fun _ t ht => ?_) fun _ _ ht => ht
      exact (ih ht.confined).mono fun _ u hu => ht.trans hu

/-- A command that prints to the DD changes its dataset only. -/
theorem perform_kept (p : Service.ExecuteParms) (command : String)
    (h : Confined ddname dsname m.host) :
    (Service.perform p ddname command).Ends m fun _ t => Kept ddname dsname m.host t.host := by
  have hrun : (Service.runCommand command).Ends m fun _ t => Kept ddname dsname m.host t.host :=
    h.same rfl rfl
  refine hrun.bind (fun result t ht => ?_) fun _ _ ht => ht
  have hsend : (Service.sendOutput ddname result.output).Ends t fun _ u =>
      Kept ddname dsname t.host u.host := by
    unfold Service.sendOutput
    split
    · exact ht.confined.same rfl rfl
    · exact appendLines_kept _ ht.confined
  refine hsend.bind (fun _ u hu => ?_) fun _ _ hu => ht.trans hu
  have hleave : (Service.leave p (if result.rc = 0 then ServiceRc.ok else ServiceRc.commandRc)
      result.rc 0).Ends u fun _ v => Scope.nothing.Holds u v :=
    (Service.serves_leave Scope.nothing.admits_write p _ _ _).holds u
  exact hleave.mono fun _ v hv => (ht.trans hu).trans (hu.confined.same (by rw [← hv.1]; rfl)
    (by rw [← hv.1]; rfl))

/-- A branch to an execute service writes to the DD that its block
names. -/
theorem branch_kept {link : Linkage SimHost} {entry : EntryPoint} {route : Route}
    {block : CallBlock} {cppl base r1 : Address} {name : DdName}
    (hentry : entry.module = route.module)
    (hsent : CallBlock.Sent link.storage block cppl base r1)
    (houtput : block.output = some name.text) (h : Confined name.text dsname link.host) :
    Kept name.text dsname link.host (Linkage.branch entry r1 link).2.host := by
  let m := counted link.toMachine route.module
  have hcounted : Kept name.text dsname link.host m.host := h.same rfl rfl
  have hservice : (Service.execute (decide (route = .authorizedProcessor)) r1).Ends m fun _ t =>
      Kept name.text dsname m.host t.host := by
    have hconfined := hcounted.confined
    refine (Service.execute_decided _ r1 m).mono fun r t hdecided => ?_
    rcases hdecided with ⟨hrefused, -⟩ | ⟨p, output, command, haccepted, hperform⟩
    · exact hconfined.same (by rw [← hrefused.1]; rfl) (by rw [← hrefused.1]; rfl)
    · obtain rfl : output = name.text := haccepted.output_of_sent hsent houtput name.field
      have hkept := perform_kept p command hconfined
      rwa [Op.Ends, hperform] at hkept
  have hmachine := branch_machine entry r1 link
  rw [hentry, service_route] at hmachine
  show Kept name.text dsname link.host (Linkage.branch entry r1 link).2.toMachine.host
  rw [hmachine]
  exact hcounted.trans hservice

end Service

-- ============================================================= the engine

/-- The DD is confined, and its requests are read as they are written. -/
structure Guarded (ddname dsname : String) (link : Linkage SimHost) : Prop where
  named : link.Named
  wellFormed : link.storage.WellFormed
  confined : Confined ddname dsname link.host

/-- A DD that is confined stays so, and other datasets stay as they are. -/
def Guards {σ : Type} (part : σ → Linkage SimHost) (ddname dsname : String) (s t : σ) : Prop :=
  Guarded ddname dsname (part s) →
    Guarded ddname dsname (part t) ∧ Spares dsname (part s).host (part t).host

section Engine

variable {σ α : Type} {part : σ → Linkage SimHost} {branches : String → Prop}
  {link after : Linkage SimHost} {ddname dsname : String} {capability : Capability}

instance : IsPreorder σ (Guards part ddname dsname) where
  refl _ h := ⟨h, fun _ _ => rfl⟩
  trans _ _ _ h h' hs := by
    obtain ⟨ht, hspares⟩ := h hs
    obtain ⟨hu, hspares'⟩ := h' ht
    exact ⟨hu, fun other hother => (hspares' other hother).trans (hspares other hother)⟩

/-- What keeps the dataset keeps it guarded. -/
theorem Guarded.reach (h : Guarded ddname dsname link) (hreach : Linkage.Reach branches link after)
    (hkept : Kept ddname dsname link.host after.host) :
    Guarded ddname dsname after ∧ Spares dsname link.host after.host :=
  ⟨⟨hreach.named h.named, reach_wellFormed hreach h.wellFormed, hkept.confined⟩, hkept.spares⟩

/-- Looking for modules and preparing a command touches no dataset. -/
theorem guards_of_uses {value : α → Prop} {x : Op σ α}
    (h : x.Uses part (· ∈ Invocation.prepareModules) value) :
    x.Within (Guards part ddname dsname) := by
  intro s hs
  have hreach : Linkage.Reach (· ∈ Invocation.prepareModules) (part s) (part (x s).2) :=
    (h s hs.named).1
  have hunseen := reach_unseen hreach
  exact hs.reach hreach (hs.confined.same (by rw [← hunseen]; rfl) (by rw [← hunseen]; rfl))

/-- Such an operation in front of another, which may rely on its value. -/
theorem guards_andThen {β : Type} {value : α → Prop} {x : Op σ α} {f : α → Op σ β}
    (hx : x.Uses part (· ∈ Invocation.prepareModules) value)
    (hf : ∀ a, value a → (f a).Within (Guards part ddname dsname)) :
    (x >>= f).Within (Guards part ddname dsname) := by
  intro s hs
  have hfirst : x.Ends s fun r t => (∀ a, r = .ok a → value a)
      ∧ Guarded ddname dsname (part t) ∧ Spares dsname (part s).host (part t).host :=
    ⟨(hx s hs.named).2, guards_of_uses hx s hs⟩
  show (x >>= f).Ends s fun _ u =>
    Guarded ddname dsname (part u) ∧ Spares dsname (part s).host (part u).host
  refine hfirst.bind (fun a t ht => ?_) fun _ _ ht => ht.2
  obtain ⟨hvalue, hguarded, hspares⟩ := ht
  obtain ⟨hguarded', hspares'⟩ := hf a (hvalue a rfl) t hguarded
  exact ⟨hguarded', fun other hother => (hspares' other hother).trans (hspares other hother)⟩

/-- What is beside the linkage does not matter. -/
theorem guards_onFirst {τ : Type} {x : Op (Linkage SimHost) α}
    (h : x.Within (Guards id ddname dsname)) :
    (Op.onFirst x : Op (Linkage SimHost × τ) α).Within (Guards Prod.fst ddname dsname) :=
  h.on fun _ _ hx => hx

/-- Moves of any kind guard the DD by what they leave of the host. -/
theorem guards_of_kept {x : Op (Linkage SimHost) α}
    (huses : x.Uses id (fun _ => True) fun _ => True)
    (h : ∀ link, Guarded ddname dsname link →
      x.Ends link fun _ t => Kept ddname dsname link.host t.host) :
    x.Within (Guards id ddname dsname) := by
  intro link hlink
  have hreach : Linkage.Reach (fun _ => True) link (x link).2 := (huses link hlink.named).1
  exact hlink.reach hreach (h link hlink)

/-- A call block that names the DD. -/
theorem guards_sendBlock {entry : EntryPoint} {route : Route} {block : CallBlock}
    {name : DdName} (hentry : entry.module = route.module)
    (houtput : block.output = some name.text) :
    (Invocation.sendBlock entry capability block).Within (Guards id name.text dsname) := by
  have hreach : (Invocation.sendBlock entry capability block : Op (Linkage SimHost) _).Within
      (Linkage.Reach fun _ => True) :=
    (Invocation.posted_sendBlock entry capability block).reach trivial
  refine guards_of_kept hreach.uses fun link hlink => ?_
  refine (Invocation.sendBlock_branch entry capability block hlink.wellFormed).mono
    fun r t h => ?_
  rcases h with ⟨hsame, -⟩ | ⟨storage, base, r1, hsent, hhost, -⟩
  · rw [hsame]
    exact hlink.confined.same rfl rfl
  · have hconfined : Confined name.text dsname ({ link with storage } : Linkage SimHost).host :=
      hlink.confined
    have hkept := branch_kept hentry hsent houtput hconfined
    rw [hhost]
    exact hkept

/-- A command that is executed for the DD. -/
theorem guards_callExecute {invocation : Invocation} {name : DdName}
    (houtput : invocation.output = some name) :
    (Invocation.callExecute capability invocation).Within (Guards id name.text dsname) := by
  refine (Op.within_lift_except _).bind fun token => ?_
  refine guards_andThen (Linkage.uses_fetch_named (Linkage.upper_sought (Route.module_sought _)))
    fun entry hentry => ?_
  refine (Op.within_lift_except _).bind fun bare => ?_
  refine (guards_sendBlock hentry (by rw [houtput]; rfl)).bind fun answer => ?_
  exact Op.within_lift_except _

/-- A command that is captured through the DD. -/
theorem guards_captured {route : Route} (text : String) (name : DdName) :
    (Session.captured capability route text name : Op (Linkage SimHost) _).Within
      (Guards id name.text dsname) := by
  have hrun : (Invocation.run capability route text (some name) :
      Op (Linkage SimHost) CommandReport).Within (Guards id name.text dsname) := by
    rw [Invocation.run_eq]
    refine guards_andThen (Op.uses_lift_value _) fun invocation hmake => ?_
    obtain ⟨rfl, -, -⟩ := Invocation.make_ok hmake
    refine (guards_of_uses (Invocation.uses_obtainToken (fun _ h => h) route)).bind fun token => ?_
    exact guards_callExecute rfl
  refine hrun.bind fun report => ?_
  exact (guards_of_uses (Output.uses_readLines name.text)).bind fun _ => Op.within_pure _

-- =============================================================== the free

/-- A request to free the DD takes its dataset out. -/
theorem guards_requestFree (name : DdName) :
    (Bindings.requestFree capability name.text).Within (Guards id name.text dsname) := by
  refine guards_of_kept (Bindings.uses_requestFree trivial capability name.text) fun link hlink => ?_
  have hcounted : Kept name.text dsname link.host (link.host.count "TSODFRE") :=
    hlink.confined.same rfl rfl
  refine (requestFree_frees hlink.named hlink.wellFormed name.field capability).mono fun r t h => ?_
  rcases h.1 with hfreed | ⟨hsame | hsame, -⟩
  · rw [hfreed]
    exact hcounted.trans hcounted.confined.freed
  · rw [hsame]
    exact hlink.confined.same rfl rfl
  · rw [hsame]
    exact hcounted

/-- So does its release. -/
theorem guards_release (name : DdName) :
    (Bindings.release capability name).Within (Guards Prod.fst name.text dsname) := by
  have hfree : (Bindings.free capability name).Within (Guards Prod.fst name.text dsname) := by
    refine (Op.within_gets _).bind fun live => ?_
    split
    · exact Op.within_fail _
    · refine (guards_onFirst (guards_of_uses (Linkage.uses_fetch _))).bind fun _ => ?_
      refine (guards_of_uses (Op.uses_onSecond _)).bind fun _ => ?_
      refine (guards_onFirst (guards_requestFree name)).bind fun result => ?_
      split
      · exact Op.within_pure _
      · exact Op.within_fail _
  refine hfree.attempt.bind fun result => ?_
  split
  · exact Op.within_pure _
  · exact Op.within_pure _

end Engine

-- ======================================================== the allocation

open Service (temporaryNameOf temporaryDataset)

/-- The name is that of the next temporary dataset. -/
def NamesNext (host : SimHost) (dsname : String) : Prop :=
  ∃ number, Word.successor host.tempSeq = .ok number
    ∧ Text.upper dsname = Text.upper (temporaryNameOf host.clock.now number)

/-- There is one such name. -/
theorem NamesNext.same {host : SimHost} {dsname other : String} (h : NamesNext host dsname)
    (h' : NamesNext host other) : Text.upper dsname = Text.upper other := by
  obtain ⟨number, hnext, hname⟩ := h
  obtain ⟨number', hnext', hname'⟩ := h'
  rw [hnext] at hnext'
  cases hnext'
  rw [hname, hname']

/-- A temporary dataset is cataloged for a DD. -/
structure Temporary (host : SimHost) (ddname dsname : String) (after : SimHost) : Prop where
  next : NamesNext host dsname
  entry : ∃ entry, after.dds.lookup ddname = some entry ∧ entry.dsname = Text.upper dsname
  catalog : after.catalog = host.catalog.define (temporaryDataset dsname)

section Allocation

variable {host after : SimHost} {ddname module : String} {status : DatasetStatus}
  {outcome : Outcome Service.AllocationAnswer}

/-- A request for a temporary dataset: it is refused and the catalog left
alone, or the dataset is cataloged. -/
theorem Service.Meets.temporary (h : Meets (host.count module) ddname none status outcome after)
    (hreply : host.reply = .requested) (hupper : Text.upper ddname = ddname) :
    (∀ answer, outcome = .ok answer → answer.rc ≠ 0) ∧ after.catalog = host.catalog
      ∨ outcome = .ok { ddname := some ddname } ∧ ∃ dsname, Temporary host ddname dsname after := by
  have hsupplied : ∀ {name : String} {supplied : SimHost},
      Supplied (host.count module) status none name supplied →
      NamesNext host name ∧ supplied.catalog = host.catalog := by
    intro name supplied hname
    cases hname with
    | temporary hnext => exact ⟨⟨_, hnext, rfl⟩, rfl⟩
  cases h with
  | missing hname => cases hname
  | exhausted => exact .inl ⟨(fun _ h => by cases h), rfl⟩
  | flawed h => exact .inl ⟨fun _ h => by cases h; decide, (hsupplied h).2⟩
  | inUse h => exact .inl ⟨fun _ h => by cases h; decide, (hsupplied h).2⟩
  | @bound name supplied h _ _ =>
      obtain ⟨hnext, hcatalog⟩ := hsupplied h
      refine .inr ⟨?_, Text.upper name, ?_, ?_, ?_⟩
      · rw [show (host.count module).reply = .requested from hreply, hupper]
        rfl
      · unfold NamesNext
        rw [Text.upper_upper]
        exact hnext
      · exact ⟨_, Table.get?_insert_self _ _ _, (Text.upper_upper name).symm⟩
      · exact congrArg (Catalog.define · _) hcatalog
  | madeUp _ hsystem _ =>
      rw [show (host.count module).reply = .requested from hreply] at hsystem
      cases hsystem

/-- An allocation of a temporary dataset: it fails and leaves the catalog
alone, or the dataset is cataloged for the DD it returns. -/
theorem allocate_temporary {s : Linkage SimHost × Bindings} (hnamed : s.1.Named)
    (hwf : s.1.storage.WellFormed) (hreply : s.1.host.reply = .requested)
    (capability : Capability) {wanted : AllocationRequest} (hdsname : wanted.dsname = none) :
    (Bindings.allocate capability wanted).Ends s fun r t =>
      (∃ fault, r = .error fault) ∧ t.1.host.catalog = s.1.host.catalog
        ∨ ∃ name result dsname, r = .ok (name, result)
          ∧ Temporary s.1.host name.text dsname t.1.host := by
  have hname := requestedName_ends wanted s
  rcases hasked : Bindings.requestedName wanted s with ⟨fault | requested, asked⟩
  · unfold Op.Ends Bindings.allocate
    rw [Op.run_bind_of_fault hasked]
    exact .inl ⟨⟨fault, rfl⟩, by rw [(hname.fault hasked).1]⟩
  refine (allocate_settles hnamed hwf hasked capability).mono fun r t h => ?_
  rcases h with ⟨hfault, -, hhost, -⟩ | ⟨outcome, middle, hreached⟩
  · exact .inl ⟨hfault, by rw [hhost]⟩
  have hmeets := hreached.meets
  rw [hdsname] at hmeets
  rcases hmeets.temporary hreply requested.upper with
    ⟨hrefused, hcatalog⟩ | ⟨rfl, dsname, htemporary⟩
  · refine .inl ?_
    cases outcome with
    | error fault =>
        obtain ⟨rfl, rfl⟩ := hreached.trapped fault rfl
        exact ⟨⟨_, rfl⟩, hcatalog⟩
    | ok answer =>
        obtain ⟨rfl, rfl⟩ := hreached.refused rfl (hrefused answer rfl)
        exact ⟨⟨_, rfl⟩, hcatalog⟩
  · obtain ⟨result, hreads, hsettled⟩ := hreached.settled _ rfl
    rw [settle_named hreads] at hsettled
    cases hsettled
    exact .inr ⟨requested, result, dsname, rfl, htemporary⟩

end Allocation

-- =========================================================== the command

/-- Every dataset but the next temporary one is as it was. -/
def Undisturbed (host after : SimHost) : Prop :=
  ∀ dsname, ¬NamesNext host dsname → after.catalog.get? dsname = host.catalog.get? dsname

section Command

variable {α : Type} {host middle after : SimHost} {ddname dsname : String}

/-- Where the catalog is the same, nothing is disturbed. -/
theorem undisturbed_of_catalog (h : after.catalog = host.catalog) : Undisturbed host after :=
  fun _ _ => by rw [h]

/-- Nor is it by what spares all but a new temporary dataset. -/
theorem Undisturbed.trans_spares (h : Undisturbed host middle) (h' : Spares dsname middle after)
    (hnext : NamesNext host dsname) : Undisturbed host after := by
  intro other hother
  refine (h' other fun hsame => hother ?_).trans (h other hother)
  unfold NamesNext
  rw [hsame]
  exact hnext

/-- Steps in front that leave catalog, number and clock alone. -/
theorem Undisturbed.of_still (h : Undisturbed middle after) (hcatalog : middle.catalog = host.catalog)
    (hnumber : middle.tempSeq = host.tempSeq) (hclock : middle.clock = host.clock) :
    Undisturbed host after := by
  unfold Undisturbed NamesNext at *
  rw [hcatalog, hnumber, hclock] at h
  exact h

/-- The DD of a new temporary dataset. -/
theorem Temporary.kept (h : Temporary host ddname dsname after) :
    Kept ddname dsname host after := by
  obtain ⟨entry, hlookup, hentry⟩ := h.entry
  have hname : (Service.temporaryDataset dsname).name = Text.upper dsname := rfl
  refine ⟨⟨fun found hfound => ?_, fun dataset hdataset => ?_⟩, fun other hother => ?_⟩
  · rw [hlookup] at hfound
    cases hfound
    rw [hentry, Text.upper_upper]
  · rw [h.catalog, Catalog.get?_define _ hname] at hdataset
    cases hdataset
    exact hname
  · rw [h.catalog]
    exact Catalog.get?_define_ne _ (by rw [hname]; exact hother)

/-- Work with a private DD that disturbs only its dataset. -/
theorem withBinding_undisturbed {s : Linkage SimHost × Bindings} (hs : Ready s.1)
    {work : DdName → Op (Linkage SimHost) α}
    (hwork : ∀ (name : DdName) dsname, (work name).Within (Guards id name.text dsname))
    (capability : Capability) :
    (Bindings.withBinding capability none work).Ends s fun _ t =>
      Undisturbed s.1.host t.1.host := by
  have huses : (Bindings.allocate capability (.temporary none) :
      Op (Linkage SimHost × Bindings) _).Uses Prod.fst (fun _ => True) fun _ => True :=
    Bindings.uses_allocate trivial trivial capability _
  have hnone : (AllocationRequest.temporary none).dsname = none := rfl
  have hallocate := (allocate_temporary hs.named hs.wellFormed hs.reply capability hnone).and
    (huses s hs.named)
  refine hallocate.bind (fun bound t ht => ?_) fun _ t ht => ?_
  · obtain ⟨⟨⟨_, hr⟩, -⟩ | ⟨name, result, dsname, hr, htemporary⟩, hreach, -⟩ := ht
    · cases hr
    cases hr
    -- from here to the free the DD stands for the new dataset alone
    have hready : Ready t.1 := hs.reach hreach
    have hkept := htemporary.kept
    have hrest : (do
        let result ← (Op.onFirst (work name)).attempt
        let cleanup ← Bindings.release capability name
        return ({ result, cleanup } : Bindings.Released α) :
          Op (Linkage SimHost × Bindings) _).Within (Guards Prod.fst name.text dsname) :=
      (guards_onFirst (hwork name dsname)).attempt.bind fun _ =>
        (guards_release name).bind fun _ => Op.within_pure _
    obtain ⟨-, hspares⟩ := hrest t ⟨hready.named, hready.wellFormed, hkept.confined⟩
    have hbefore : Undisturbed s.1.host t.1.host :=
      (undisturbed_of_catalog rfl).trans_spares hkept.spares htemporary.next
    exact hbefore.trans_spares hspares htemporary.next
  · obtain ⟨⟨-, hcatalog⟩ | ⟨_, _, _, hr, -⟩, -⟩ := ht
    · exact undisturbed_of_catalog hcatalog
    · cases hr

open Session

/-- A command that runs with a private DD. -/
theorem runDirect_undisturbed {s : Session SimHost} (hs : Ready s.linkage)
    (capability : Capability) (route : Route) (text : String) :
    (runDirect capability route text).Ends s fun _ t => Undisturbed s.host t.host := by
  have hresolve : (onLinkage (Invocation.resolve route) : Op (Session SimHost) _).Ends s
      fun _ t => Linkage.Reach (· ∈ Invocation.prepareModules) s.linkage t.linkage :=
    (uses_onLinkage (Invocation.uses_resolve route) s hs.named).1
  refine hresolve.bind (fun entries t ht => ?_) fun _ t ht => ?_
  · have hunseen : Scope.unseen.keep s.host t.host = t.host := reach_unseen ht
    have hwith : (Bindings.withBinding capability none (captured capability route text)).Ends
        (t.linkage, t.bindings) fun _ p => Undisturbed t.host p.1.host :=
      withBinding_undisturbed (s := (t.linkage, t.bindings)) (hs.reach ht)
        (fun name dsname => guards_captured text name) capability
    have hbinding : (onBindings (Bindings.withBinding capability none
        (captured capability route text))).Ends t fun _ u => Undisturbed s.host u.host := by
      refine Op.Ends.on hwith fun r p hp => ?_
      exact hp.of_still (by rw [← hunseen]; rfl) (by rw [← hunseen]; rfl) (by rw [← hunseen]; rfl)
    refine hbinding.bind (fun released u hu => ?_) fun _ _ hu => hu
    rcases released with ⟨cause | ⟨name, report⟩, cleanup⟩
    · exact hu
    · exact hu
  · have hunseen : Scope.unseen.keep s.host t.host = t.host := reach_unseen ht
    exact undisturbed_of_catalog (by rw [← hunseen]; rfl)

/-- A command that is captured directly. -/
theorem run_undisturbed {s : Session SimHost} {options : CommandOptions} (hs : Ready s.linkage)
    (hcapture : options.capture.getD s.settings.captureDefault = true)
    (hmode : options.mode.getD s.settings.captureMode = .direct) (text : String) :
    (run text options).Ends s fun _ t => Undisturbed s.host t.host := by
  have hnothing : Undisturbed s.host s.host := undisturbed_of_catalog rfl
  refine Op.ends_gets_bind ?_
  by_cases hempty : Text.trim text = ""
  · rw [if_pos hempty]
    exact hnothing
  rw [if_neg hempty]
  by_cases hdenied : (!s.settings.policy.permits (Command.verb (Text.trim text))) = true
  · rw [if_pos hdenied]
    exact hnothing
  rw [if_neg hdenied]
  -- finding out about the environment moves neither clock nor number
  have hestablish : (establish : Op (Session SimHost) Capability).Ends s fun _ t =>
      Linkage.Reach (· = "IKJTSOEV") s.linkage t.linkage ∧ t.settings = s.settings :=
    ⟨(probes_establish s hs.named).1, sameSettings_establish s⟩
  refine hestablish.bind (fun capability t ht => ?_) fun _ t ht => ?_
  · obtain ⟨hreach, hsettings⟩ := ht
    have hprobing : Scope.probing.keep s.host t.host = t.host := reach_probing hreach
    have hby : (runBy capability (routeOf options) (Text.trim text) options).Ends t fun _ u =>
        Undisturbed s.host u.host := by
      refine Op.ends_gets_bind ?_
      rw [hsettings, hcapture, hmode]
      refine (runDirect_undisturbed (hs.reach hreach) capability _ (Text.trim text)).mono
        fun r u hu => ?_
      exact hu.of_still (by rw [← hprobing]; rfl) (by rw [← hprobing]; rfl)
        (by rw [← hprobing]; rfl)
    exact hby.bind (fun _ _ hu => hu) fun _ _ hu => hu
  · have hprobing : Scope.probing.keep s.host t.host = t.host := reach_probing ht.1
    exact undisturbed_of_catalog (by rw [← hprobing]; rfl)

end Command

-- =============================================================== theorems

section Session

open Session

variable {host : SimHost} {settings : Settings} {s : Session SimHost}

/-- What private datasets do to the others, on a host that allocates under
the name asked for. An allocation of a temporary dataset that fails leaves
the catalog alone; one that succeeds puts an empty dataset under the next
temporary name, whatever was there, and leaves every other name alone. And
a command that is captured directly, however it ends, leaves every dataset
as it was but one of that name. -/
theorem private_dataset_spares (hs : Reachable Touched host settings s)
    (hreply : host.reply = .requested) :
    (∀ (capability : Capability) (wanted : AllocationRequest), wanted.dsname = none →
      (Bindings.allocate capability wanted).Ends (s.linkage, s.bindings) fun r t =>
        (∀ fault, r = .error fault → t.1.host.catalog = s.host.catalog)
        ∧ Undisturbed s.host t.1.host
        ∧ ∀ bound, r = .ok bound → ∀ dsname, NamesNext s.host dsname →
          t.1.host.catalog.get? dsname = some (temporaryDataset dsname))
      ∧ ∀ (text : String) (options : CommandOptions),
        options.capture.getD settings.captureDefault = true →
        options.mode.getD settings.captureMode = .direct →
        Undisturbed s.host (run text options s).2.host := by
  have hready : Ready s.linkage := by
    refine ⟨Reachable.named hs, reachable_wellFormed hs, ?_⟩
    show s.host.reply = .requested
    rw [← reachable_setup hs]
    exact hreply
  refine ⟨fun capability wanted hdsname => ?_, fun text options hcapture hmode => ?_⟩
  · refine (allocate_temporary (s := (s.linkage, s.bindings)) hready.named hready.wellFormed
      hready.reply capability hdsname).mono fun r t h => ?_
    rcases h with ⟨⟨fault, rfl⟩, hcatalog⟩ | ⟨name, result, dsname, rfl, htemporary⟩
    · exact ⟨fun _ _ => hcatalog, undisturbed_of_catalog hcatalog, fun _ h => by cases h⟩
    · refine ⟨(fun _ h => by cases h), ?_, fun _ _ other hother => ?_⟩
      · exact (undisturbed_of_catalog rfl).trans_spares htemporary.kept.spares htemporary.next
      · have hsame : temporaryDataset other = temporaryDataset dsname := by
          unfold temporaryDataset Dataset.sequential
          rw [hother.same htemporary.next]
        rw [htemporary.catalog, hsame]
        exact Catalog.get?_define _ (hother.same htemporary.next).symm
  · rw [← Reachable.settings hs] at hcapture hmode
    exact run_undisturbed hready hcapture hmode text

/-- A dataset that is there, and a command captured beside it. -/
theorem private_dataset_spares_data :
    let s := start (SimHost.build { datasets := [("MY.DATA", ["MINE"])] } noon) {}
    let options : CommandOptions := { capture := some true, mode := some .direct }
    Reachable Touched s.host {} s ∧ s.host.catalog.contains "MY.DATA" = true
      ∧ (run "SEND 'A'" options s).2.host.catalog.get? "MY.DATA"
        = s.host.catalog.get? "MY.DATA" := by
  intro s options
  have hs : Reachable Touched s.host {} s := .refl
  have hother : ¬NamesNext s.host "MY.DATA" := by
    rintro ⟨number, hnext, hname⟩
    cases hnext
    exact absurd hname (by decide +kernel)
  have hspares := (private_dataset_spares hs rfl).2 "SEND 'A'" options rfl rfl
  exact ⟨hs, by decide +kernel, hspares "MY.DATA" hother⟩

/-- A dataset that is there under the next temporary name, and gone after
the command. -/
theorem private_dataset_collides :
    let taken := "SYS26002.T120000.RA000.LUZ00001"
    let s := start (SimHost.build { datasets := [(taken, ["MINE"])] } noon) {}
    let options : CommandOptions := { capture := some true, mode := some .direct }
    Reachable Touched s.host {} s ∧ s.host.reply = .requested ∧ s.host.freeFailure = none
      ∧ s.host.catalog.contains taken = true
      ∧ (run "SEND 'A'" options s).2.host.catalog.contains taken = false := by
  refine ⟨.refl, ?_⟩
  decide +kernel

end Session

end TsoBridge.Sim
