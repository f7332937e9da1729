/-
What the services of the simulated host do, deed by deed. A service writes
to storage, obtains a block of it, or makes one of ten changes to the host
(`Change`); `Does` says which deeds are those of a module. Whatever the
services are to keep, then, a part of the host, an invariant, the lines on
the terminal, has to be kept by single deeds only.

Each routine is read once, for any deeds its own are among (`Serves`). The
same reading tells that it never looks at whether frees are refused.
`refusing` sets this and nothing else: a routine that asks for the host
goes on the same with either one (`serves_theHost`), which holds by
computation, and what it changes lies elsewhere. The free service alone
looks there.
-/
import TsoBridge.Proofs.Image
import TsoBridge.Proofs.Linkage
import TsoBridge.Sim.Host

namespace TsoBridge.Sim

variable {α β : Type}

/-- The host, told to refuse every free for a reason, or to refuse
none. -/
def refusing (failure : Option UInt16) (host : SimHost) : SimHost :=
  { host with freeFailure := failure }

-- ================================================================= deeds

/-- The kinds of things a service does. -/
inductive Deed where
  /-- To obtain a block of storage. -/
  | obtain
  /-- To write to storage. -/
  | write
  /-- To count a question about the environment, or to remember the command
  processor list. -/
  | probe
  /-- To enter a DD or to take one out, to name or to make its dataset. -/
  | allocate
  /-- To hand out a token. -/
  | issue
  /-- To run a command. -/
  | run
  /-- To print on the terminal. -/
  | print
  /-- To append to a dataset. -/
  | append
deriving DecidableEq

/-- What deeds change of the host. -/
inductive Change : Deed → SimHost → SimHost → Prop where
  | probed (host : SimHost) : Change .probe host { host with probeCount := host.probeCount + 1 }
  | listed (host : SimHost) (cppl : Address) : Change .probe host { host with cppl := some cppl }
  | numbered (host : SimHost) (number : UInt32) :
      Change .allocate host { host with tempSeq := number, clock := host.clock.tick }
  | defined (host : SimHost) (dsname : String) :
      Change .allocate host
        { host with catalog := host.catalog.define (Dataset.sequential dsname 80) }
  | entered {host : SimHost} {asked : Option String} {name dsname : String}
      {status : DatasetStatus} {temporary : Bool} {dds : DdTable}
      (h : host.dds.allocate asked dsname status temporary = .ok (.ok (name, dds))) :
      Change .allocate host
        { host with
          dds
          catalog :=
            if temporary then host.catalog.define (Service.temporaryDataset dsname)
            else host.catalog }
  | removed {host : SimHost} {name : String} {entry : DdEntry} {dds : DdTable}
      (h : host.dds.unallocate name = .ok (entry, dds)) :
      Change .allocate host
        { host with
          dds
          catalog := if entry.temporary then host.catalog.remove entry.dsname else host.catalog }
  | issued (host : SimHost) (token : Bytes) (number : UInt32) :
      Change .issue host { host with nextToken := number, tokens := token :: host.tokens }
  | ran (host : SimHost) (text : String) : Change .run host (host.execute text).2
  | printed (host : SimHost) (lines : List (MessageLevel × String)) :
      Change .print host { host with terminal := host.terminal ++ lines }
  | appended {host : SimHost} {ddname line : String} {catalog : Catalog}
      (h : host.appendTo ddname line = .ok { host with catalog }) :
      Change .append host { host with catalog }

/-- A deed that is among `deeds`. -/
inductive Deed.Step (deeds : Deed → Prop) (m : Machine SimHost) : Machine SimHost → Prop where
  | obtain {subpool : UInt8} {length : Nat} {address : Address} {after : Storage}
      (hdeed : deeds .obtain) (h : m.storage.obtain subpool length = .ok (address, after)) :
      Deed.Step deeds m { m with storage := after }
  | write {address : Address} {data : Bytes} {after : Storage} (hdeed : deeds .write)
      (h : m.storage.write address data = .ok after) : Deed.Step deeds m { m with storage := after }
  | change {deed : Deed} {after : SimHost} (hdeed : deeds deed) (h : Change deed m.host after) :
      Deed.Step deeds m { m with host := after }

/-- Any number of such deeds. -/
def Acts (deeds : Deed → Prop) : Machine SimHost → Machine SimHost → Prop :=
  Relation.ReflTransGen (Deed.Step deeds)

variable {deeds : Deed → Prop} {m t : Machine SimHost}

instance : IsPreorder (Machine SimHost) (Acts deeds) :=
  inferInstanceAs (IsPreorder _ (Relation.ReflTransGen (Deed.Step deeds)))

/-- One deed is a number of deeds. -/
theorem Deed.Step.acts (h : Deed.Step deeds m t) : Acts deeds m t :=
  Relation.ReflTransGen.single h

/-- What is among some deeds is among more of them. -/
theorem Acts.mono {more : Deed → Prop} (h : Acts deeds m t) (hmore : ∀ deed, deeds deed → more deed) :
    Acts more m t := by
  refine Relation.ReflTransGen.mono (fun _ _ hact => ?_) _ _ h
  cases hact with
  | obtain hdeed h => exact .obtain (hmore _ hdeed) h
  | write hdeed h => exact .write (hmore _ hdeed) h
  | change hdeed h => exact .change (hmore _ hdeed) h

/-- What every change keeps of the host, any number of deeds keep. -/
theorem Acts.carries {P : SimHost → Prop} (h : Acts deeds m t)
    (hchange : ∀ deed host after, deeds deed → Change deed host after → P host → P after)
    (hstart : P m.host) : P t.host := by
  induction h with
  | refl => exact hstart
  | tail _ hact ih =>
      cases hact with
      | obtain => exact ih
      | write => exact ih
      | change hdeed h => exact hchange _ _ _ hdeed h ih

/-- What no change changes, no number of deeds changes. -/
theorem Acts.keeps (field : SimHost → β) (h : Acts deeds m t)
    (hchange : ∀ deed host after, deeds deed → Change deed host after → field after = field host) :
    field t.host = field m.host :=
  h.carries (P := fun host => field host = field m.host)
    (fun _ _ _ hdeed h hstart => (hchange _ _ _ hdeed h).trans hstart) rfl

/-- What obtaining and writing keep of storage, any number of deeds keep. -/
theorem Acts.carries_storage {P : Storage → Prop} (h : Acts deeds m t)
    (hobtain : deeds .obtain → ∀ storage subpool length address after,
      storage.obtain subpool length = .ok (address, after) → P storage → P after)
    (hwrite : deeds .write → ∀ storage address data after,
      storage.write address data = .ok after → P storage → P after)
    (hstart : P m.storage) : P t.storage := by
  induction h with
  | refl => exact hstart
  | tail _ hact ih =>
      cases hact with
      | obtain hdeed h => exact hobtain hdeed _ _ _ _ _ h ih
      | write hdeed h => exact hwrite hdeed _ _ _ _ h ih
      | change => exact ih

/-- Storage evolves, whatever the deeds. -/
theorem Acts.evolves (h : Acts deeds m t) : Storage.Evolves m.storage t.storage :=
  h.carries_storage (P := Storage.Evolves m.storage) (fun _ _ _ _ _ _ h hstart =>
    hstart.tail (.obtain h)) (fun _ _ _ _ _ h hstart => hstart.tail (.write h)) .refl

-- ============================================================== routines

/-- A routine that does no other deeds, and does the same whether or not
frees are refused. -/
structure Serves (deeds : Deed → Prop) (x : Op (Machine SimHost) α) : Prop where
  acts : x.Within (Acts deeds)
  blind : ∀ failure m, Op.Matches (Machine.mapHost (refusing failure)) x x m

namespace Service

/-- A value needs no deed. -/
theorem serves_pure (a : α) : Serves deeds (pure a) :=
  ⟨Op.within_pure a, fun _ _ => rfl⟩

/-- A failure needs no deed either. -/
theorem serves_fail (cause : Error) : Serves deeds (Op.fail cause : Op (Machine SimHost) α) :=
  ⟨Op.within_fail cause, fun _ _ => rfl⟩

/-- A computation needs no machine. -/
theorem serves_lift (result : Outcome α) :
    Serves deeds (liftM result : Op (Machine SimHost) α) :=
  ⟨Op.within_lift result, fun _ _ => rfl⟩

end Service

/-- A sequence does what its parts do. -/
theorem Serves.bind {x : Op (Machine SimHost) α} {f : α → Op (Machine SimHost) β}
    (hx : Serves deeds x) (hf : ∀ a, Serves deeds (f a)) : Serves deeds (x >>= f) where
  acts := hx.acts.bind fun a => (hf a).acts
  blind failure m := (hx.blind failure m).bind fun a t _ => (hf a).blind failure t

/-- An attempt does what is attempted. -/
theorem Serves.attempt {x : Op (Machine SimHost) α} (h : Serves deeds x) :
    Serves deeds x.attempt where
  acts := h.acts.attempt
  blind failure m := (h.blind failure m).attempt

namespace Service

-- ============================================================ primitives

/-- A look at storage. -/
theorem serves_examine (f : Storage → Outcome α) :
    Serves deeds (Op.examine fun m : Machine SimHost => f m.storage) :=
  ⟨Op.within_examine _, fun _ _ => rfl⟩

/-- Work on storage all of whose steps are deeds. -/
theorem serves_update {f : Storage → Outcome (α × Storage)}
    (h : ∀ (m : Machine SimHost) a after, f m.storage = .ok (a, after) →
      Deed.Step deeds m { m with storage := after }) :
    Serves deeds (Machine.onStorage (Op.update f) : Op (Machine SimHost) α) := by
  refine ⟨fun m => ?_, fun _ _ => rfl⟩
  show Acts deeds m (Machine.onStorage (Op.update f) m).2
  unfold Machine.onStorage Op.on Op.update
  cases hf : f m.storage with
  | ok pair => exact (h m _ _ hf).acts
  | error fault => exact refl_of (Acts deeds) m

/-- Obtaining storage is a deed, with the host left as it is. -/
theorem serves_obtain (hobtain : deeds .obtain) (subpool : UInt8) (length : Nat) :
    Serves deeds (Machine.obtain subpool length) :=
  serves_update fun _ _ _ h => .obtain hobtain h

/-- Writing is a deed as well. -/
theorem serves_write (hwrite : deeds .write) (address : Address) (data : Bytes) :
    Serves deeds (Machine.write address data) := by
  refine serves_update fun m a after h => ?_
  obtain ⟨written, hwritten, h⟩ := Outcome.bind_ok h
  cases h
  exact .write hwrite hwritten

/-- A fullword is written byte by byte like any data. -/
theorem serves_writeFull (hwrite : deeds .write) (address : Address) (value : UInt32) :
    Serves deeds (Machine.writeFull address value) :=
  serves_write hwrite address _

/-- So is a signed one. -/
theorem serves_writeSigned (hwrite : deeds .write) (address : Address) (value : Int32) :
    Serves deeds (Machine.writeSigned address value) :=
  serves_write hwrite address _

/-- Reading is no deed, and neither are the reads below. -/
theorem serves_read (address : Address) (length : Nat) :
    Serves deeds (Machine.read address length) :=
  ⟨Op.within_examine _, fun _ _ => rfl⟩

theorem serves_readFull (address : Address) : Serves deeds (Machine.readFull address) :=
  ⟨Op.within_examine _, fun _ _ => rfl⟩

theorem serves_readHalf (address : Address) : Serves deeds (Machine.readHalf address) :=
  ⟨Op.within_examine _, fun _ _ => rfl⟩

/-- The parameters are read from the list, and nothing else is done. -/
theorem serves_parms (count : Nat) (r1 : Address) : Serves deeds (parms count r1) :=
  serves_examine fun storage => ParmList.decodeExact storage r1 count

/-- The list of the services that take five parameters. -/
theorem serves_fiveParms (r1 : Address) : Serves deeds (fiveParms r1) :=
  (serves_parms 5 r1).bind fun _ => serves_pure _

/-- What is done with the host at hand goes by other fields of it. -/
theorem matches_theHost {failure : Option UInt16} {f : SimHost → Op (Machine SimHost) β}
    (h : Op.Matches (Machine.mapHost (refusing failure)) (f m.host) (f m.host) m)
    (hfield : f (refusing failure m.host) = f m.host) :
    Op.Matches (Machine.mapHost (refusing failure)) (theHost >>= f) (theHost >>= f) m := by
  show f (refusing failure m.host) _ = _
  rw [hfield]
  exact h

/-- So does what is done with any host. -/
theorem serves_theHost {f : SimHost → Op (Machine SimHost) β} (h : ∀ host, Serves deeds (f host))
    (hfield : ∀ failure host, f (refusing failure host) = f host) :
    Serves deeds (theHost >>= f) where
  acts := (Op.within_gets _).bind fun host => (h host).acts
  blind failure m := matches_theHost ((h m.host).blind failure m) (hfield failure m.host)

/-- A change of the host that commutes with the setting. -/
theorem serves_modifyHost {f : SimHost → SimHost} {deed : Deed} (hdeed : deeds deed)
    (h : ∀ host, Change deed host (f host))
    (hblind : ∀ failure host, f (refusing failure host) = refusing failure (f host)) :
    Serves deeds (modifyHost f) := by
  refine ⟨fun m => (Deed.Step.change hdeed (h m.host)).acts, fun failure m => ?_⟩
  show (_, ({ host := f (refusing failure m.host), storage := m.storage } : Machine SimHost)) = _
  rw [hblind]
  rfl

-- ======================================================= the environment

section Environment

variable (hobtain : deeds .obtain) (hwrite : deeds .write) (hprobe : deeds .probe)
include hobtain hwrite

/-- The areas of the command processor list are obtained one by one. -/
theorem serves_fillCppl (cppl : Address) (index : Nat) (lengths : List Nat) :
    Serves deeds (fillCppl cppl index lengths) := by
  induction lengths generalizing index with
  | nil => exact serves_pure _
  | cons length rest ih =>
      refine (serves_obtain hobtain _ length).bind fun area => ?_
      refine (serves_lift _).bind fun target => ?_
      exact (serves_writeFull hwrite target area).bind fun _ => ih (index + 1)

include hprobe

/-- The list is built once and remembered in the host. -/
theorem serves_ensureCppl : Serves deeds ensureCppl := by
  refine serves_theHost (fun host => ?_) fun _ _ => rfl
  split
  · exact serves_pure _
  · refine (serves_obtain hobtain _ _).bind fun cppl => ?_
    refine (serves_fillCppl hobtain hwrite cppl 0 _).bind fun _ => ?_
    refine Serves.bind ?_ fun _ => serves_pure _
    exact serves_modifyHost hprobe (fun host => .listed host cppl) fun _ _ => rfl

/-- A list is built for a caller who is welcome, and for no other. -/
theorem serves_offeredCppl (rc : Int32) : Serves deeds (offeredCppl rc) := by
  unfold offeredCppl
  split
  · exact serves_ensureCppl hobtain hwrite hprobe
  · exact serves_pure _

/-- The environment service counts the question and answers it. -/
theorem serves_environment (r1 : Address) : Serves deeds (environment r1) := by
  refine (serves_fiveParms r1).bind fun p => ?_
  refine (serves_modifyHost hprobe .probed fun _ _ => rfl).bind fun _ => ?_
  refine serves_theHost (fun host => ?_) fun _ _ => rfl
  refine (serves_offeredCppl hobtain hwrite hprobe _).bind fun cppl => ?_
  refine (serves_writeSigned hwrite _ _).bind fun _ => ?_
  refine (serves_writeFull hwrite _ _).bind fun _ => ?_
  refine (serves_writeFull hwrite _ _).bind fun _ => ?_
  exact (serves_writeFull hwrite _ cppl).bind fun _ => serves_pure _

end Environment

-- ============================================================ allocating

/-- The caller's areas are looked at only. -/
theorem serves_callerAreas (cppl : Address) : Serves deeds (callerAreas cppl) := by
  refine (serves_read cppl _).attempt.bind fun found => ?_
  split
  · split
    · exact serves_pure _
    · refine (serves_lift _).bind fun _ => (serves_readFull _).bind fun upt => ?_
      refine (serves_lift _).bind fun _ => (serves_readFull _).bind fun pscb => ?_
      refine (serves_lift _).bind fun _ => (serves_readFull _).bind fun ect => ?_
      exact serves_pure _
  · exact serves_pure _

/-- The dataset name of the request is read only. -/
theorem serves_requestedDsname (pointer : Address) : Serves deeds (requestedDsname pointer) := by
  unfold requestedDsname
  split
  · exact serves_pure _
  · refine (serves_readHalf pointer).bind fun length => ?_
    refine (serves_lift _).bind fun _ => (serves_read _ _).bind fun _ => ?_
    exact serves_pure _

section Answering

variable (hwrite : deeds .write)
include hwrite

/-- What an allocation service does before it looks at the request: it
checks the areas and fills its own words in. -/
theorem serves_receive (r1 : Address) (offset : Nat) : Serves deeds (receive r1 offset) := by
  refine (serves_fiveParms r1).bind fun p => ?_
  refine (serves_read _ _).bind fun _ => ?_
  refine (serves_callerAreas _).bind fun areas => ?_
  refine (serves_lift _).bind fun list => (serves_lift _).bind fun block => ?_
  refine (serves_lift _).bind fun _ => (serves_writeFull hwrite _ _).bind fun _ => ?_
  refine (serves_lift _).bind fun _ => (serves_writeFull hwrite _ _).bind fun _ => ?_
  refine (serves_lift _).bind fun _ => (serves_lift _).bind fun _ => ?_
  refine (serves_writeFull hwrite _ _).bind fun _ => ?_
  refine (serves_lift _).bind fun _ => (serves_writeFull hwrite _ _).bind fun _ => ?_
  refine (serves_lift _).bind fun _ => (serves_writeFull hwrite _ _).bind fun _ => ?_
  exact (serves_read _ _).bind fun _ => serves_pure _

/-- The name that was assigned is written where the caller wants it. -/
theorem serves_leaveName (call : AllocationCall) (ddname : Option String) :
    Serves deeds (leaveName call ddname) := by
  cases ddname with
  | some ddname => exact (serves_lift _).bind fun _ => serves_write hwrite _ _
  | none => exact serves_pure _

/-- An answer is written into the area of the request. -/
theorem serves_finish (call : AllocationCall) (answer : AllocationAnswer) :
    Serves deeds (finish call answer) := by
  refine (serves_lift _).bind fun _ => (serves_write hwrite _ _).bind fun _ => ?_
  refine (serves_lift _).bind fun _ => (serves_write hwrite _ _).bind fun _ => ?_
  refine (serves_lift _).bind fun _ => (serves_write hwrite _ _).bind fun _ => ?_
  refine (serves_leaveName hwrite call answer.ddname).bind fun _ => ?_
  refine (serves_lift _).bind fun _ => (serves_writeSigned hwrite _ _).bind fun _ => ?_
  refine (serves_lift _).bind fun _ => (serves_writeFull hwrite _ _).bind fun _ => ?_
  refine (serves_writeSigned hwrite _ _).bind fun _ => ?_
  exact (serves_writeFull hwrite _ _).bind fun _ => serves_pure _

end Answering

section Allocating

variable (hallocate : deeds .allocate)
include hallocate

/-- A temporary name takes the next number. -/
theorem serves_temporaryName : Serves deeds temporaryName := by
  refine serves_theHost (fun host => ?_) fun _ _ => rfl
  refine (serves_lift _).bind fun number => ?_
  refine Serves.bind ?_ fun _ => serves_pure _
  exact serves_modifyHost hallocate (fun host => .numbered host number) fun _ _ => rfl

/-- A new dataset is cataloged, and an old one looked up. -/
theorem serves_ensureDataset (dsname : String) (status : DatasetStatus) :
    Serves deeds (ensureDataset dsname status) := by
  refine serves_theHost (fun host => ?_) fun _ _ => rfl
  split
  · exact serves_pure _
  · split
    · refine Serves.bind ?_ fun _ => serves_pure _
      exact serves_modifyHost hallocate (fun host => .defined host dsname) fun _ _ => rfl
    · exact serves_pure _

/-- A DD is entered in the table of the host at hand, or the table is left
alone. -/
theorem serves_bind (call : AllocationCall) (dsname : String) (status : DatasetStatus)
    (temporary : Bool) : Serves deeds (Service.bind call dsname status temporary) := by
  constructor
  · refine fun m => Op.ends_gets_bind ?_
    refine Op.ends_lift_bind (fun _ => refl_of (Acts deeds) m) fun found hfound => ?_
    split
    · exact refl_of (Acts deeds) m
    · exact (Deed.Step.change hallocate (.entered hfound)).acts
  · refine fun failure m => matches_theHost ?_ rfl
    refine Op.Matches.bind rfl fun found t _ => ?_
    split
    · rfl
    · rfl

/-- An allocation of one status touches catalog, number and table. -/
theorem serves_allocateAs (call : AllocationCall) (status : DatasetStatus) :
    Serves deeds (allocateAs call status) := by
  refine (serves_lift _).bind fun _ => (serves_readFull _).bind fun pointer => ?_
  refine (serves_requestedDsname pointer).bind fun dsname => ?_
  split
  · refine (serves_temporaryName hallocate).bind fun name => ?_
    exact serves_bind hallocate call name status true
  · refine (serves_ensureDataset hallocate _ status).bind fun found => ?_
    split
    · exact serves_bind hallocate call _ status false
    · exact serves_pure _

/-- A DD is taken out of the table of the host at hand, with its dataset if
that was temporary. -/
theorem acts_unbind (call : AllocationCall) : (unbind call).Within (Acts deeds) := by
  refine fun m => Op.ends_gets_bind ?_
  split
  · exact refl_of (Acts deeds) m
  · next hremoved => exact (Deed.Step.change hallocate (.removed hremoved)).acts

variable (hwrite : deeds .write)
include hwrite

/-- The allocation service refuses what makes no sense, and allocates the
rest. -/
theorem serves_allocate (r1 : Address) : Serves deeds (allocate r1) := by
  refine (serves_receive hwrite r1 _).bind fun call => ?_
  refine (serves_lift _).bind fun _ => (serves_readHalf _).bind fun code => ?_
  split
  · exact serves_finish hwrite call _
  · refine (serves_lift _).bind fun _ => (serves_read _ _).bind fun flag => ?_
    split
    · exact serves_finish hwrite call _
    · refine (serves_allocateAs hallocate call _).bind fun answer => ?_
      exact serves_finish hwrite call answer

/-- The free service frees, or refuses: whether it does, is up to the
setting. -/
theorem acts_free (r1 : Address) : (free r1).Within (Acts deeds) := by
  refine (serves_receive hwrite r1 _).acts.bind fun call => ?_
  have hfinish : ∀ answer, (finish call answer).Within (Acts deeds) :=
    fun answer => (serves_finish hwrite call answer).acts
  refine (Op.within_lift _).bind fun _ => (Op.within_examine _).bind fun code => ?_
  split
  · exact hfinish _
  · refine (Op.within_gets _).bind fun host => ?_
    split
    · exact hfinish _
    · exact (acts_unbind hallocate call).bind hfinish

end Allocating

-- ======================================================= running commands

/-- Appending a line goes by the catalog and the DD table. -/
theorem appendTo_refusing (failure : Option UInt16) (host : SimHost) (ddname line : String) :
    (refusing failure host).appendTo ddname line
      = (host.appendTo ddname line).map (refusing failure) := by
  have hdataset : (refusing failure host).datasetOf ddname = host.datasetOf ddname := rfl
  unfold SimHost.appendTo
  rw [hdataset]
  cases host.datasetOf ddname with
  | error cause => rfl
  | ok dataset =>
      show ((dataset.append line) >>= _) = ((dataset.append line) >>= _).map _
      cases dataset.append line with
      | error fault => rfl
      | ok longer => rfl

section Output

variable (happend : deeds .append)
include happend

/-- Lines for a DD go to the dataset it stands for, one after the other. -/
theorem serves_appendLines (ddname : String) (lines : List String) :
    Serves deeds (appendLines ddname lines) := by
  induction lines with
  | nil => exact serves_pure _
  | cons line rest ih =>
      refine Serves.bind ⟨fun m => ?_, fun failure m => ?_⟩ fun _ => ih
      · show Acts deeds m (Machine.onHost (Op.update _) m).2
        unfold Machine.onHost Op.on
        cases happendTo : m.host.appendTo ddname line with
        | error fault =>
            rw [Op.update_of_fault (by rw [happendTo]; rfl)]
            exact refl_of (Acts deeds) m
        | ok after =>
            rw [Op.update_of_ok (by rw [happendTo]; rfl)]
            -- only the catalog is another
            obtain ⟨dataset, _, hrest⟩ := Outcome.bind_ok happendTo
            obtain ⟨longer, _, hrest⟩ := Outcome.bind_ok hrest
            cases hrest
            exact (Deed.Step.change happend (.appended happendTo)).acts
      · unfold Op.Matches Machine.onHost Op.on Op.update
        simp only [Machine.mapHost, appendTo_refusing]
        cases m.host.appendTo ddname line with
        | error fault => rfl
        | ok after => rfl

variable (hprint : deeds .print)
include hprint

/-- Output goes to the terminal or to a DD. -/
theorem serves_sendOutput (ddname : String) (lines : List String) :
    Serves deeds (sendOutput ddname lines) := by
  unfold sendOutput
  split
  · exact serves_modifyHost hprint (fun host => .printed host _) fun _ _ => rfl
  · exact serves_appendLines happend ddname lines

end Output

/-- A command that is run sees a view of the host without the setting. -/
theorem serves_runCommand (hrun : deeds .run) (text : String) : Serves deeds (runCommand text) :=
  ⟨fun m => (Deed.Step.change hrun (.ran m.host text)).acts, fun _ _ => rfl⟩

/-- The same for an exec, unless the command has to run authorized. -/
theorem serves_runForExec (hrun : deeds .run) (command : String) :
    Serves deeds (runForExec command) := by
  refine serves_theHost (fun host => ?_) fun _ _ => rfl
  split
  · exact serves_pure _
  · exact serves_runCommand hrun command

section Writing

variable (hwrite : deeds .write)
include hwrite

/-- The prepare service leaves a token and its codes in the caller's words. -/
theorem serves_prepared (tokenAt rcAt abendAt reasonAt : Address) (token : Bytes) (rc : Int32)
    (reason : UInt32) :
    Serves deeds (do
      Machine.write tokenAt token
      Machine.writeSigned rcAt rc
      Machine.writeFull abendAt 0
      Machine.writeFull reasonAt reason
      return rc) := by
  refine (serves_write hwrite _ _).bind fun _ => (serves_writeSigned hwrite _ _).bind fun _ => ?_
  refine (serves_writeFull hwrite _ _).bind fun _ => ?_
  exact (serves_writeFull hwrite _ _).bind fun _ => serves_pure _

/-- It issues the token and remembers it, unless it is to fail. -/
theorem serves_prepare (hissue : deeds .issue) (r1 : Address) : Serves deeds (prepare r1) := by
  refine (serves_parms 6 r1).bind fun p => ?_
  refine serves_theHost (fun host => ?_) fun _ _ => rfl
  split
  · exact serves_prepared hwrite _ _ _ _ _ _ _
  · refine (serves_lift _).bind fun number => ?_
    refine Serves.bind ?_ fun _ => serves_prepared hwrite _ _ _ _ _ 0 0
    exact serves_modifyHost hissue (fun host => .issued host _ number) fun _ _ => rfl

/-- An execute service leaves its codes in the caller's words. -/
theorem serves_leave (p : ExecuteParms) (r15 rc : Int32) (reason : UInt32) :
    Serves deeds (leave p r15 rc reason) := by
  refine (serves_writeSigned hwrite _ _).bind fun _ => ?_
  refine (serves_writeFull hwrite _ _).bind fun _ => ?_
  exact (serves_writeFull hwrite _ _).bind fun _ => serves_pure _

/-- The result of an exec is written into its evaluation block. -/
theorem serves_leaveResult (pointer : Address) (rc : Int32) :
    Serves deeds (leaveResult pointer rc) := by
  refine serves_theHost (fun host => ?_) fun _ _ => rfl
  refine (serves_readFull pointer).bind fun block => ?_
  refine (serves_lift _).bind fun _ => (serves_writeSigned hwrite _ _).bind fun _ => ?_
  exact (serves_lift _).bind fun _ => serves_write hwrite _ _

/-- An exec that is refused leaves a return code and no more. -/
theorem serves_refuseExec (p : Vector Address ExecArea.parmCount) :
    Serves deeds (refuseExec p) :=
  (serves_writeSigned hwrite _ _).bind fun _ => serves_pure _

variable (hprint : deeds .print) (happend : deeds .append)
include hprint happend

/-- After its command ran, an exec sends the output on and leaves its
result. -/
theorem serves_told (p : Vector Address ExecArea.parmCount) (ddname : String)
    (result : CommandResult) :
    Serves deeds (do
      let known := ((← theHost).dds.lookup ddname).isSome
      sendOutput (if known then ddname else "") result.output
      leaveResult p[5] result.rc
      Machine.writeSigned p[9] 0
      return (0 : Int32)) := by
  refine serves_theHost (fun host => ?_) fun _ _ => rfl
  refine (serves_sendOutput happend hprint _ _).bind fun _ => ?_
  refine (serves_leaveResult hwrite _ _).bind fun _ => ?_
  exact (serves_writeSigned hwrite _ _).bind fun _ => serves_pure _

variable (hrun : deeds .run)
include hrun

/-- A command that is accepted runs, prints, and leaves its codes. -/
theorem serves_perform (p : ExecuteParms) (output command : String) :
    Serves deeds (perform p output command) := by
  refine (serves_runCommand hrun command).bind fun result => ?_
  refine (serves_sendOutput happend hprint output result.output).bind fun _ => ?_
  exact serves_leave hwrite p _ _ _

/-- Whether it is accepted is a matter of its name, its flags and its output
DD. -/
theorem serves_runText (viaProcessor : Bool) (p : ExecuteParms) (flags : CallFlags)
    (text : String) : Serves deeds (runText viaProcessor p flags text) := by
  refine Serves.bind ⟨Op.within_examine _, fun _ _ => rfl⟩ fun output => ?_
  split
  · exact serves_leave hwrite p _ _ _
  · refine serves_theHost (fun host => ?_) fun _ _ => rfl
    split
    · exact serves_leave hwrite p _ _ _
    · split
      · exact serves_leave hwrite p _ _ _
      · exact serves_perform hwrite hprint happend hrun p output _

/-- The execute services check marker and token, and go on with the text. -/
theorem serves_execute (viaProcessor : Bool) (r1 : Address) :
    Serves deeds (execute viaProcessor r1) := by
  refine (serves_examine fun storage => ParmList.decode storage r1).bind fun words => ?_
  refine (serves_lift _).bind fun p => (serves_read _ _).bind fun flags => ?_
  simp only
  split
  · exact serves_leave hwrite p _ _ _
  · refine (serves_readFull _).bind fun length => ?_
    split
    · exact serves_leave hwrite p _ _ _
    · refine (serves_read _ _).bind fun text => (serves_read _ _).bind fun token => ?_
      refine serves_theHost (fun host => ?_) fun _ _ => rfl
      split
      · exact serves_runText hwrite hprint happend hrun viaProcessor p _ _
      · exact serves_leave hwrite p _ _ _

/-- An exec that is taken on runs, prints and leaves its result. -/
theorem serves_performExec (p : Vector Address ExecArea.parmCount) (command ddname : String) :
    Serves deeds (performExec p command ddname) :=
  (serves_runForExec hrun command).bind fun result =>
    serves_told hwrite hprint happend p ddname result

/-- Whether it is taken on depends on its arguments. -/
theorem serves_runExec (p : Vector Address ExecArea.parmCount) : Serves deeds (runExec p) := by
  refine (serves_readFull _).bind fun table => ?_
  refine (serves_examine fun storage => readArguments storage table).bind fun arguments => ?_
  split
  · split
    · exact serves_performExec hwrite hprint happend hrun p _ _
    · exact serves_refuseExec hwrite p
  · exact serves_refuseExec hwrite p

/-- The interpreter goes by the name of the exec and by its arguments. -/
theorem serves_interpret (r1 : Address) : Serves deeds (interpret r1) := by
  refine (serves_parms _ r1).bind fun p => ?_
  refine (serves_readFull _).bind fun pointer => (serves_read pointer _).bind fun block => ?_
  refine serves_theHost (fun host => ?_) fun _ _ => rfl
  split
  · split
    · exact serves_runExec hwrite hprint happend hrun p
    · exact serves_refuseExec hwrite p
  · exact serves_refuseExec hwrite p

end Writing
end Service

-- =============================================================== modules

/-- The services, module by module, with their return codes for wrong
parameters. -/
theorem service_each
    {motive : String → (Address → Op (Machine SimHost) Int32) × Int32 → Prop}
    (environment : motive "IKJTSOEV" (Service.environment, 16))
    (allocate : motive "TSODALC" (Service.allocate, 16))
    (free : motive "TSODFRE" (Service.free, 16))
    (prepare : ∀ module ∈ Invocation.prepareModules, motive module (Service.prepare, 20))
    (standard : motive "IKJEFTSR" (Service.execute false, 20))
    (authorized : motive "TSOEFTR" (Service.execute true, 20))
    (exec : motive "IRXEXEC" (Service.interpret, 20))
    (unknown : ∀ module, motive module (fun _ => Op.fail (.serviceUnavailable module), 16))
    (module : String) : motive module (SimHost.service module) := by
  unfold SimHost.service
  split
  · next h => exact h ▸ environment
  split
  · next h => exact h ▸ allocate
  split
  · next h => exact h ▸ free
  split
  · next h =>
    apply prepare module
    simpa [Invocation.prepareModules] using h
  split
  · next h => exact h ▸ standard
  split
  · next h => exact h ▸ authorized
  split
  · next h => exact h ▸ exec
  · exact unknown module

/-- Three modules run commands. -/
theorem isExecute_cases {module : String} (h : isExecute module = true) :
    module = "IKJEFTSR" ∨ module = "TSOEFTR" ∨ module = "IRXEXEC" := by
  simpa [isExecute, or_assoc] using h

/-- The service of a route. -/
theorem service_route (route : Route) :
    SimHost.service route.module
      = (Service.execute (decide (route = .authorizedProcessor)), 20) := by
  cases route
  · rfl
  · rfl

/-- The service of the modules that hand out tokens. -/
theorem service_prepare {module : String} (h : module ∈ Invocation.prepareModules) :
    (SimHost.service module).1 = Service.prepare := by
  simp only [Invocation.prepareModules, List.mem_cons, List.not_mem_nil, or_false] at h
  rcases h with rfl | rfl
  · rfl
  · rfl

/-- The deeds of the service of a module. -/
def Does (module : String) : Deed → Prop
  | .obtain | .probe => module = "IKJTSOEV"
  | .write => True
  | .allocate => module = "TSODALC" ∨ module = "TSODFRE"
  | .issue => module ∈ Invocation.prepareModules
  | .run | .print | .append => isExecute module = true

instance (module : String) (deed : Deed) : Decidable (Does module deed) :=
  match deed with
  | .obtain => inferInstanceAs (Decidable (module = "IKJTSOEV"))
  | .probe => inferInstanceAs (Decidable (module = "IKJTSOEV"))
  | .write => isTrue trivial
  | .allocate => inferInstanceAs (Decidable (module = "TSODALC" ∨ module = "TSODFRE"))
  | .issue => inferInstanceAs (Decidable (module ∈ Invocation.prepareModules))
  | .run => inferInstanceAs (Decidable (isExecute module = true))
  | .print => inferInstanceAs (Decidable (isExecute module = true))
  | .append => inferInstanceAs (Decidable (isExecute module = true))

/-- Besides writing, the prepare service issues tokens only. -/
theorem does_prepare {module : String} {deed : Deed} (h : module ∈ Invocation.prepareModules)
    (hdeed : Does module deed) : deed ∈ [Deed.write, .issue] := by
  simp only [Invocation.prepareModules, List.mem_cons, List.not_mem_nil, or_false] at h
  rcases h with rfl | rfl <;> revert hdeed <;> cases deed <;> decide

/-- The service of a module does no other deeds, and but for the free
service does the same whether or not frees are refused. -/
theorem service_serves (module : String) (r1 : Address) :
    ((SimHost.service module).1 r1).Within (Acts (Does module))
      ∧ (module ≠ "TSODFRE" → Serves (Does module) ((SimHost.service module).1 r1)) := by
  have hserves : ∀ (module : String) {x : Op (Machine SimHost) Int32}, Serves (Does module) x →
      x.Within (Acts (Does module)) ∧ (module ≠ "TSODFRE" → Serves (Does module) x) :=
    fun _ _ h => ⟨h.acts, fun _ => h⟩
  refine service_each ?_ ?_ ?_ ?_ ?_ ?_ ?_ ?_ module
    (motive := fun module service => (service.1 r1).Within (Acts (Does module))
      ∧ (module ≠ "TSODFRE" → Serves (Does module) (service.1 r1)))
  · refine hserves _ (Service.serves_environment ?_ ?_ ?_ r1) <;> trivial
  · exact hserves _ (Service.serves_allocate (.inl rfl) trivial r1)
  · exact ⟨Service.acts_free (.inr rfl) trivial r1, fun h => absurd rfl h⟩
  · exact fun module hmodule => hserves _ (Service.serves_prepare trivial hmodule r1)
  · refine hserves _ (Service.serves_execute ?_ ?_ ?_ ?_ false r1) <;> trivial
  · refine hserves _ (Service.serves_execute ?_ ?_ ?_ ?_ true r1) <;> trivial
  · refine hserves _ (Service.serves_interpret ?_ ?_ ?_ ?_ r1) <;> trivial
  · exact fun _ => hserves _ (Service.serves_fail _)

/-- The state in which a service starts: the call is counted. -/
def counted (m : Machine SimHost) (module : String) : Machine SimHost :=
  { m with host := m.host.count module }

/-- A call answers with the value of its service, and with the code for wrong
parameters if the service fails; the machine it leaves is the one the
service leaves in either case, and where it traps. -/
theorem call_eq (m : Machine SimHost) (entry : EntryPoint) (r1 : Address) :
    SimHost.call m entry r1
      = (match ((SimHost.service entry.module).1 r1 (counted m entry.module)).1 with
          | .ok r15 => some r15
          | .error (.error _) => some (SimHost.service entry.module).2
          | .error .trap => none,
        ((SimHost.service entry.module).1 r1 (counted m entry.module)).2) := by
  unfold SimHost.call counted
  rcases SimHost.service entry.module with ⟨run, wrongParms⟩
  simp only
  rcases run r1 { m with host := m.host.count entry.module } with ⟨(_ | _) | r15, after⟩
    <;> rfl

/-- A call is counted, and then served. -/
theorem call_snd (m : Machine SimHost) (entry : EntryPoint) (r1 : Address) :
    (SimHost.call m entry r1).2
      = ((SimHost.service entry.module).1 r1 (counted m entry.module)).2 := by
  rw [call_eq]

/-- The return code of a call is that of its service; a service that fails
answers for wrong parameters. -/
theorem call_fst (m : Machine SimHost) (entry : EntryPoint) (r1 : Address) :
    (SimHost.call m entry r1).1
      = match ((SimHost.service entry.module).1 r1 (counted m entry.module)).1 with
        | .ok r15 => some r15
        | .error (.error _) => some (SimHost.service entry.module).2
        | .error .trap => none := by
  rw [call_eq]

/-- A call does the deeds of its module, once it is counted. -/
theorem call_acts (m : Machine SimHost) (entry : EntryPoint) (r1 : Address) :
    Acts (Does entry.module) (counted m entry.module) (SimHost.call m entry r1).2 := by
  rw [call_snd]
  exact (service_serves entry.module r1).1 _

/-- To the engine, hosts that refuse frees or do not differ in their frees
only. -/
theorem refusing_maps (failure : Option UInt16) :
    Host.Maps (refusing failure) (· ≠ "TSODFRE") where
  load _ _ := rfl
  call machine entry r1 hmodule := by
    have hrun := ((service_serves entry.module r1).2 hmodule).blind failure
      (counted machine entry.module)
    change (SimHost.service entry.module).1 r1
      (counted (machine.mapHost (refusing failure)) entry.module) = _ at hrun
    show SimHost.call _ entry r1
      = ((SimHost.call machine entry r1).1, (SimHost.call machine entry r1).2.mapHost _)
    rw [call_eq, call_eq, hrun]
  openRecords _ _ := rfl
  openStream _ _ := rfl
  putLine _ _ _ := rfl

end TsoBridge.Sim
