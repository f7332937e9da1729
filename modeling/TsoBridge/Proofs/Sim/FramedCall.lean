/-
The calls of the engine, each in a frame of its own. What a call hands over
lies in blocks of the frame, the service writes there and nowhere else, and
so the call leaves storage as it found it (`Conserved`). The one exception is
the first question that is answered with a command processor list: it finds
no storage in use and leaves the list.

The calls trap where the services do, at the last value of a counter
(`SimHost.Spent`), and otherwise in one case: the area of an exec whose
texts are longer than any run of bytes.
-/
import TsoBridge.Proofs.Sim.Established
import TsoBridge.Proofs.Sim.ExecCall

namespace TsoBridge

-- ==================================================================== areas

namespace ExecArea

/-- The parameters of an area that lies below the limit. -/
theorem parms_eq (base cppl : Address) (h : base.toNat + arguments ≤ Storage.addressLimit) :
    parms base cppl = .ok {
      leading := [base.shift execPointer, base.shift argumentPointer, base.shift flags, 0, cppl,
        base.shift evalPointer, 0, 0, 0]
      last := base.shift rexxRc } := by
  unfold parms
  rw [plus_within h (show execPointer ≤ arguments by decide),
    plus_within h (show argumentPointer ≤ arguments by decide),
    plus_within h (show flags ≤ arguments by decide),
    plus_within h (show evalPointer ≤ arguments by decide),
    plus_within h (show rexxRc ≤ arguments by decide)]
  rfl

/-- An evaluation block is read at fixed offsets. -/
theorem decodeEval_untrapped (area : Bytes) : decodeEval area ≠ .error .trap := by
  refine Outcome.bind_untrapped (Field.readSigned_untrapped _ (by decide)) fun _ _ => ?_
  refine Outcome.bind_untrapped (Field.read_untrapped _ (by decide)) fun _ _ htrap => ?_
  cases htrap

end ExecArea

/-- Sums with displacements that are addresses. -/
theorem Address.mapM_plus_eq {base : Address} {offsets : List Nat}
    (h : ∀ offset ∈ offsets, base.toNat + offset < 0x100000000) :
    offsets.mapM base.plus = .ok (offsets.map base.shift) := by
  induction offsets with
  | nil => rfl
  | cons offset rest ih =>
      rw [List.mapM_cons, Address.plus_eq (h offset List.mem_cons_self),
        ih fun other hother => h other (List.mem_cons_of_mem _ hother)]
      rfl

/-- The parameters of a prepare block. -/
theorem PrepareBlock.parms_eq {base : Address}
    (h : base.toNat + PrepareBlock.size ≤ Storage.addressLimit) :
    PrepareBlock.parms base = .ok {
      leading := [0, 4, token, error, abend].map base.shift, last := base.shift reason } := by
  unfold PrepareBlock.size Storage.addressLimit at h
  have hleading : [0, 4, token, error, abend].mapM base.plus
      = .ok ([0, 4, token, error, abend].map base.shift) := by
    refine Address.mapM_plus_eq fun offset hoffset => ?_
    simp only [token, error, abend, List.mem_cons, List.not_mem_nil, or_false] at hoffset
    omega
  have hlast : base.plus reason = .ok (base.shift reason) :=
    Address.plus_eq (by unfold reason; omega)
  unfold parms
  rw [hleading, hlast]
  rfl

/-- So is a prepare block. -/
theorem PrepareBlock.decode_untrapped (block : Bytes) :
    PrepareBlock.decode block ≠ .error .trap := by
  refine Outcome.bind_untrapped (Field.read_untrapped _ (by decide)) fun _ _ => ?_
  refine Outcome.bind_untrapped (Field.readSigned_untrapped _ (by decide)) fun _ _ => ?_
  refine Outcome.bind_untrapped (Field.readFull_untrapped _ (by decide)) fun _ _ => ?_
  refine Outcome.bind_untrapped (Field.readFull_untrapped _ (by decide)) fun _ _ htrap => ?_
  cases htrap

namespace CallBlock

/-- The parameters of a call block. -/
theorem parms_eq {base : Address} (h : base.toNat + commandAt ≤ Storage.addressLimit)
    (cppl : Address) :
    parms base cppl = .ok {
      leading := [flagsAt, commandAt, lengthAt, rcAt, reasonAt, abendAt, programAt].map base.shift
        ++ [cpplOf base cppl, base.shift tokenAt]
      last := base.shift outputAt } := by
  unfold commandAt Storage.addressLimit at h
  have hbefore : [flagsAt, commandAt, lengthAt, rcAt, reasonAt, abendAt, programAt].mapM base.plus
      = .ok ([flagsAt, commandAt, lengthAt, rcAt, reasonAt, abendAt, programAt].map
        base.shift) := by
    refine Address.mapM_plus_eq fun offset hoffset => ?_
    simp only [flagsAt, commandAt, lengthAt, rcAt, reasonAt, abendAt, programAt, List.mem_cons,
      List.not_mem_nil, or_false] at hoffset
    omega
  have htoken : base.plus tokenAt = .ok (base.shift tokenAt) :=
    Address.plus_eq (by unfold tokenAt; omega)
  have houtput : base.plus outputAt = .ok (base.shift outputAt) :=
    Address.plus_eq (by unfold outputAt; omega)
  have hown : base.plus cpplAt = .ok (base.shift cpplAt) :=
    Address.plus_eq (by unfold cpplAt; omega)
  unfold parms cpplOf
  split
  · show (List.mapM base.plus _ >>= _) = _
    rw [hbefore, htoken, houtput]
    rfl
  · rw [hown]
    show (List.mapM base.plus _ >>= _) = _
    rw [hbefore, htoken, houtput]
    rfl

/-- A call block is encoded without a trap if token and command fit. -/
theorem encode_untrapped {block : CallBlock} (htoken : block.token.length ≤ tokenSize)
    (hcommand : block.command.length ≤ maxCommand) : block.encode ≠ .error .trap := by
  refine Field.writeAll_untrapped fun field hfield => ?_
  unfold tokenSize at htoken
  unfold maxCommand at hcommand
  simp only [fields, List.mem_cons, List.not_mem_nil, or_false] at hfield
  unfold Word.indexLimit
  rcases hfield with rfl | rfl | rfl | rfl | rfl <;> dsimp only
  · show flagsAt + 4 < _
    decide
  · rw [Word.length_ofFull]
    decide
  · unfold tokenAt
    omega
  · rw [CodePage.length_encodeField]
    decide
  · unfold commandAt
    omega

/-- A block that was made has room for its texts. -/
theorem make_fits {flags : CallFlags} {text : String} {token : Bytes} {block : CallBlock}
    (h : CallBlock.make flags text token = .ok block) :
    block.token = token ∧ block.command.length ≤ maxCommand := by
  unfold CallBlock.make at h
  split at h
  · cases h
  · split at h
    · cases h
    · next hsize =>
      cases h
      rw [CodePage.length_encode]
      exact ⟨rfl, Nat.le_trans (Text.length_le_utf8ByteSize text) (Nat.not_lt.mp hsize)⟩

/-- What an execute call left is read at fixed offsets. -/
theorem decode_untrapped (block : Bytes) : CallBlock.decode block ≠ .error .trap := by
  refine Outcome.bind_untrapped (Field.readSigned_untrapped _ (by decide)) fun _ _ => ?_
  refine Outcome.bind_untrapped (Field.readFull_untrapped _ (by decide)) fun _ _ => ?_
  refine Outcome.bind_untrapped (Field.readFull_untrapped _ (by decide)) fun _ _ htrap => ?_
  cases htrap

end CallBlock

namespace Sim

open Storage (Opened established listAddress questioned)

-- ================================================================== between

/-- One of the counters of a host is at its last value. -/
inductive SimHost.Spent (host : SimHost) : Prop where
  | dataset (h : UInt32.size ≤ host.tempSeq.toNat + 1)
  | token (h : UInt32.size ≤ host.nextToken.toNat + 1)
  | ddname (h : UInt32.size ≤ host.dds.nextNumber.toNat + 1)

/-- A counter that ran out in a call is spent after it. -/
theorem Exhausted.spent {before after : SimHost} (h : Exhausted before after) : after.Spent := by
  cases h with
  | dataset h hsame => exact .dataset (hsame ▸ h)
  | token h hsame => exact .token (hsame ▸ h)
  | ddname h hsame => exact .ddname (hsame ▸ h)

/-- Storage is as it was, or the command processor list has been made in
it, where there was no block. -/
structure Conserved (before after : Linkage SimHost) : Prop where
  named : before.Named → after.Named
  orderly : before.host.Orderly → after.host.Orderly
  storage : after.storage = before.storage ∧ after.host.cppl = before.host.cppl
    ∨ (before.storage = {} ∧ before.host.cppl = none) ∧ after.storage = established
      ∧ after.host.cppl = some listAddress

/-- Storage is kept where nothing happens. -/
theorem Conserved.refl (link : Linkage SimHost) : Conserved link link :=
  ⟨id, id, .inl ⟨rfl, rfl⟩⟩

/-- It is kept by a sequence if it is kept by its parts. -/
theorem Conserved.trans {first second third : Linkage SimHost} (h : Conserved first second)
    (h' : Conserved second third) : Conserved first third := by
  refine ⟨h'.named ∘ h.named, h'.orderly ∘ h.orderly, ?_⟩
  rcases h.storage with ⟨hsame, hcppl⟩ | ⟨hnone, hmade, hlisted⟩
  · rw [← hsame, ← hcppl]
    exact h'.storage
  · rcases h'.storage with ⟨hsame, hcppl⟩ | ⟨⟨-, hnone'⟩, -⟩
    · exact .inr ⟨hnone, hsame.trans hmade, hcppl.trans hlisted⟩
    · rw [hlisted] at hnone'
      cases hnone'

variable {α β : Type} {before link : Linkage SimHost} {spots : List (Address × Nat)}
  {inv spent : Linkage SimHost → Prop}

/-- Inside the frame of a call that was opened at `before`. -/
structure Framed (before : Linkage SimHost) (spots : List (Address × Nat))
    (link : Linkage SimHost) : Prop where
  modules : link.modules = before.modules
  cppl : link.host.cppl = before.host.cppl
  orderly : before.host.Orderly → link.host.Orderly
  storage : Opened before.storage spots link.storage

/-- A frame that was just opened holds nothing. -/
theorem framed_open (hwf : before.storage.WellFormed) :
    Framed before [] { before with storage := before.storage.openFrame } :=
  ⟨rfl, rfl, id, Storage.opened_openFrame hwf⟩

/-- What an operation in a frame has to leave. -/
def Closes (before link : Linkage SimHost) : Prop :=
  Conserved before { link with storage := link.storage.closeFrame }

/-- Closing it gives back the storage it was opened on. -/
theorem Framed.closes (h : Framed before spots link) : Closes before link := by
  refine ⟨fun hnamed key entry hget => ?_, h.orderly, .inl ⟨h.storage.closes, h.cppl⟩⟩
  rw [h.modules] at hget
  exact hnamed key entry hget

/-- Where a call may trap. -/
def SpentFrom (before link : Linkage SimHost) : Prop :=
  before.host.Orderly → link.host.Spent

/-- What is guarded up to the close of the frame is guarded. -/
theorem guarded_framed {x : Op (Linkage SimHost) α} (post : α → Linkage SimHost → Prop)
    (hspent : ∀ link storage, spent link → spent { link with storage })
    (h : x.Guarded (Closes before) spent { before with storage := before.storage.openFrame }
      fun a _ => ∀ t, post a t) : (Linkage.framed x).Guarded (Conserved before) spent before post :=
  ⟨h.1, fun htrap => hspent _ _ (h.2.1 htrap), fun a ha => h.2.2 a ha _⟩

/-- Spent counters are no matter of storage. -/
theorem spentFrom_storage (before link : Linkage SimHost) (storage : Storage)
    (h : SpentFrom before link) : SpentFrom before { link with storage } :=
  h

-- ============================================================ in the frame

/-- A step of the storage. -/
theorem guarded_update {f : Storage → Outcome (α × Storage)} (more : α → List (Address × Nat))
    (h : Framed before spots link) (hsafe : f link.storage = .error .trap → spent link)
    (hf : ∀ a after, f link.storage = .ok (a, after) → Opened before.storage (more a) after) :
    (Linkage.onMachine (Machine.onStorage (Op.update f)) : Op (Linkage SimHost) α).Guarded
      (Closes before) spent link
      fun a t => Framed before (more a) t ∧ f link.storage = .ok (a, t.storage)
        ∧ t.host = link.host := by
  unfold Op.Guarded Op.Ends Linkage.onMachine Machine.onStorage
  cases hrun : f link.storage with
  | ok pair =>
      obtain ⟨a, after⟩ := pair
      rw [Op.run_on (Op.run_on (Op.update_of_ok hrun))]
      have hafter : Framed before (more a) { link with storage := after } :=
        ⟨h.modules, h.cppl, h.orderly, hf a after hrun⟩
      refine ⟨hafter.closes, fun htrap => ?_, fun b hb => ?_⟩
      · cases htrap
      · cases hb
        exact ⟨hafter, rfl, rfl⟩
  | error fault =>
      rw [Op.run_on (Op.run_on (Op.update_of_fault hrun))]
      refine ⟨h.closes, fun htrap => ?_, fun b hb => ?_⟩
      · cases htrap
        exact hsafe hrun
      · cases hb

/-- A block that is obtained is one more stretch of the frame. -/
theorem guarded_obtain {length : Nat} (h : Framed before spots link)
    (hlength : length ≤ Storage.addressLimit) :
    (Linkage.obtain length : Op (Linkage SimHost) Address).Guarded (Closes before) spent link
      fun a t => Framed before ((a, length) :: spots) t
        ∧ link.storage.obtain Storage.engineSubpool length = .ok (a, t.storage)
        ∧ t.host = link.host :=
  guarded_update (fun a => (a, length) :: spots) h
    (fun htrap => absurd htrap
      (Storage.obtain_untrapped h.storage.wellFormed _ (Storage.le_runLimit hlength)))
    fun _ _ hrun => h.storage.obtain hrun

/-- So is one that is obtained and filled. -/
theorem guarded_obtainWith {data : Bytes} (h : Framed before spots link)
    (hdata : data.length ≤ Storage.addressLimit) :
    (Linkage.obtainWith data : Op (Linkage SimHost) Address).Guarded (Closes before) spent link
      fun a t => Framed before ((a, data.length) :: spots) t
        ∧ link.storage.obtainWith Storage.engineSubpool data = .ok (a, t.storage)
        ∧ t.host = link.host :=
  guarded_update (fun a => (a, data.length) :: spots) h
    (fun htrap => absurd htrap (Storage.obtainWith_untrapped h.storage.wellFormed _ hdata))
    fun _ _ hrun => h.storage.obtainWith hrun

/-- A write into a stretch of the frame is undone when it closes. -/
theorem guarded_write {address : Address} {data : Bytes} (h : Framed before spots link)
    (width : Nat) (hspot : (address, width) ∈ spots) (hwidth : 0 < width)
    (hdata : data.length ≤ Word.runLimit) :
    (Linkage.write address data : Op (Linkage SimHost) Unit).Guarded (Closes before) spent link
      fun _ t => Framed before spots t ∧ link.storage.write address data = .ok t.storage := by
  have hsafe : (do return ((), ← link.storage.write address data)) ≠ .error .trap :=
    Outcome.bind_untrapped (Storage.write_untrapped _ _ hdata) fun _ _ htrap => by cases htrap
  refine (guarded_update (f := fun storage => do return ((), ← storage.write address data))
    (fun _ => spots) h (fun htrap => absurd htrap hsafe) fun _ after hrun => ?_).mono
    (fun _ ht => ht) fun _ t ht => ⟨ht.1, ?_⟩
  · obtain ⟨written, hwrite, hrun⟩ := Outcome.bind_ok hrun
    cases hrun
    exact h.storage.write hspot (Nat.le_refl _) (by omega) hwrite
  · obtain ⟨written, hwrite, hrun⟩ := Outcome.bind_ok ht.2.1
    cases hrun
    exact hwrite

/-- A parameter list is placed in the frame. -/
theorem guarded_place {parms : ParmList} (h : Framed before spots link)
    (hcount : parms.leading.length < ParmList.maxParms) :
    (Linkage.onMachine (Machine.onStorage (Op.update parms.place)) :
      Op (Linkage SimHost) Address).Guarded (Closes before) spent link
      fun r1 t => Framed before spots t ∧ parms.place link.storage = .ok (r1, t.storage)
        ∧ t.host = link.host :=
  guarded_update (fun _ => spots) h
    (fun htrap => absurd htrap (ParmList.place_untrapped h.storage.wellFormed hcount))
    fun _ _ hrun => h.storage.place hrun

/-- A look at storage leaves it alone. -/
theorem guarded_read {address : Address} {length : Nat} (hinv : inv link)
    (hlength : length ≤ Word.runLimit) :
    (Linkage.read address length : Op (Linkage SimHost) Bytes).Guarded inv spent link
      fun bytes t => link.storage.read address length = .ok bytes ∧ t = link := by
  refine ⟨hinv, fun htrap => ?_, fun bytes hbytes => ⟨hbytes, rfl⟩⟩
  exact absurd htrap (Storage.read_untrapped _ _ hlength)

theorem guarded_readFull (hinv : inv link) (address : Address) :
    (Linkage.readFull address : Op (Linkage SimHost) UInt32).Guarded inv spent link
      fun _ t => t = link :=
  ⟨hinv, fun htrap => absurd htrap (Storage.readFull_untrapped _ _), fun _ _ => rfl⟩

theorem guarded_readSigned (hinv : inv link) (address : Address) :
    (Linkage.readSigned address : Op (Linkage SimHost) Int32).Guarded inv spent link
      fun _ t => t = link := by
  have hsafe : link.storage.readSigned address ≠ .error .trap :=
    Outcome.bind_untrapped (Storage.read_untrapped _ _ (by decide)) fun _ _ htrap => by cases htrap
  exact ⟨hinv, fun htrap => absurd htrap hsafe, fun _ _ => rfl⟩

/-- What a service has to leave in a frame that was opened at `before`. -/
def Leaves (before : Linkage SimHost) (m : Machine SimHost) : Prop :=
  Opened before.storage [] m.storage ∧ m.host.cppl = before.host.cppl
    ∨ (before.storage = {} ∧ before.host.cppl = none) ∧ Opened established [] m.storage
      ∧ m.host.cppl = some listAddress

/-- A branch traps only if the service does. -/
theorem branch_trap {entry : EntryPoint} {r1 : Address}
    (h : (Linkage.branch entry r1 link).1 = .error .trap) :
    ((SimHost.service entry.module).1 r1 (counted link.toMachine entry.module)).1
      = .error .trap := by
  have hfst := call_fst link.toMachine entry r1
  unfold Linkage.branch at h
  rcases hcall : Host.call link.toMachine entry r1 with ⟨_ | r15, machine⟩
  · rw [show (SimHost.call link.toMachine entry r1).1 = none from congrArg Prod.fst hcall] at hfst
    rcases hrun : ((SimHost.service entry.module).1 r1
      (counted link.toMachine entry.module)).1 with (_ | _) | value
    · rw [hrun] at hfst
      cases hfst
    · rfl
    · rw [hrun] at hfst
      cases hfst
  · rw [hcall] at h
    cases h

/-- A branch to a service that leaves what it has to. -/
theorem guarded_branch {entry : EntryPoint} {r1 : Address} (h : Framed before spots link)
    (hnot : entry.module = "IRXEXEC" → ¬Misplaced link.toMachine r1)
    (hservice : ((SimHost.service entry.module).1 r1).Ends (counted link.toMachine entry.module)
      fun _ t => Leaves before t) :
    (Linkage.branch entry r1 : Op (Linkage SimHost) Int32).Guarded (Closes before)
      (SpentFrom before) link fun _ _ => True := by
  have hmachine := branch_machine entry r1 link
  have hleft : Leaves before
      ((SimHost.service entry.module).1 r1 (counted link.toMachine entry.module)).2 := hservice
  rw [← hmachine] at hleft
  refine ⟨⟨fun hnamed key entry hget => ?_, fun hbefore => ?_, ?_⟩, fun htrap hbefore => ?_,
    fun _ _ => trivial⟩
  · rw [(Linkage.branch_modules _ r1 link).1, h.modules] at hget
    exact hnamed key entry hget
  · have hcall := (h.orderly hbefore).call (m := link.toMachine) entry r1
    rw [call_snd, ← hmachine] at hcall
    exact hcall
  · rcases hleft with ⟨hopened, hcppl⟩ | ⟨hnone, hopened, hcppl⟩
    · exact .inl ⟨hopened.closes, hcppl⟩
    · exact .inr ⟨hnone, hopened.closes, hcppl⟩
  · have hsafe := service_safe entry.module r1 (m := counted link.toMachine entry.module)
      h.storage.wellFormed ((h.orderly hbefore).same rfl rfl)
    have hspent := hsafe.2.1 (branch_trap htrap)
    rw [← hmachine] at hspent
    rcases hspent with hexhausted | ⟨hmodule, hmisplaced⟩
    · exact hexhausted.spent
    · exact absurd hmisplaced.of_counted (hnot hmodule)

/-- What a module does with a list that was placed in the frame. -/
def Heeds (before link : Linkage SimHost) (spots : List (Address × Nat)) (entry : EntryPoint)
    (parms : ParmList) : Prop :=
  ∀ r1 t, Framed before spots t → parms.place link.storage = .ok (r1, t.storage) →
    t.host = link.host → ParmList.decode t.storage r1 = .ok (parms.leading ++ [parms.last]) →
    (entry.module = "IRXEXEC" → ¬Misplaced t.toMachine r1)
      ∧ ((SimHost.service entry.module).1 r1).Ends (counted t.toMachine entry.module)
        fun _ m => Leaves before m

/-- A service that heeds its parameters keeps to the frame. -/
theorem guarded_call {entry : EntryPoint} (h : Framed before spots link) (parms : ParmList)
    (hcount : parms.leading.length < ParmList.maxParms)
    (hheeds : Heeds before link spots entry parms) :
    (Linkage.call entry parms : Op (Linkage SimHost) Int32).Guarded (Closes before)
      (SpentFrom before) link fun _ _ => True := by
  refine (guarded_place h hcount).bind fun r1 t _ ht => ?_
  obtain ⟨hframed, hplace, hhost⟩ := ht
  obtain ⟨hwf, hplaced, -⟩ := ParmList.place_ok h.storage.wellFormed hplace
  obtain ⟨hnot, hservice⟩ := hheeds r1 t hframed hplace hhost (hplaced.decode hwf hcount)
  exact guarded_branch hframed hnot hservice

/-- A service that makes no list leaves what its writes leave. -/
theorem Framed.leaves {entry : EntryPoint} {r1 : Address} (hframed : Framed before spots link)
    (hne : entry.module ≠ "IKJTSOEV")
    (h : ((SimHost.service entry.module).1 r1).Ends (counted link.toMachine entry.module)
      fun _ m => Opened before.storage spots m.storage) :
    ((SimHost.service entry.module).1 r1).Ends (counted link.toMachine entry.module)
      fun _ m => Leaves before m := by
  have hscope := call_unlisting link.toMachine r1 hne
  rw [call_snd] at hscope
  refine .inl ⟨h.bare, ?_⟩
  rw [← hframed.cppl, ← hscope.1]
  rfl

/-- The end of a stretch. -/
theorem Framed.spot_le (h : Framed before spots link) (address : Address) (width : Nat)
    (hspot : (address, width) ∈ spots) : address.toNat + width ≤ Storage.addressLimit :=
  (h.storage.lent _ hspot).covers.le h.storage.wellFormed

/-- A field of a block is a stretch of its own. -/
theorem Framed.field (h : Framed before spots link) (base : Address) (width : Nat)
    {offset width' : Nat} (hspot : (base, width) ∈ spots) (hin : offset + width' ≤ width) :
    Framed before ((base.shift offset, width') :: spots) link := by
  have hle := h.spot_le base width hspot
  unfold Storage.addressLimit at hle
  have hshift : (base.shift offset).toNat = base.toNat + offset := Address.toNat_shift (by omega)
  refine ⟨h.modules, h.cppl, h.orderly, h.storage.spot hspot ?_ ?_⟩
  · omega
  · omega

-- =============================================================== requests

/-- The answer of an allocation service lies within its work area. -/
theorem decode_untrapped (area : Bytes) {block : Nat} (hblock : block ≤ WorkArea.size) :
    WorkArea.decode area block ≠ .error .trap := by
  have hindex : ∀ {width}, width ≤ WorkArea.size → block + width < Word.indexLimit := by
    intro width hwidth
    unfold WorkArea.size at hblock hwidth
    unfold Word.indexLimit
    omega
  have hfield : ∀ {offset width}, offset + width ≤ WorkArea.size →
      block + offset + width < Word.indexLimit := by
    intro offset width hwidth
    rw [Nat.add_assoc]
    exact hindex hwidth
  refine Outcome.bind_untrapped (Field.readSigned_untrapped _ (by decide)) fun _ _ => ?_
  refine Outcome.bind_untrapped (Field.readHalf_untrapped _ (hfield (by decide))) fun _ _ => ?_
  refine Outcome.bind_untrapped (Field.readHalf_untrapped _ (hfield (by decide))) fun _ _ => ?_
  refine Outcome.bind_untrapped ?_ fun _ _ => ?_
  · refine Outcome.bind_untrapped (Field.read_untrapped _ (hfield (by decide))) fun _ _ htrap => ?_
    cases htrap
  refine Outcome.bind_untrapped (Field.read_untrapped _ (hfield (by decide))) fun _ _ htrap => ?_
  cases htrap

/-- A request to either allocation service keeps to its frame. -/
theorem guarded_request {entry : EntryPoint}
    (hmodule : entry.module = "TSODALC" ∨ entry.module = "TSODFRE")
    (hwf : before.storage.WellFormed) (capability : Capability) (ddname : String)
    {prepare : Address → Outcome Bytes} {decode : Bytes → Outcome AllocationResult}
    (hprepare : WorkArea.Fills prepare) (hdecode : ∀ bytes, decode bytes ≠ .error .trap) :
    (Bindings.request entry capability ddname prepare decode :
      Op (Linkage SimHost) AllocationResult).Guarded (Conserved before) (SpentFrom before) before
      fun _ _ => True := by
  refine guarded_framed (fun _ _ => True) (spentFrom_storage before) ?_
  refine (guarded_obtain (framed_open hwf) (by decide)).bind fun area t1 _ h1 => ?_
  refine (guarded_obtainWith h1.1 ?_).bind fun name t2 _ h2 => ?_
  · rw [CodePage.length_encodeField]
    decide
  refine (guarded_obtain h2.1 (by decide)).bind fun rc t3 _ h3 => ?_
  refine (guarded_obtain h3.1 (by decide)).bind fun catalogRc t4 _ h4 => ?_
  obtain ⟨hframed, -, -⟩ := h4
  have harea := hframed.spot_le area WorkArea.size (by simp)
  obtain ⟨bytes, hbytes, hlength⟩ := hprepare area harea
  refine Op.ends_lift_of_ok hbytes ?_
  refine (guarded_write hframed WorkArea.size (by simp) (by decide)
    (by rw [hlength]; decide)).bind fun _ t5 _ ⟨h5, _⟩ => ?_
  have hcount : [capability.cppl, name, rc, catalogRc].length < ParmList.maxParms :=
    show 4 < ParmList.maxParms by decide
  refine (guarded_call h5 ⟨[capability.cppl, name, rc, catalogRc], area⟩ hcount
    fun r1 t ht _ _ hlist => ⟨fun hexec => ?_, ?_⟩).bind fun r15 t6 h6 _ => ?_
  · rcases hmodule with h | h <;> simp [h] at hexec
  · rcases hmodule with h | h
    · refine ht.leaves (by rw [h]; decide) ?_
      rw [h]
      exact Service.allocate_inside hlist (by simp) (by simp) (by simp) ht.storage
    · refine ht.leaves (by rw [h]; decide) ?_
      rw [h]
      exact Service.free_inside hlist (by simp) (by simp) (by simp) ht.storage
  · refine (guarded_read h6 (by decide)).bind fun found t7 _ h7 => ?_
    obtain ⟨-, rfl⟩ := h7
    refine (Op.guarded_lift h6 (hdecode found)).bind fun result t8 _ h8 => ?_
    obtain ⟨-, rfl⟩ := h8
    exact Op.guarded_pure h6 fun _ => trivial

-- =============================================================== commands

/-- A prepare call; the token it leaves has the size of one at most. -/
theorem guarded_sendPrepare {entry : EntryPoint}
    (hmodule : entry.module ∈ Invocation.prepareModules) (hwf : before.storage.WellFormed) :
    (Invocation.sendPrepare entry : Op (Linkage SimHost) (Int32 × PrepareResult)).Guarded
      (Conserved before) (SpentFrom before) before
      fun answer _ => answer.2.token.length ≤ tokenSize := by
  let short (answer : Int32 × PrepareResult) (_ : Linkage SimHost) : Prop :=
    answer.2.token.length ≤ tokenSize
  refine guarded_framed short (spentFrom_storage before) ?_
  refine (guarded_obtain (framed_open hwf) (by decide)).bind fun base t1 _ h1 => ?_
  obtain ⟨hframed, -, -⟩ := h1
  have hbase := hframed.spot_le base PrepareBlock.size (by simp)
  refine Op.ends_lift_of_ok (PrepareBlock.parms_eq hbase) ?_
  have hcount : ([0, 4, PrepareBlock.token, PrepareBlock.error, PrepareBlock.abend].map
      base.shift).length < ParmList.maxParms := show 5 < ParmList.maxParms by decide
  refine (guarded_call hframed ⟨_, _⟩ hcount fun r1 t ht _ _ hlist =>
    ⟨fun hexec => ?_, ?_⟩).bind fun r15 t2 h2 _ => ?_
  · rw [hexec] at hmodule
    exact absurd hmodule (by decide)
  · -- the four fields the service writes
    have htoken := ht.field base PrepareBlock.size (by simp)
      (show PrepareBlock.token + tokenSize ≤ PrepareBlock.size by decide)
    have herror := htoken.field base PrepareBlock.size (by simp)
      (show PrepareBlock.error + 4 ≤ PrepareBlock.size by decide)
    have habend := herror.field base PrepareBlock.size (by simp)
      (show PrepareBlock.abend + 4 ≤ PrepareBlock.size by decide)
    have hfields := habend.field base PrepareBlock.size (by simp)
      (show PrepareBlock.reason + 4 ≤ PrepareBlock.size by decide)
    have hexact : ParmList.decodeExact t.storage r1 6 = .ok ⟨#[base.shift 0, base.shift 4,
        base.shift PrepareBlock.token, base.shift PrepareBlock.error,
        base.shift PrepareBlock.abend, base.shift PrepareBlock.reason], rfl⟩ := by
      unfold ParmList.decodeExact
      rw [hlist]
      rfl
    refine hfields.leaves (Invocation.prepare_ne_environment entry.module hmodule) ?_
    rw [service_prepare hmodule]
    exact Service.prepare_inside hexact (by simp) (by simp) (by simp) (by simp) hfields.storage
  · refine (guarded_read h2 (by decide)).bind fun block t3 _ h3 => ?_
    obtain ⟨-, rfl⟩ := h3
    refine (Op.guarded_lift h2 (PrepareBlock.decode_untrapped block)).bind
      fun result t4 _ h4 => ?_
    obtain ⟨hresult, rfl⟩ := h4
    refine Op.guarded_pure h2 fun _ => ?_
    obtain ⟨token, htoken, hresult⟩ := Outcome.bind_ok hresult
    obtain ⟨error, -, hresult⟩ := Outcome.bind_ok hresult
    obtain ⟨abend, -, hresult⟩ := Outcome.bind_ok hresult
    obtain ⟨reason, -, hresult⟩ := Outcome.bind_ok hresult
    cases hresult
    rw [(Field.read_ok htoken).2]
    exact List.length_take_le _ _

/-- An execute call, with a block that has room for its texts. -/
theorem guarded_sendBlock {entry : EntryPoint} {route : Route}
    (hmodule : entry.module = route.module) (hwf : before.storage.WellFormed)
    (capability : Capability) {block : CallBlock} (htoken : block.token.length ≤ tokenSize)
    (hcommand : block.command.length ≤ CallBlock.maxCommand) :
    (Invocation.sendBlock entry capability block :
      Op (Linkage SimHost) (Int32 × ExecuteResult)).Guarded (Conserved before) (SpentFrom before)
      before fun _ _ => True := by
  refine guarded_framed (fun _ _ => True) (spentFrom_storage before) ?_
  have hopen := framed_open hwf
  refine (Op.guarded_lift hopen.closes (CallBlock.encode_untrapped htoken hcommand)).bind
    fun bytes t _ ht => ?_
  obtain ⟨hbytes, rfl⟩ := ht
  have hlength := CallBlock.length_encode hbytes
  unfold CallBlock.maxCommand at hcommand
  refine (guarded_obtainWith hopen ?_).bind fun base t1 _ h1 => ?_
  · unfold CallBlock.commandAt at hlength
    unfold Storage.addressLimit
    omega
  obtain ⟨hframed, -, -⟩ := h1
  rw [hlength] at hframed
  have hbase := hframed.spot_le base _ List.mem_cons_self
  refine Op.ends_lift_of_ok (CallBlock.parms_eq (by omega) _) ?_
  have hcount : ([CallBlock.flagsAt, CallBlock.commandAt, CallBlock.lengthAt, CallBlock.rcAt,
      CallBlock.reasonAt, CallBlock.abendAt, CallBlock.programAt].map base.shift
        ++ [CallBlock.cpplOf base capability.cppl, base.shift CallBlock.tokenAt]).length
      < ParmList.maxParms := show 9 < ParmList.maxParms by decide
  refine (guarded_call hframed ⟨_, _⟩ hcount fun r1 t ht _ _ hlist =>
    ⟨fun hexec => ?_, ?_⟩).bind fun r15 t2 h2 _ => ?_
  · rw [hmodule] at hexec
    cases route <;> simp [Route.module] at hexec
  · -- the three fields for the codes
    have hin : ∀ {offset}, offset + 4 ≤ CallBlock.commandAt →
        offset + 4 ≤ CallBlock.commandAt + block.command.length :=
      fun h => Nat.le_trans h (Nat.le_add_right _ _)
    have hrc := ht.field base (CallBlock.commandAt + block.command.length)
      (by simp) (hin (show CallBlock.rcAt + 4 ≤ CallBlock.commandAt by decide))
    have hreason := hrc.field base (CallBlock.commandAt + block.command.length)
      (by simp) (hin (show CallBlock.reasonAt + 4 ≤ CallBlock.commandAt by decide))
    have hfields := hreason.field base (CallBlock.commandAt + block.command.length)
      (by simp)
      (hin (show CallBlock.abendAt + 4 ≤ CallBlock.commandAt by decide))
    have hne : entry.module ≠ "IKJTSOEV" := by
      rw [hmodule]
      exact route.ne_environment
    refine hfields.leaves hne ?_
    rw [hmodule, service_route]
    refine Service.execute_inside _ hlist (fun p hp => ?_) hfields.storage
    cases hp
    exact ⟨by simp, by simp, by simp⟩
  · refine (guarded_read h2 ?_).bind fun found t3 _ h3 => ?_
    · unfold CallBlock.size CallBlock.commandAt Word.runLimit
      omega
    obtain ⟨-, rfl⟩ := h3
    refine (Op.guarded_lift h2 (CallBlock.decode_untrapped found)).bind fun result t4 _ h4 => ?_
    obtain ⟨-, rfl⟩ := h4
    exact Op.guarded_pure h2 fun _ => trivial

-- ================================================================= execs

/-- The area of an exec that stands is where the interpreter writes. -/
theorem execGiven_sent {storage : Storage} {request : ExecRequest} {cppl base r1 : Address}
    (hsent : ExecArea.Sent storage request cppl base r1)
    (hrc : (base.shift ExecArea.rexxRc, 4) ∈ spots)
    (heval : (base.shift ExecArea.evalBlock,
      ExecArea.EvalBlock.data + ExecArea.EvalBlock.dataSize) ∈ spots) :
    Service.ExecGiven storage (execParmsAt base cppl) spots := by
  refine ⟨hrc, fun block hblock => ?_⟩
  have hpointer : storage.readFull (execParmsAt base cppl)[5]
      = .ok (base.shift ExecArea.evalBlock) := hsent.evalAddress
  rw [hpointer] at hblock
  cases hblock
  exact heval

/-- The evaluation block of an area below the limit is not misplaced. -/
theorem not_misplaced_sent {m : Machine SimHost} {request : ExecRequest} {cppl base r1 : Address}
    (hsent : ExecArea.Sent m.storage request cppl base r1)
    (hbase : base.toNat + ExecArea.arguments ≤ Storage.addressLimit) : ¬Misplaced m r1 := by
  rintro ⟨p, block, hp, -, hblock, hlast⟩
  rw [decodeExact_sent hsent] at hp
  cases hp
  have hpointer : m.storage.readFull (execParmsAt base cppl)[5]
      = .ok (base.shift ExecArea.evalBlock) := hsent.evalAddress
  rw [hpointer] at hblock
  cases hblock
  unfold ExecArea.arguments Storage.addressLimit at hbase
  rw [Address.toNat_shift (by unfold ExecArea.evalBlock; omega)] at hlast
  unfold ExecArea.evalBlock at hlast
  omega

/-- A call of the interpreter. Texts longer than any run of bytes are the
one thing that the engine itself cannot ask storage for. -/
theorem guarded_callExec {entry : EntryPoint} (hmodule : entry.module = "IRXEXEC")
    (hwf : before.storage.WellFormed) (capability : Capability) (request : ExecRequest) :
    (ExecCapture.callExec entry capability request :
      Op (Linkage SimHost) (Int32 × EvalResult × Int32)).Guarded (Conserved before)
      (fun t => SpentFrom before t ∨ Word.runLimit < ExecArea.size request) before
      fun _ _ => True := by
  refine guarded_framed (fun _ _ => True) (fun _ _ h => h) ?_
  have hopen := framed_open hwf
  have hlarge : before.storage.openFrame.obtain Storage.engineSubpool (ExecArea.size request)
      = .error .trap → Word.runLimit < ExecArea.size request := by
    intro htrap
    by_contra hsmall
    exact Storage.obtain_untrapped hopen.storage.wellFormed _ (Nat.le_of_not_lt hsmall) htrap
  refine (guarded_update
    (f := fun storage => storage.obtain Storage.engineSubpool (ExecArea.size request))
    (fun base => [(base, ExecArea.size request)]) hopen (fun htrap => .inr (hlarge htrap))
    fun _ _ hrun => hopen.storage.obtain hrun).bind fun base t1 _ h1 => ?_
  obtain ⟨h1, hobtain, -⟩ := h1
  have hbase := h1.spot_le base _ List.mem_cons_self
  have hwhole : ExecArea.arguments ≤ ExecArea.size request :=
    Nat.le_trans (Nat.le_add_right _ _) (Nat.le_add_right _ _)
  have hrun : ExecArea.size request ≤ Word.runLimit := Storage.le_runLimit (by omega)
  obtain ⟨bytes, hbytes⟩ := ExecArea.encode_within hbase
  refine Op.ends_lift_of_ok hbytes ?_
  have hlength := ExecArea.length_encode hbytes
  refine (guarded_write h1 _ List.mem_cons_self (Nat.lt_of_lt_of_le (by decide) hwhole)
    (by rw [hlength]; exact hrun)).bind fun _ t2 _ h2 => ?_
  obtain ⟨h2, hwrite⟩ := h2
  have hcontents : t2.storage.contents base = some bytes := by
    have hzeros := (Storage.obtain_contents hopen.storage.wellFormed hobtain).1
    rw [← hlength] at hzeros
    exact (Storage.write_whole h1.storage.wellFormed hzeros hwrite).1
  have hparms := ExecArea.parms_eq base capability.cppl (by omega)
  refine Op.ends_lift_of_ok hparms ?_
  refine Op.Guarded.bind ((guarded_call h2 _ ?_ fun r1 t ht hplace _ _ => ?_).weaken fun _ => .inl)
    fun r15 t3 h3 _ => ?_
  · show 9 < ParmList.maxParms
    decide
  · obtain ⟨hplacedwf, hlist, hkeep⟩ := ParmList.place_ok h2.storage.wellFormed hplace
    have hsent : ExecArea.Sent t.storage request capability.cppl base r1 :=
      ⟨hplacedwf, ⟨bytes, hbytes, hkeep base bytes hcontents⟩, _, hparms, hlist⟩
    have hrc := ht.field base (ExecArea.size request) (by simp)
      (Nat.le_trans (show ExecArea.rexxRc + 4 ≤ ExecArea.arguments by decide) hwhole)
    have hfields := hrc.field base (ExecArea.size request) (by simp)
      (Nat.le_trans (show ExecArea.evalBlock + (ExecArea.EvalBlock.data
        + ExecArea.EvalBlock.dataSize) ≤ ExecArea.arguments by decide) hwhole)
    refine ⟨fun _ => not_misplaced_sent hsent (by omega), hfields.leaves ?_ ?_⟩
    · rw [hmodule]
      decide
    · rw [hmodule]
      exact Service.interpret_inside (decodeExact_sent hsent)
        (execGiven_sent hsent (by simp) (by simp)) hfields.storage
  · refine (guarded_read h3 hrun).bind fun area t4 _ h4 => ?_
    obtain ⟨-, rfl⟩ := h4
    refine (Op.guarded_lift h3 (ExecArea.decodeEval_untrapped area)).bind fun eval t5 _ h5 => ?_
    obtain ⟨-, rfl⟩ := h5
    refine (Op.guarded_lift h3 (Field.readSigned_untrapped area (by decide))).bind
      fun rc t6 _ h6 => ?_
    obtain ⟨-, rfl⟩ := h6
    exact Op.guarded_pure h3 fun _ => trivial

-- ============================================================ questions

/-- Storage between the calls: there is nothing in it, or the command
processor list is, which the host knows. -/
structure Resting (link : Linkage SimHost) : Prop where
  named : link.Named
  storage : link.storage = {} ∨ link.storage = established ∧ link.host.cppl = some listAddress

/-- Storage at rest is well formed. -/
theorem Resting.wellFormed (h : Resting link) : link.storage.WellFormed := by
  rcases h.storage with hempty | ⟨hestablished, -⟩
  · rw [hempty]
    exact Storage.wellFormed_empty
  · rw [hestablished]
    exact Storage.established_wellFormed

/-- What keeps storage leaves it at rest. -/
theorem Resting.kept (h : Resting before) (hkept : Conserved before link) : Resting link := by
  refine ⟨hkept.named h.named, ?_⟩
  rcases hkept.storage with ⟨hsame, hcppl⟩ | ⟨-, hestablished⟩
  · rw [hsame, hcppl]
    exact h.storage
  · exact .inr hestablished

/-- The storage of a question, step by step from an empty one. -/
def firstQuestion : Outcome Storage := do
  let (parm, first) ← Storage.openFrame {} |>.obtain Storage.engineSubpool 4
  let (rc, second) ← first.obtain Storage.engineSubpool 4
  let (reason, third) ← second.obtain Storage.engineSubpool 4
  let (abend, fourth) ← third.obtain Storage.engineSubpool 4
  let (cppl, fifth) ← fourth.obtain Storage.engineSubpool 4
  let (_, placed) ← ParmList.place ⟨[parm, rc, reason, abend], cppl⟩ fifth
  return placed

/-- The first question, by computation. -/
theorem firstQuestion_eq : firstQuestion = .ok questioned := by
  decide +kernel

/-- A question about the environment. -/
theorem guarded_question {entry : EntryPoint} (hmodule : entry.module = "IKJTSOEV")
    (hrest : Resting before) :
    (Environment.question entry : Op (Linkage SimHost) ProbeReport).Guarded
      (Conserved before) (SpentFrom before) before fun _ _ => True := by
  refine guarded_framed (fun _ _ => True) (spentFrom_storage before) ?_
  have hopen := framed_open hrest.wellFormed
  refine (guarded_obtain hopen (by decide)).bind fun parm t1 _ h1 => ?_
  refine (guarded_obtain h1.1 (by decide)).bind fun rc t2 _ h2 => ?_
  refine (guarded_obtain h2.1 (by decide)).bind fun reason t3 _ h3 => ?_
  refine (guarded_obtain h3.1 (by decide)).bind fun abend t4 _ h4 => ?_
  refine (guarded_obtain h4.1 (by decide)).bind fun cppl t5 _ h5 => ?_
  have hcount : [parm, rc, reason, abend].length < ParmList.maxParms :=
    show 4 < ParmList.maxParms by decide
  refine (guarded_call h5.1 ⟨[parm, rc, reason, abend], cppl⟩ hcount
    fun r1 t ht hplace _ hlist => ⟨fun hexec => ?_, ?_⟩).bind fun _ t6 h6 _ => ?_
  · rw [hmodule] at hexec
    exact absurd hexec (by decide)
  · -- a host without a list is asked from an empty storage
    have hfirst : t.host.cppl = none → before.storage = {} ∧ t.storage = questioned := by
      intro hnone
      have hempty : before.storage = {} := by
        rcases hrest.storage with hempty | ⟨-, hlisted⟩
        · exact hempty
        · rw [ht.cppl, hlisted] at hnone
          cases hnone
      have hchain : firstQuestion = .ok t.storage := by
        unfold firstQuestion
        rw [← hempty, h1.2.1]
        show (t1.storage.obtain _ _ >>= _) = _
        rw [h2.2.1]
        show (t2.storage.obtain _ _ >>= _) = _
        rw [h3.2.1]
        show (t3.storage.obtain _ _ >>= _) = _
        rw [h4.2.1]
        show (t4.storage.obtain _ _ >>= _) = _
        rw [h5.2.1]
        show (ParmList.place _ t5.storage >>= _) = _
        rw [hplace]
        rfl
      exact ⟨hempty, Except.ok.inj (hchain.symm.trans firstQuestion_eq)⟩
    rw [hmodule]
    refine (Service.environment_asks (m := counted t.toMachine "IKJTSOEV") hlist (by simp)
      (fun hnone => (hfirst hnone).2) ht.storage).mono fun _ m hm => ?_
    rcases hm with ⟨hopened, hcppl⟩ | ⟨hnone, -, hopened, hlisted⟩
    · exact .inl ⟨hopened.bare, hcppl.trans ht.cppl⟩
    · exact .inr ⟨⟨(hfirst hnone).1, ht.cppl.symm.trans hnone⟩, hopened.bare, hlisted⟩
  · refine (guarded_readSigned h6 rc).bind fun _ t7 _ h7 => ?_
    cases h7
    refine (guarded_readFull h6 reason).bind fun _ t8 _ h8 => ?_
    cases h8
    refine (guarded_readFull h6 abend).bind fun _ t9 _ h9 => ?_
    cases h9
    refine (guarded_readFull h6 cppl).bind fun _ t10 _ h10 => ?_
    cases h10
    exact Op.guarded_pure h6 fun _ => trivial

end Sim
end TsoBridge
