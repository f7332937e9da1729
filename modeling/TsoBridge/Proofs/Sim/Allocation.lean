/-
The allocation services of the simulated host on a request the engine has
posted. `Meets` lists the ways in which the host can meet an allocate
request, each with its answer and with the host it leaves, and the service
meets the request that stands in the work area in one of them
(`allocate_meets`): what the engine wrote is what the host reads, and the
answer stands where the engine will look for it. Freeing takes the DD out
of the table and its dataset, if that is a temporary one, out of the
catalog, unless the host is set up to refuse (`free_ends`). Both say all
there is about the host, also for a service that fails or traps.

Every write of a service goes to the work area or to one of the two words
for return codes. Each is followed with `ends_write_field`: it goes
through, and what it changes is one field, so the request is still there
when it is read and the answer still there when the engine reads the area.
-/
import TsoBridge.Proofs.Sim.DdTable
import TsoBridge.Proofs.Sim.Host

namespace TsoBridge

open Storage (HasBlock Stands Changed)

variable {α β H : Type}

-- ============================================================== writing

namespace Machine

variable {address part base : Address} {start offset width size : Nat} {data : Bytes}
  {g : Unit → Op (Machine H) β} {m : Machine H} {now : Storage}
  {post : Outcome β → Machine H → Prop}

/-- A write within a block goes through. -/
theorem run_write (offset : Nat) (data : Bytes) (hwf : m.storage.WellFormed)
    (hblock : HasBlock m.storage base size) (hoffset : offset < size) (hfit : offset + data.length ≤ size) :
    ∃ written, Machine.write (base.shift offset) data m = (.ok (), { m with storage := written })
      ∧ Changed base offset (offset + data.length) m.storage written
      ∧ Stands written base offset data := by
  obtain ⟨written, hwrite, hchanged, hstands⟩ := Storage.write_run hwf hblock hoffset hfit
  refine ⟨written, ?_, hchanged, hstands⟩
  unfold Machine.write Machine.onStorage Op.on Op.update
  simp only [hwrite]
  rfl

/-- A write to a field of a block goes through. -/
theorem ends_write (hwf : now.WellFormed) (hblock : HasBlock now base size)
    (haddress : address = base.shift offset) (hwidth : data.length = width)
    (hrange : 0 < width ∧ offset + width ≤ size)
    (hok : ∀ written, Changed base offset (offset + width) now written →
      Stands written base offset data → (g ()).Ends { m with storage := written } post) :
    (Machine.write address data >>= g).Ends { m with storage := now } post := by
  subst hwidth haddress
  obtain ⟨written, hrun, hchanged, hstands⟩ :=
    run_write (m := { m with storage := now }) offset data hwf hblock (by omega) hrange.2
  exact Op.Ends.bind_of_ok hrun (hok written hchanged hstands)

/-- The address of a field of a block, formed from that of a part of the
block. -/
theorem field_address (hwf : now.WellFormed) (hblock : HasBlock now base size)
    (hpart : part = base.shift start) (hfit : start + offset ≤ size) :
    part.plus offset = .ok (base.shift (start + offset)) := by
  obtain ⟨bytes, hbytes, hlength⟩ := hblock
  have hstart : base.toNat + start < 0x100000000 := hwf.contents_lt hbytes (by omega)
  have hbase : base.toNat + (start + offset) < 0x100000000 := hwf.contents_lt hbytes (by omega)
  rw [hpart, Address.plus_eq, Address.shift_shift hstart]
  rw [Address.toNat_shift hstart]
  omega

/-- A write to a field of a block whose address is formed first. -/
theorem ends_write_field (hwf : now.WellFormed) (hblock : HasBlock now base size)
    (hpart : part = base.shift start) (hwidth : data.length = width)
    (hrange : 0 < width ∧ start + offset + width ≤ size)
    (hok : ∀ written, Changed base (start + offset) (start + offset + width) now written →
      Stands written base (start + offset) data →
      (g ()).Ends { m with storage := written } post) :
    ((liftM (part.plus offset) : Op (Machine H) Address) >>= fun address =>
      Machine.write address data >>= g).Ends { m with storage := now } post := by
  refine Op.ends_lift_of_ok (field_address hwf hblock hpart (by omega)) ?_
  exact ends_write hwf hblock rfl hwidth hrange hok

/-- One more write to a stretch of a block. -/
theorem write_stretch {low high : Nat} {storage : Storage} {t : Machine H} {b : β}
    (hblock : HasBlock storage base size) (hchanged : Changed base low high storage m.storage)
    (haddress : address = base.shift offset) (hwidth : data.length = width)
    (hrange : low ≤ offset ∧ 0 < width ∧ offset + width ≤ high ∧ high ≤ size)
    (h : (Machine.write address data >>= g) m = (.ok b, t)) :
    ∃ written, Changed base low high storage written ∧ Stands written base offset data
      ∧ g () { m with storage := written } = (.ok b, t) := by
  obtain ⟨hlow, hpos, hhigh, hsize⟩ := hrange
  have hends : (Machine.write address data >>= g).Ends m fun r u =>
      ∃ written, Changed base low high storage written ∧ Stands written base offset data
        ∧ g () { m with storage := written } = (r, u) := by
    show (Machine.write address data >>= g).Ends { m with storage := m.storage } _
    refine ends_write hchanged.wellFormed (hblock.changed hchanged) haddress hwidth
      ⟨hpos, by omega⟩ fun written hstep hstands => ?_
    exact ⟨written, hchanged.trans (hstep.widen hlow hhigh), hstands, rfl⟩
  exact hends.ok h

end Machine

namespace Sim

open WorkArea

variable {m : Machine SimHost}

-- ============================================================ receiving

namespace Service

theorem ends_fiveParms {a b c d e : Address} {r1 : Address}
    (hlist : ParmList.decode m.storage r1 = .ok [a, b, c, d, e]) :
    (fiveParms r1).Ends m fun r t => r = .ok (a, b, c, d, e) ∧ t = m := by
  have hexact : ParmList.decodeExact m.storage r1 5 = .ok ⟨#[a, b, c, d, e], rfl⟩ := by
    unfold ParmList.decodeExact
    rw [hlist]
    rfl
  have hparms : parms 5 r1 m = (.ok ⟨#[a, b, c, d, e], rfl⟩, m) := Prod.ext hexact rfl
  exact Op.Ends.bind_of_ok hparms ⟨rfl, rfl⟩

/-- Looking for the caller's areas goes through and changes nothing. -/
theorem ends_callerAreas (hwf : m.storage.WellFormed) (cppl : Address) :
    (callerAreas cppl).Ends m fun r t => (∃ areas, r = .ok areas) ∧ t = m := by
  unfold callerAreas
  have hlength : cpplSize ≤ Storage.addressLimit := by decide
  rcases Storage.read_cases m.storage cppl hlength with ⟨bytes, hread⟩ | ⟨cause, hread⟩
  · have hfound : (Machine.read cppl cpplSize).attempt m = (.ok (.ok bytes), m) :=
      Op.run_attempt_of_ok (Prod.ext hread rfl)
    refine Op.Ends.bind_of_ok hfound ?_
    obtain ⟨base, held, offset, hheld, hcppl, hfit, -⟩ := Storage.read_ok hwf hread
    have hsize : offset + 16 ≤ held.length := hfit
    have hbase : base.toNat + offset < 0x100000000 := hwf.contents_lt hheld (by omega)
    have hword : ∀ displacement, displacement + 4 ≤ 16 →
        cppl.plus displacement = .ok (base.shift (offset + displacement))
          ∧ ∃ word, m.storage.readFull (base.shift (offset + displacement)) = .ok word := by
      intro displacement hle
      constructor
      · exact Machine.field_address hwf ⟨held, hheld, rfl⟩ hcppl (by omega)
      · unfold Storage.readFull
        rw [Storage.read_contents hwf hheld (by omega)]
        exact ⟨_, rfl⟩
    obtain ⟨hupt, upt, huptWord⟩ := hword 4 (by decide)
    obtain ⟨hpscb, pscb, hpscbWord⟩ := hword 8 (by decide)
    obtain ⟨hect, ect, hectWord⟩ := hword 12 (by decide)
    show (if cppl = 0 then _ else _ : Op (Machine SimHost) _).Ends m _
    split
    · exact ⟨⟨_, rfl⟩, rfl⟩
    · refine Op.ends_lift_of_ok hupt (Op.ends_examine_of_ok huptWord ?_)
      refine Op.ends_lift_of_ok hpscb (Op.ends_examine_of_ok hpscbWord ?_)
      refine Op.ends_lift_of_ok hect (Op.ends_examine_of_ok hectWord ?_)
      exact ⟨⟨_, rfl⟩, rfl⟩
  · have hfound : (Machine.read cppl cpplSize).attempt m = (.ok (.error cause), m) :=
      Op.run_attempt_of_error (Prod.ext hread rfl)
    exact Op.Ends.bind_of_ok hfound ⟨⟨_, rfl⟩, rfl⟩

/-- The call the services make of a request that was posted. -/
def callOf (ddname : String) (rc catalogRc area : Address) (offset : Nat) : AllocationCall :=
  { area, block := area.shift offset, rc, catalogRc,
    requested := CodePage.decodeField (CodePage.encodeField 8 ddname) }

section Request

variable {ddname : String} {bytes : Bytes} {cppl name rc catalogRc area r1 : Address}
  {offset : Nat} (hsent : WorkArea.Sent m.storage bytes ddname cppl name rc catalogRc area r1)
include hsent

/-- A call is taken in: of the area only the list of the service's own
changes. -/
theorem receive_ends (hoffset : offset ≤ size) :
    (receive r1 offset).Ends m fun r t => r = .ok (callOf ddname rc catalogRc area offset)
      ∧ t.host = m.host ∧ Changed area 0 20 m.storage t.storage := by
  refine (ends_fiveParms hsent.list).bind (fun p t ht => ?_) fun _ _ ht => by cases ht.1
  obtain ⟨hp, rfl⟩ := ht
  cases hp
  have hwhole : t.storage.read area size = .ok bytes := by
    have hread := Storage.read_contents hsent.wellFormed hsent.held
      (Nat.le_of_eq (Nat.zero_add bytes.length))
    rwa [Address.shift_zero, Field.slice_full, hsent.length] at hread
  refine Op.ends_examine_of_ok hwhole ?_
  refine (ends_callerAreas hsent.wellFormed cppl).bind (fun areas u hu => ?_) fun _ _ hu => ?_
  · obtain ⟨-, rfl⟩ := hu
    have hself : area = area.shift 0 := (Address.shift_zero area).symm
    have hlist : area.plus listOffset = .ok (area.shift (0 + listOffset)) :=
      Machine.field_address hsent.wellFormed hsent.areaBlock hself (by decide)
    have hblock : area.plus offset = .ok (area.shift (0 + offset)) :=
      Machine.field_address hsent.wellFormed hsent.areaBlock hself (by omega)
    have hecb : area.plus ecbOffset = .ok (area.shift (0 + ecbOffset)) :=
      Machine.field_address hsent.wellFormed hsent.areaBlock hself (by decide)
    have hword : ∀ value, (Word.ofFull value).length = 4 := Word.length_ofFull
    refine Op.ends_lift_of_ok hlist (Op.ends_lift_of_ok hblock ?_)
    have hstart : Changed area 0 20 u.storage u.storage := Changed.refl hsent.wellFormed
    have hgrow : ∀ {low : Nat} {now written : Storage}, Changed area 0 20 u.storage now →
        low + 4 ≤ 20 → Changed area low (low + 4) now written →
        Changed area 0 20 u.storage written :=
      fun hnow hlow hstep => hnow.trans (hstep.widen (Nat.zero_le _) hlow)
    show Op.Ends _ { u with storage := u.storage } _
    refine Machine.ends_write_field hstart.wellFormed hsent.areaBlock rfl (hword _) (by decide)
      fun st1 h1 _ => ?_
    have hst1 := hgrow hstart (by decide) h1
    refine Machine.ends_write_field hst1.wellFormed (hsent.areaBlock.changed hst1) rfl (hword _)
      (by decide) fun st2 h2 _ => ?_
    have hst2 := hgrow hst1 (by decide) h2
    have hthird : (area.shift (0 + listOffset)).plus 8 = .ok (area.shift (0 + listOffset + 8)) :=
      Machine.field_address hst2.wellFormed (hsent.areaBlock.changed hst2) rfl (by decide)
    refine Op.ends_lift_of_ok hthird (Op.ends_lift_of_ok hecb ?_)
    refine Machine.ends_write hst2.wellFormed (hsent.areaBlock.changed hst2) rfl (hword _)
      (by decide) fun st3 h3 _ => ?_
    have hst3 := hgrow hst2 (by decide) h3
    refine Machine.ends_write_field hst3.wellFormed (hsent.areaBlock.changed hst3) rfl (hword _)
      (by decide) fun st4 h4 _ => ?_
    have hst4 := hgrow hst3 (by decide) h4
    refine Machine.ends_write_field hst4.wellFormed (hsent.areaBlock.changed hst4) rfl (hword _)
      (by decide) fun st5 h5 _ => ?_
    have hst5 := hgrow hst4 (by decide) h5
    have hname : st5.read name 8 = .ok (CodePage.encodeField 8 ddname) := by
      have hstands := hsent.nameField.changed hst5 (.inl hsent.apart.1)
      have hread := hstands.read hst5.wellFormed
      rwa [Address.shift_zero, CodePage.length_encodeField] at hread
    refine Op.ends_examine_of_ok hname ⟨?_, rfl, hst5⟩
    rw [Nat.zero_add]
    rfl
  · obtain ⟨⟨_, hu⟩, -⟩ := hu
    cases hu

end Request

-- ============================================================ answering

/-- An answer stands in the request block at `block` of the work area. -/
structure Answered (storage : Storage) (area : Address) (block : Nat) (answer : AllocationAnswer) :
    Prop where
  wellFormed : storage.WellFormed
  whole : HasBlock storage area size
  rc : Stands storage area rcOffset (Word.ofSigned answer.rc)
  reason : Stands storage area (block + Header.reason) (Word.ofHalf answer.reason)
  catalog : Stands storage area (block + Header.catalog) (Word.ofHalf answer.catalogRc)
  flags : Stands storage area (block + Header.flags) [0]
  name : ∀ ddname, answer.ddname = some ddname →
    Stands storage area (block + Header.ddname) (CodePage.encodeField 8 ddname)

section Answer

-- the fields of both request blocks end in front of the return code
variable {area rc catalogRc : Address} {requested : String} {block : Nat}
  (hblock : block + 20 ≤ rcOffset)
include hblock

omit hblock in
theorem field_le {field width : Nat} (hblock : block + 20 ≤ rcOffset) (h : field + width ≤ 20) :
    block + field + width ≤ rcOffset ∧ block + field + width ≤ size := by
  unfold rcOffset at hblock ⊢
  unfold size
  omega

/-- Where the name of the DD goes in an area. -/
theorem leaveName_ends (hwf : m.storage.WellFormed) (harea : HasBlock m.storage area size)
    (ddname : Option String) :
    (leaveName (callOf requested rc catalogRc area block) ddname).Ends m fun r t =>
      r = .ok () ∧ ∃ storage, t = { m with storage }
        ∧ Changed area (block + Header.ddname) (block + Header.ddname + 8) m.storage storage
        ∧ ∀ name, ddname = some name →
          Stands storage area (block + Header.ddname) (CodePage.encodeField 8 name) := by
  cases ddname with
  | none => exact ⟨rfl, m.storage, rfl, Changed.refl hwf, fun _ h => by cases h⟩
  | some name =>
      have hwidth : (CodePage.encodeField 8 name).length = 8 := CodePage.length_encodeField 8 name
      have hfit : block + Header.ddname + 8 ≤ size := (field_le hblock (by decide)).2
      have haddress : (area.shift block).plus Header.ddname
          = .ok (area.shift (block + Header.ddname)) :=
        Machine.field_address hwf harea rfl (by omega)
      obtain ⟨written, hrun, hchanged, hstands⟩ := Machine.run_write
        (block + Header.ddname) (CodePage.encodeField 8 name) hwf harea (by omega)
        (by rw [hwidth]; exact hfit)
      refine Op.ends_lift_of_ok haddress ?_
      unfold Op.Ends
      rw [hrun]
      rw [hwidth] at hchanged
      refine ⟨rfl, written, rfl, hchanged, fun _ h => ?_⟩
      cases h
      exact hstands

/-- Leaving an answer goes through. -/
theorem finish_ends (hwf : m.storage.WellFormed) (harea : HasBlock m.storage area size)
    (hrc : HasBlock m.storage rc 4) (hcatalogRc : HasBlock m.storage catalogRc 4)
    (hapart : rc ≠ area ∧ catalogRc ≠ area) (answer : AllocationAnswer) :
    (finish (callOf requested rc catalogRc area block) answer).Ends m fun r t =>
      r = .ok answer.rc ∧ t.host = m.host ∧ Answered t.storage area block answer := by
  have hat : (callOf requested rc catalogRc area block).block = area.shift block := rfl
  have hself : area = area.shift 0 := (Address.shift_zero area).symm
  have hhalf : ∀ value : UInt16, (Word.ofHalf value).length = 2 := Word.length_ofHalf
  -- of two fields of the block the one at the lower offset comes first
  have hbefore : ∀ {field width next : Nat}, field + width ≤ next →
      block + field + width ≤ block + next := fun h => by omega
  show Op.Ends _ { m with storage := m.storage } _
  -- the codes in the request
  refine Machine.ends_write_field hwf harea hat (hhalf _) ⟨by decide, (field_le hblock (by decide)).2⟩
    fun st1 h1 hreason1 => ?_
  refine Machine.ends_write_field h1.wellFormed (harea.changed h1) hat (hhalf _)
    ⟨by decide, (field_le hblock (by decide)).2⟩ fun st2 h2 hcatalog2 => ?_
  have harea2 := (harea.changed h1).changed h2
  have hreason2 := hreason1.changed h2 (.inr (.inl (by rw [hhalf]; exact hbefore (by decide))))
  refine Machine.ends_write_field h2.wellFormed harea2 hat List.length_singleton
    ⟨by decide, (field_le hblock (by decide)).2⟩ fun st3 h3 hflags3 => ?_
  have harea3 := harea2.changed h3
  have hreason3 := hreason2.changed h3 (.inr (.inr (hbefore (by decide))))
  have hcatalog3 := hcatalog2.changed h3 (.inr (.inr (hbefore (by decide))))
  refine (leaveName_ends hblock (m := { m with storage := st3 }) h3.wellFormed harea3
    answer.ddname).bind (fun _ t ht => ?_) fun _ _ ht => by cases ht.1
  obtain ⟨-, st4, rfl, h4, hname4⟩ := ht
  have harea4 := harea3.changed h4
  have hreason4 := hreason3.changed h4 (.inr (.inl (by rw [hhalf]; exact hbefore (by decide))))
  have hcatalog4 := hcatalog3.changed h4 (.inr (.inl (by rw [hhalf]; exact hbefore (by decide))))
  have hflags4 := hflags3.changed h4 (.inr (.inl (hbefore (by decide))))
  -- the codes behind the request
  refine Machine.ends_write_field h4.wellFormed harea4 hself (Word.length_ofSigned _) (by decide)
    fun st5 h5 hrc5 => ?_
  have harea5 := harea4.changed h5
  refine Machine.ends_write_field h5.wellFormed harea5 hself (Word.length_ofFull _) (by decide)
    fun st6 h6 _ => ?_
  have harea6 := harea5.changed h6
  have hrc6 := hrc5.changed h6 (.inr (.inl (by rw [Word.length_ofSigned]; decide)))
  have hkeep : ∀ {offset : Nat} {data : Bytes}, offset + data.length ≤ rcOffset →
      Stands st4 area offset data → Stands st6 area offset data := by
    intro offset data hend h
    rw [← Nat.zero_add rcOffset] at hend
    exact (h.changed h5 (.inr (.inl hend))).changed h6
      (.inr (.inl (Nat.le_trans hend (by decide))))
  -- the two words
  have hkept : HasBlock st6 rc 4 ∧ HasBlock st6 catalogRc 4 := by
    constructor
    · exact (((((hrc.changed h1).changed h2).changed h3).changed h4).changed h5).changed h6
    · exact (((((hcatalogRc.changed h1).changed h2).changed h3).changed h4).changed h5).changed h6
  refine Machine.ends_write h6.wellFormed hkept.1 (Address.shift_zero rc).symm
    (Word.length_ofSigned _) (by decide) fun st7 h7 _ => ?_
  refine Machine.ends_write h7.wellFormed (hkept.2.changed h7) (Address.shift_zero catalogRc).symm
    (Word.length_ofFull _) (by decide) fun st8 h8 _ => ?_
  have hstill : ∀ {offset : Nat} {data : Bytes}, Stands st6 area offset data →
      Stands st8 area offset data :=
    fun h => (h.changed h7 (.inl hapart.1.symm)).changed h8 (.inl hapart.2.symm)
  refine ⟨rfl, rfl, h8.wellFormed, (harea6.changed h7).changed h8, ?_, ?_, ?_, ?_, ?_⟩
  · rw [Nat.zero_add] at hrc6
    exact hstill hrc6
  · exact hstill (hkeep (by rw [hhalf]; exact (field_le hblock (by decide)).1) hreason4)
  · exact hstill (hkeep (by rw [hhalf]; exact (field_le hblock (by decide)).1) hcatalog4)
  · exact hstill (hkeep (field_le hblock (by decide)).1 hflags4)
  · intro name hname
    refine hstill (hkeep ?_ (hname4 name hname))
    rw [CodePage.length_encodeField]
    exact (field_le hblock (by decide)).1

end Answer
end Service

namespace Catalog

/-- A dataset is found under its name. -/
theorem get?_define (catalog : Catalog) {dataset : Dataset} {dsname : String}
    (h : dataset.name = Text.upper dsname) :
    (catalog.define dataset).get? dsname = some dataset := by
  unfold get? define
  rw [h]
  exact Table.get?_insert_self _ _ _

theorem get?_define_ne (catalog : Catalog) {dataset : Dataset} {dsname : String}
    (h : Text.upper dsname ≠ dataset.name) :
    (catalog.define dataset).get? dsname = catalog.get? dsname :=
  Table.get?_insert_ne _ _ h

theorem get?_remove_ne (catalog : Catalog) {dsname other : String}
    (h : Text.upper other ≠ Text.upper dsname) :
    (catalog.remove dsname).get? other = catalog.get? other :=
  Table.get?_erase_ne _ h

theorem get?_remove_self (catalog : Catalog) {dsname other : String}
    (h : Text.upper other = Text.upper dsname) : (catalog.remove dsname).get? other = none := by
  unfold get? remove
  rw [h]
  exact Table.get?_erase_self _ _

end Catalog

/-- The DD stands for a dataset of output records, cataloged under its own
name, that holds `records`. -/
def HoldsRecords (host : SimHost) (ddname : String) (records : List Bytes) : Prop :=
  ∃ entry dataset, host.dds.lookup ddname = some entry
    ∧ host.catalog.get? entry.dsname = some dataset
    ∧ dataset.name = Text.upper entry.dsname
    ∧ dataset.body = .records Dataset.outputLrecl records

-- =========================================================== allocating

namespace Service

/-- The name of a temporary dataset. -/
def temporaryNameOf (now : DateTime) (number : UInt32) : String :=
  "SYS" ++ now.julian ++ ".T" ++ now.clockDigits ++ ".RA000.LUZ" ++ Text.decimalOf 5 number.toNat

/-- A dataset is at hand for a request, under its name: a new name for a
temporary dataset, one that is cataloged, or one that is made. -/
inductive Supplied (host : SimHost) (status : DatasetStatus) :
    Option String → String → SimHost → Prop where
  | temporary {number : UInt32} (h : Word.successor host.tempSeq = .ok number) :
      Supplied host status none (temporaryNameOf host.clock.now number)
        { host with tempSeq := number, clock := host.clock.tick }
  | cataloged {name : String} (h : host.catalog.contains name = true) :
      Supplied host status (some name) name host
  | made {name : String} (h : host.catalog.contains name = false)
      (hstatus : status = .new ∨ status = .mod) :
      Supplied host status (some name) name
        { host with catalog := host.catalog.define (Dataset.sequential name 80) }

variable {host after : SimHost} {status : DatasetStatus} {dsname : Option String}
  {ddname name : String}

/-- A dataset at hand is no DD yet. -/
theorem Supplied.kept (h : Supplied host status dsname name after) :
    after.dds = host.dds ∧ after.reply = host.reply := by
  cases h with
  | temporary => exact ⟨rfl, rfl⟩
  | cataloged => exact ⟨rfl, rfl⟩
  | made => exact ⟨rfl, rfl⟩

/-- The host with a DD for a dataset at hand, which is empty if it is a
temporary one. -/
def entered (supplied : SimHost) (entry : DdEntry) : SimHost :=
  { supplied with
    dds := supplied.dds.enter entry
    catalog :=
      if entry.temporary then supplied.catalog.define (temporaryDataset entry.dsname)
      else supplied.catalog }

/-- How the host meets a request for `ddname`; no dataset name asks
for a temporary dataset. -/
inductive Meets (host : SimHost) (ddname : String) (dsname : Option String)
    (status : DatasetStatus) : Outcome AllocationAnswer → SimHost → Prop where
  /-- There is no such dataset, and none is to be made. -/
  | missing {name : String} (hname : dsname = some name)
      (hcatalog : host.catalog.contains name = false) (hstatus : ¬(status = .new ∨ status = .mod)) :
      Meets host ddname dsname status (.ok (.refused dsnameNotFound 8)) host
  /-- There is no further number for a temporary dataset. -/
  | exhausted (hname : dsname = none) (h : Word.successor host.tempSeq = trap) :
      Meets host ddname dsname status trap host
  /-- The name is none of a DD. -/
  | flawed {name : String} {supplied : SimHost} (h : Supplied host status dsname name supplied)
      (hflaw : Name.ddnameFlaw? ddname ≠ none) :
      Meets host ddname dsname status (.ok .malformed) supplied
  /-- The name is in use. -/
  | inUse {name : String} {supplied : SimHost} (h : Supplied host status dsname name supplied)
      (hused : (host.dds.lookup ddname).isSome = true) :
      Meets host ddname dsname status (.ok (.refused ddnameInUse 0)) supplied
  /-- The DD is entered. -/
  | bound {name : String} {supplied : SimHost} (h : Supplied host status dsname name supplied)
      (hflaw : Name.ddnameFlaw? ddname = none) (hnew : host.dds.lookup ddname = none) :
      Meets host ddname dsname status
        (.ok { ddname := some (reportedName host.reply (Text.upper ddname)) })
        (entered supplied { ddname := Text.upper ddname, dsname := Text.upper name, status,
                            temporary := dsname.isNone })
  /-- The host makes up a name of its own, if there is a further one. -/
  | madeUp {name : String} {supplied after : SimHost} {r : Outcome AllocationAnswer}
      (h : Supplied host status dsname name supplied) (hreply : host.reply = .system)
      (hr : r = trap ∨ ∃ answer, r = .ok answer ∧ answer.rc = 0 ∧ answer.reason = 0) :
      Meets host ddname dsname status r after

/-- Entering a DD for a dataset that is at hand. -/
theorem bind_meets (call : AllocationCall) (hnamed : call.requested ≠ "")
    (h : Supplied host status dsname name m.host) :
    (Service.bind call name status dsname.isNone).Ends m fun r t => t.storage = m.storage
      ∧ Meets host call.requested dsname status r t.host := by
  obtain ⟨hdds, hreply⟩ := h.kept
  refine Op.ends_gets_bind ?_
  by_cases hsystem : m.host.reply = .system
  · simp only [hsystem, true_or, if_true]
    rw [hreply] at hsystem
    rcases DdTable.allocate_madeUp m.host.dds name status dsname.isNone with
      htrap | ⟨ddname, table, -, hentered⟩
    · rw [htrap]
      exact ⟨rfl, .madeUp h hsystem (.inl rfl)⟩
    · refine Op.ends_lift_of_ok hentered ⟨rfl, .madeUp h hsystem (.inr ⟨_, rfl, rfl, rfl⟩)⟩
  · simp only [hsystem, hnamed, or_self, if_false]
    unfold DdTable.allocate
    cases hflaw : Name.ddnameFlaw? call.requested with
    | some flaw =>
        simp only [hflaw]
        exact ⟨rfl, .flawed h (by rw [hflaw]; exact Option.some_ne_none _)⟩
    | none =>
        simp only [hflaw, DdTable.enterNew_eq]
        split
        · next hcontains =>
          refine ⟨rfl, .inUse h ?_⟩
          rw [← hdds]
          exact hcontains
        · next hcontains =>
          have hnew : host.dds.lookup call.requested = none := by
            rw [← hdds]
            unfold Table.contains at hcontains
            unfold DdTable.lookup
            simpa using hcontains
          have hmeets := Meets.bound h hflaw hnew
          refine ⟨rfl, ?_⟩
          rw [← hreply] at hmeets
          have hname : temporaryDataset (Text.upper name) = temporaryDataset name := by
            unfold temporaryDataset Dataset.sequential
            rw [Text.upper_upper]
          unfold entered at hmeets
          rw [hname] at hmeets
          exact hmeets

/-- The name of a temporary dataset. -/
theorem temporary_meets (call : AllocationCall) (hnamed : call.requested ≠ "")
    (status : DatasetStatus) :
    (temporaryName >>= fun name => Service.bind call name status true).Ends m fun r t =>
      t.storage = m.storage ∧ Meets m.host call.requested none status r t.host := by
  have hmade : temporaryName.Ends m fun r t => t.storage = m.storage
      ∧ ((r = trap ∧ t = m ∧ Word.successor m.host.tempSeq = trap)
        ∨ ∃ name, r = .ok name ∧ Supplied m.host status none name t.host) := by
    refine Op.ends_gets_bind ?_
    rcases successor_cases m.host.tempSeq with ⟨number, hnext⟩ | hfull
    · exact Op.ends_lift_of_ok hnext ⟨rfl, .inr ⟨_, rfl, .temporary hnext⟩⟩
    · have hstop : (liftM (Word.successor m.host.tempSeq) : Op (Machine SimHost) UInt32) m
          = (.error .trap, m) := Prod.ext hfull rfl
      unfold Op.Ends
      rw [Op.run_bind_of_fault hstop]
      exact ⟨rfl, .inl ⟨rfl, rfl, hfull⟩⟩
  refine hmade.bind (fun name t ht => ?_) fun fault t ht => ?_
  · obtain ⟨hstorage, ⟨hr, -⟩ | ⟨_, hr, hsupplied⟩⟩ := ht
    · cases hr
    · cases hr
      refine (bind_meets call hnamed hsupplied).mono fun r u hu => ⟨hu.1.trans hstorage, hu.2⟩
  · obtain ⟨hstorage, ⟨hr, rfl, hfull⟩ | ⟨_, hr, -⟩⟩ := ht
    · cases hr
      exact ⟨rfl, .exhausted rfl hfull⟩
    · cases hr

/-- A dataset that is named. -/
theorem named_meets (call : AllocationCall) (hnamed : call.requested ≠ "")
    (status : DatasetStatus) (name : String) :
    (ensureDataset name status >>= fun found =>
      if found then Service.bind call name status false
      else pure (.refused dsnameNotFound 8)).Ends m fun r t =>
        t.storage = m.storage ∧ Meets m.host call.requested (some name) status r t.host := by
  have hensured : (ensureDataset name status).Ends m fun r t => t.storage = m.storage
      ∧ (r = .ok true ∧ Supplied m.host status (some name) name t.host
        ∨ r = .ok false ∧ t = m ∧ m.host.catalog.contains name = false
          ∧ ¬(status = .new ∨ status = .mod)) := by
    refine Op.ends_gets_bind ?_
    split
    · next hcontains => exact ⟨rfl, .inl ⟨rfl, .cataloged hcontains⟩⟩
    · next hcontains =>
      split
      · next hstatus => exact ⟨rfl, .inl ⟨rfl, .made (by simpa using hcontains) hstatus⟩⟩
      · next hstatus => exact ⟨rfl, .inr ⟨rfl, rfl, by simpa using hcontains, hstatus⟩⟩
  refine hensured.bind (fun found t ht => ?_) fun _ _ ht => ?_
  · obtain ⟨hstorage, ⟨hr, hsupplied⟩ | ⟨hr, rfl, hcontains, hstatus⟩⟩ := ht
    · cases hr
      refine (bind_meets call hnamed hsupplied).mono fun r u hu => ⟨hu.1.trans hstorage, hu.2⟩
    · cases hr
      exact ⟨rfl, .missing rfl hcontains hstatus⟩
  · obtain ⟨-, ⟨hr, -⟩ | ⟨hr, -⟩⟩ := ht
    · cases hr
    · cases hr

/-- The dataset that a request names: none for an empty name. -/
def datasetOf (dsname : String) : Option String :=
  if dsname = "" then none else some (Text.upper dsname)

/-- An allocate request stands in the work area at `area`. -/
structure Requests (storage : Storage) (area : Address) (dsname : String)
    (status : DatasetStatus) : Prop where
  code : Stands storage area (allocateOffset + Header.code) (Word.ofHalf allocateCode)
  pointer : Stands storage area (allocateOffset + Header.dsname)
    (Word.ofFull (area.shift dsnameOffset))
  status : Stands storage area (allocateOffset + Header.status) [status.flag]
  length : Stands storage area dsnameOffset
    (Word.ofHalf (UInt16.ofNat (min dsname.toList.length dsnameLimit)))
  name : Stands storage area (dsnameOffset + 2) (CodePage.encodeField dsnameLimit dsname)

/-- The service's own list is in front of the request. -/
theorem Requests.changed {storage after : Storage} {area : Address} {dsname : String}
    {status : DatasetStatus} (h : Requests storage area dsname status)
    (hchanged : Changed area 0 20 storage after) : Requests after area dsname status where
  code := h.code.changed hchanged (.inr (.inr (by decide)))
  pointer := h.pointer.changed hchanged (.inr (.inr (by decide)))
  status := h.status.changed hchanged (.inr (.inr (by decide)))
  length := h.length.changed hchanged (.inr (.inr (by decide)))
  name := h.name.changed hchanged (.inr (.inr (by decide)))

/-- The host reads the name that arrives. -/
theorem requestedDsname_ends {area : Address} {dsname : String} {status : DatasetStatus}
    (hwf : m.storage.WellFormed) (hasks : Requests m.storage area dsname status) :
    (requestedDsname (area.shift dsnameOffset)).Ends m fun r t =>
      r = .ok (received dsname) ∧ t = m := by
  obtain ⟨bytes, hheld, hfit, hslice⟩ := hasks.name
  rw [CodePage.length_encodeField] at hfit hslice
  have hnonzero : area.shift dsnameOffset ≠ 0 := by
    obtain ⟨block, hmem, -, -⟩ := Storage.contents_eq_some hheld
    have hlow := (hwf.placed _ hmem).1
    have hshift : (area.shift dsnameOffset).toNat = area.toNat + dsnameOffset :=
      Address.toNat_shift (hwf.contents_lt hheld (by omega))
    intro hzero
    rw [hzero] at hshift
    simp only [Storage.regionStart] at hlow
    simp at hshift
    omega
  have hstart : (area.shift dsnameOffset).plus 2 = .ok (area.shift (dsnameOffset + 2)) :=
    Machine.field_address hwf ⟨bytes, hheld, rfl⟩ rfl (by omega)
  have hcount : min (UInt16.ofNat (min dsname.toList.length dsnameLimit)).toNat dsnameLimit
      = min dsname.toList.length dsnameLimit := by
    have hsmall : min dsname.toList.length dsnameLimit < UInt16.size := by
      unfold dsnameLimit UInt16.size
      omega
    rw [UInt16.toNat_ofNat_of_lt' hsmall, Nat.min_eq_left (Nat.min_le_right _ _)]
  have hread : m.storage.read (area.shift (dsnameOffset + 2))
      (min dsname.toList.length dsnameLimit)
        = .ok ((CodePage.encodeField dsnameLimit dsname).take
          (min dsname.toList.length dsnameLimit)) := by
    rw [Storage.read_contents hwf hheld (by omega), ← hslice]
    unfold Field.slice
    rw [List.take_take, Nat.min_eq_left (Nat.min_le_right _ _)]
  unfold requestedDsname
  rw [if_neg hnonzero]
  refine Op.ends_examine_of_ok (hasks.length.readHalf hwf) ?_
  refine Op.ends_lift_of_ok hstart ?_
  rw [hcount]
  exact Op.ends_examine_of_ok hread ⟨rfl, rfl⟩

/-- The host meets the request that stands in the area. -/
theorem allocateAs_meets {requested dsname : String} {area rc catalogRc : Address}
    {status : DatasetStatus} (hwf : m.storage.WellFormed) (harea : HasBlock m.storage area size)
    (hasks : Requests m.storage area dsname status)
    (hnamed : (callOf requested rc catalogRc area allocateOffset).requested ≠ "") :
    (allocateAs (callOf requested rc catalogRc area allocateOffset) status).Ends m fun r t =>
      t.storage = m.storage
        ∧ Meets m.host (callOf requested rc catalogRc area allocateOffset).requested
          (datasetOf (received dsname)) status r t.host := by
  have haddress : (area.shift allocateOffset).plus Header.dsname
      = .ok (area.shift (allocateOffset + Header.dsname)) :=
    Machine.field_address hwf harea rfl (by decide)
  refine Op.ends_lift_of_ok haddress ?_
  refine Op.ends_examine_of_ok (hasks.pointer.readFull hwf) ?_
  refine (requestedDsname_ends hwf hasks).bind (fun found t ht => ?_) fun _ _ ht => by cases ht.1
  obtain ⟨hfound, rfl⟩ := ht
  cases hfound
  unfold datasetOf
  split
  · exact temporary_meets _ hnamed status
  · exact named_meets _ hnamed status _

theorem ofFlag?_flag (status : DatasetStatus) : DatasetStatus.ofFlag? status.flag = some status := by
  cases status <;> rfl

/-- The only fault of a host is a trap. -/
theorem Meets.fault {fault : Fault} (h : Meets host ddname dsname status (.error fault) after) :
    fault = .trap := by
  generalize houtcome : (.error fault : Outcome AllocationAnswer) = outcome at h
  cases h with
  | exhausted =>
      cases houtcome
      rfl
  | madeUp _ _ hr =>
      rcases hr with rfl | ⟨_, rfl, -⟩
      · cases houtcome
        rfl
      · cases houtcome
  | _ => cases houtcome

/-- What a request does to the table of a host that answers with the name
asked for. -/
theorem Meets.table {outcome : Outcome AllocationAnswer}
    (h : Meets host ddname dsname status outcome after) (hreply : host.reply = .requested) :
    after.dds = host.dds ∧ (∀ answer, outcome = .ok answer → answer.rc ≠ 0)
      ∨ outcome = .ok { ddname := some (Text.upper ddname) }
        ∧ DdTable.Entered ddname host.dds after.dds
        ∧ (dsname = none → HoldsRecords after ddname []) := by
  cases h with
  | missing => exact .inl ⟨rfl, fun _ h => by cases h; decide⟩
  | exhausted => exact .inl ⟨rfl, fun _ h => by cases h⟩
  | flawed h => exact .inl ⟨h.kept.1, fun _ h => by cases h; decide⟩
  | inUse h => exact .inl ⟨h.kept.1, fun _ h => by cases h; decide⟩
  | @bound name supplied h hflaw hnew =>
      have hentered : DdTable.Entered ddname host.dds (supplied.dds.enter
          ⟨Text.upper ddname, Text.upper name, status, dsname.isNone⟩) :=
        ⟨hflaw, hnew, _, rfl, congrArg (DdTable.enter · _) h.kept.1⟩
      refine .inr ⟨by rw [hreply]; rfl, hentered, fun hnone => ?_⟩
      · subst hnone
        refine ⟨_, temporaryDataset (Text.upper name), Table.get?_insert_self _ _ _, ?_, ?_, rfl⟩
        · exact Catalog.get?_define _ rfl
        · rfl
  | madeUp _ hsystem _ =>
      rw [hreply] at hsystem
      cases hsystem

-- ============================================================== freeing

/-- The host without a DD, and without its dataset if that is a temporary
one. -/
def freed (host : SimHost) (ddname : String) : SimHost :=
  match host.dds.lookup ddname with
  | none => host
  | some entry =>
    { host with
      dds := host.dds.without ddname
      catalog := if entry.temporary then host.catalog.remove entry.dsname else host.catalog }

theorem freed_dds (host : SimHost) (ddname : String) :
    (freed host ddname).dds = host.dds.without ddname := by
  unfold freed
  cases hlookup : host.dds.lookup ddname with
  | none =>
      exact (DdTable.without_absent hlookup).symm
  | some entry => rfl

/-- A DD that is freed takes its own dataset along, if any. -/
theorem freed_catalog (host : SimHost) (ddname : String) :
    (freed host ddname).catalog = host.catalog
      ∨ ∃ entry, host.dds.lookup ddname = some entry
        ∧ (freed host ddname).catalog = host.catalog.remove entry.dsname := by
  unfold freed
  cases hlookup : host.dds.lookup ddname with
  | none => exact .inl rfl
  | some entry =>
      cases htemporary : entry.temporary with
      | false => exact .inl (by simp [htemporary])
      | true => exact .inr ⟨entry, rfl, by simp [htemporary]⟩

/-- What the free service answers. -/
def freeAnswer (host : SimHost) (ddname : String) : AllocationAnswer :=
  match host.freeFailure with
  | some reason => .refused reason 0
  | none =>
    match host.dds.lookup ddname with
    | none => .refused ddnameNotFound 0
    | some entry => { ddname := some entry.ddname }

theorem unbind_ends (call : AllocationCall) (hfailure : m.host.freeFailure = none) :
    (unbind call).Ends m fun r t => r = .ok (freeAnswer m.host call.requested)
      ∧ t = { m with host := freed m.host call.requested } := by
  have hanswer : freeAnswer m.host call.requested
      = match m.host.dds.lookup call.requested with
        | none => .refused ddnameNotFound 0
        | some entry => { ddname := some entry.ddname } := by
    unfold freeAnswer
    rw [hfailure]
  rw [hanswer]
  refine Op.ends_gets_bind ?_
  unfold DdTable.unallocate freed
  cases m.host.dds.lookup call.requested with
  | none => exact ⟨rfl, rfl⟩
  | some entry => exact ⟨rfl, rfl⟩

-- ============================================================== services

section Request

variable {bytes : Bytes} {cppl ddarea rc catalogRc area r1 : Address} {wanted : String}
  (hsent : WorkArea.Sent m.storage bytes ddname cppl ddarea rc catalogRc area r1)
include hsent

/-- The allocate service meets the request that was posted, and its answer
stands in the work area. -/
theorem allocate_meets (hfield : CodePage.decodeField (CodePage.encodeField 8 ddname) = ddname)
    (hnonempty : ddname ≠ "") (hasks : Asks bytes area wanted status) :
    (allocate r1).Ends m fun r t => ∃ outcome,
      Meets m.host ddname (datasetOf (received wanted)) status outcome t.host
        ∧ (∀ answer, outcome = .ok answer → r = .ok answer.rc
          ∧ Answered t.storage area allocateOffset answer)
        ∧ ∀ fault, outcome = .error fault → r = .error fault := by
  have hrequest : Requests m.storage area wanted status := by
    constructor
    · exact hsent.stands (by rw [Word.length_ofHalf]; exact hasks.code) (by decide)
    · exact hsent.stands (by rw [Word.length_ofFull]; exact hasks.pointer)
        (by rw [Word.length_ofFull]; decide)
    · exact hsent.stands hasks.status (by rw [List.length_singleton]; decide)
    · exact hsent.stands (by rw [Word.length_ofHalf]; exact hasks.length)
        (by rw [Word.length_ofHalf]; decide)
    · exact hsent.stands (by rw [CodePage.length_encodeField]; exact hasks.name)
        (by rw [CodePage.length_encodeField]; decide)
  refine (receive_ends hsent (by decide)).bind (fun call t ht => ?_) fun _ _ ht => by cases ht.1
  obtain ⟨hcall, hhost, hchanged⟩ := ht
  cases hcall
  have hwf := hchanged.wellFormed
  have harea := hsent.areaBlock.changed hchanged
  have hstands := hrequest.changed hchanged
  have hplus : ∀ {offset : Nat}, allocateOffset + offset ≤ size →
      (area.shift allocateOffset).plus offset = .ok (area.shift (allocateOffset + offset)) :=
    fun hfit => Machine.field_address hwf harea rfl hfit
  refine Op.ends_lift_of_ok (hplus (by decide)) ?_
  refine Op.ends_examine_of_ok (hstands.code.readHalf hwf) ?_
  rw [if_neg (fun h => h rfl)]
  refine Op.ends_lift_of_ok (hplus (by decide)) ?_
  refine Op.ends_examine_of_ok (hstands.status.read hwf) ?_
  simp only [List.headD_cons, ofFlag?_flag]
  have hrequested : (callOf ddname rc catalogRc area allocateOffset).requested = ddname :=
    hfield
  refine (allocateAs_meets hwf harea hstands (by rw [hrequested]; exact hnonempty)).bind
    (fun answer u hu => ?_) fun fault u hu => ?_
  · obtain ⟨hstorage, hmeets⟩ := hu
    rw [hrequested, hhost] at hmeets
    have hblocks : u.storage.WellFormed ∧ HasBlock u.storage area size
        ∧ HasBlock u.storage rc 4 ∧ HasBlock u.storage catalogRc 4 := by
      rw [hstorage]
      exact ⟨hwf, harea, hsent.rcBlock.changed hchanged, hsent.catalogRcBlock.changed hchanged⟩
    refine (finish_ends (by decide) hblocks.1 hblocks.2.1 hblocks.2.2.1 hblocks.2.2.2 hsent.apart.2
      answer).mono fun r v hv => ⟨.ok answer, ?_, fun _ h => ?_, fun _ h => by cases h⟩
    · rw [hv.2.1]
      exact hmeets
    · cases h
      exact ⟨hv.1, hv.2.2⟩
  · obtain ⟨-, hmeets⟩ := hu
    rw [hrequested, hhost] at hmeets
    refine ⟨.error fault, hmeets, fun _ h => ?_, fun _ h => ?_⟩
    · cases h
    · cases h
      rfl

/-- The free service takes the DD out, unless the host refuses every free,
and its answer stands in the work area. -/
theorem free_ends (hfield : CodePage.decodeField (CodePage.encodeField 8 ddname) = ddname)
    (hcode : Field.slice bytes (freeOffset + Header.code) 2 = Word.ofHalf freeCode) :
    (free r1).Ends m fun r t =>
      t.host = (if m.host.freeFailure.isSome then m.host else freed m.host ddname)
        ∧ r = .ok (freeAnswer m.host ddname).rc
        ∧ Answered t.storage area freeOffset (freeAnswer m.host ddname) := by
  refine (receive_ends hsent (by decide)).bind (fun call t ht => ?_) fun _ _ ht => by cases ht.1
  obtain ⟨hcall, hhost, hchanged⟩ := ht
  cases hcall
  have hwf := hchanged.wellFormed
  have harea := hsent.areaBlock.changed hchanged
  have haddress : (area.shift freeOffset).plus Header.code
      = .ok (area.shift (freeOffset + Header.code)) :=
    Machine.field_address hwf harea rfl (by decide)
  have hread : t.storage.readHalf (area.shift (freeOffset + Header.code)) = .ok freeCode := by
    have hstands : Stands m.storage area (freeOffset + Header.code) (Word.ofHalf freeCode) :=
      hsent.stands (by rwa [Word.length_ofHalf]) (by decide)
    exact (hstands.changed hchanged (.inr (.inr (by decide)))).readHalf hwf
  refine Op.ends_lift_of_ok haddress (Op.ends_examine_of_ok hread ?_)
  rw [if_neg (fun h => h rfl)]
  refine Op.ends_gets_bind ?_
  -- whatever host it is answered for, the answer goes through
  have hfinish : ∀ (host : SimHost) (answer : AllocationAnswer),
      (finish (callOf ddname rc catalogRc area freeOffset) answer).Ends { t with host } fun r u =>
        r = .ok answer.rc ∧ u.host = host ∧ Answered u.storage area freeOffset answer :=
    fun host answer => finish_ends (m := { t with host }) (by decide) hwf harea
      (hsent.rcBlock.changed hchanged) (hsent.catalogRcBlock.changed hchanged) hsent.apart.2 answer
  rw [← hhost]
  cases hfailure : t.host.freeFailure with
  | some reason =>
      have hanswer : freeAnswer t.host ddname = .refused reason 0 := by
        unfold freeAnswer
        rw [hfailure]
      rw [hanswer]
      exact (hfinish t.host _).mono fun r u hu => ⟨hu.2.1, hu.1, hu.2.2⟩
  | none =>
      have hrequested : (callOf ddname rc catalogRc area freeOffset).requested = ddname := hfield
      have hunbind := unbind_ends (m := t) (callOf ddname rc catalogRc area freeOffset) hfailure
      rw [hrequested] at hunbind
      refine hunbind.bind (fun answer u hu => ?_) fun _ _ hu => by cases hu.1
      obtain ⟨hanswer, rfl⟩ := hu
      cases hanswer
      exact (hfinish _ _).mono fun r u hu => ⟨hu.2.1, hu.1, hu.2.2⟩

end Request
end Service
end Sim
end TsoBridge
