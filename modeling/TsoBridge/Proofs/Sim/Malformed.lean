/-
The services on parameters that may be anything. Whatever words a list and
the blocks behind it hold, a service answers: its sums are formed from
parameters of thirty-one bits or from pointers that were used before, so
what is wrong shows as an access that fails, never as a trap. Three sums
are no addresses, the next numbers of datasets, tokens and DD names; a
service traps where one of them is at its last value (`Exhausted`).

# The evaluation block

One pointer is added to before anything is done with it: the interpreter
takes the word that points to the evaluation block as it is. Near the end
of the fullwords the address of the result's length is none
(`Misplaced`).

# What an answer tells

A service that does not answer with the code for wrong parameters has read
or written at the addresses it needs, so they lie in blocks of the storage
it leaves (`Usable`).
-/
import TsoBridge.Proofs.Safety
import TsoBridge.Proofs.Sim.Orderly

namespace TsoBridge

open Storage (Covers Extends)

-- =============================================================== machines

namespace Machine

variable {H : Type} {spent : Machine H → Prop} {m t : Machine H} {address : Address}
  {width : Nat}

/-- A write went through. -/
structure Wrote (m : Machine H) (address : Address) (width : Nat) (t : Machine H) : Prop where
  host : t.host = m.host
  grown : Extends m.storage t.storage
  covers : t.storage.Covers address width

/-- Writing does not trap, and covers the stretch it wrote. -/
theorem safe_write {data : Bytes} (hwf : m.storage.WellFormed)
    (hdata : data.length ≤ Word.runLimit) :
    (Machine.write address data : Op (Machine H) Unit).Safe spent m fun _ t =>
      Wrote m address data.length t := by
  unfold Machine.write Machine.onStorage
  cases hwrite : m.storage.write address data with
  | error fault =>
      have hrun : Op.update (fun storage => do return ((), ← storage.write address data)) m.storage
          = (.error fault, m.storage) := Op.update_of_fault (by rw [hwrite]; rfl)
      unfold Op.Safe Op.Ends
      rw [Op.run_on hrun]
      refine ⟨fun htrap => ?_, fun a ha => ?_⟩
      · cases htrap
        exact absurd hwrite (Storage.write_untrapped _ _ hdata)
      · cases ha
  | ok written =>
      have hrun : Op.update (fun storage => do return ((), ← storage.write address data)) m.storage
          = (.ok (), written) := Op.update_of_ok (by rw [hwrite]; rfl)
      obtain ⟨hgrown, hcovers⟩ := Storage.write_extends hwf hwrite
      unfold Op.Safe Op.Ends
      rw [Op.run_on hrun]
      refine ⟨fun htrap => ?_, fun a ha => ⟨rfl, hgrown, hgrown.covers hcovers⟩⟩
      cases htrap

/-- Nor does writing a word. -/
theorem safe_writeFull (value : UInt32) (hwf : m.storage.WellFormed) :
    (Machine.writeFull address value : Op (Machine H) Unit).Safe spent m fun _ t =>
      Wrote m address 4 t := by
  have hwrite : (Machine.write address (Word.ofFull value) : Op (Machine H) Unit).Safe spent m
      fun _ t => Wrote m address (Word.ofFull value).length t :=
    safe_write hwf (by rw [Word.length_ofFull]; decide)
  rwa [Word.length_ofFull] at hwrite

theorem safe_writeSigned (value : Int32) (hwf : m.storage.WellFormed) :
    (Machine.writeSigned address value : Op (Machine H) Unit).Safe spent m fun _ t =>
      Wrote m address 4 t :=
  safe_writeFull value.toUInt32 hwf

/-- A block was obtained. -/
theorem safe_obtain {length : Nat} (subpool : UInt8) (hwf : m.storage.WellFormed)
    (hlength : length ≤ Storage.addressLimit) :
    (Machine.obtain subpool length : Op (Machine H) Address).Safe spent m fun address t =>
      Wrote m address length t := by
  unfold Machine.obtain Machine.onStorage
  cases hobtain : m.storage.obtain subpool length with
  | error fault =>
      unfold Op.Safe Op.Ends
      rw [Op.run_on (Op.update_of_fault hobtain)]
      refine ⟨fun htrap => ?_, fun a ha => ?_⟩
      · cases htrap
        exact absurd hobtain (Storage.obtain_untrapped hwf subpool (Storage.le_runLimit hlength))
      · cases ha
  | ok pair =>
      obtain ⟨found, larger⟩ := pair
      obtain ⟨hgrown, hcovers⟩ := Storage.obtain_extends hwf hobtain
      unfold Op.Safe Op.Ends
      rw [Op.run_on (Op.update_of_ok hobtain)]
      refine ⟨fun htrap => ?_, fun a ha => ?_⟩
      · cases htrap
      · cases ha
        exact ⟨rfl, hgrown, hcovers⟩

end Machine

namespace Sim

open WorkArea

variable {m : Machine SimHost} {r1 : Address}

-- =============================================================== counters

/-- A counter was at its last value, and still is. -/
inductive Exhausted (before after : SimHost) : Prop where
  | dataset (h : UInt32.size ≤ before.tempSeq.toNat + 1) (hsame : after.tempSeq = before.tempSeq)
  | token (h : UInt32.size ≤ before.nextToken.toNat + 1)
      (hsame : after.nextToken = before.nextToken)
  | ddname (h : UInt32.size ≤ before.dds.nextNumber.toNat + 1)
      (hsame : after.dds.nextNumber = before.dds.nextNumber)

-- ================================================================ services

/-- How many parameters a module takes. -/
def parmCounts (module : String) : List Nat :=
  if module ∈ ["IKJTSOEV", "TSODALC", "TSODFRE"] then [5]
  else if module ∈ Invocation.prepareModules then [6]
  else if module ∈ ["IKJEFTSR", "TSOEFTR"] then [9, 10]
  else if module = "IRXEXEC" then [10]
  else []

/-- The parameters at which a module reads or writes in any case, with the
number of bytes. -/
def needs (module : String) : List (Nat × Nat) :=
  if module = "IKJTSOEV" then [(1, 4), (2, 4), (3, 4), (4, 4)]
  else if module ∈ ["TSODALC", "TSODFRE"] then [(1, 8), (2, 4), (3, 4), (4, WorkArea.size)]
  else if module ∈ Invocation.prepareModules then [(2, tokenSize), (3, 4), (4, 4), (5, 4)]
  else if module ∈ ["IKJEFTSR", "TSOEFTR"] then [(0, 4), (3, 4), (4, 4), (5, 4)]
  else [(0, 4), (9, 4)]

/-- A list a module can use: of the right length, and what it needs lies
in blocks. -/
structure Usable (module : String) (storage : Storage) (words : List Address) : Prop where
  count : words.length ∈ parmCounts module
  covered : ∀ need ∈ needs module, ∃ address, words[need.1]? = some address
    ∧ storage.Covers address need.2

/-- What the prepare service is told to write to. -/
theorem needs_prepare {module : String} (h : module ∈ Invocation.prepareModules) :
    parmCounts module = [6]
      ∧ needs module = [(2, tokenSize), (3, 4), (4, 4), (5, 4)] := by
  simp only [Invocation.prepareModules, List.mem_cons, List.not_mem_nil, or_false] at h
  rcases h with rfl | rfl
  · exact ⟨by decide, by decide⟩
  · exact ⟨by decide, by decide⟩

/-- The same for the execute services. -/
theorem needs_execute {module : String} (h : module ∈ ["IKJEFTSR", "TSOEFTR"]) :
    parmCounts module = [9, 10] ∧ needs module = [(0, 4), (3, 4), (4, 4), (5, 4)] := by
  simp only [List.mem_cons, List.not_mem_nil, or_false] at h
  rcases h with rfl | rfl
  · exact ⟨by decide, by decide⟩
  · exact ⟨by decide, by decide⟩

namespace Service

variable {spent : Machine SimHost → Prop} {α : Type}

/-- Parameters are read without a trap, and each is an address. -/
theorem safe_parms (count : Nat) (hwf : m.storage.WellFormed) :
    (parms count r1).Safe spent m fun p t => t = m
      ∧ ParmList.decode m.storage r1 = .ok p.toList
      ∧ ∀ word ∈ p.toList, word.toNat ≤ Storage.addressLimit := by
  refine ⟨fun htrap => ?_, fun p hp => ⟨rfl, ParmList.decodeExact_decode hp⟩⟩
  exact absurd htrap (ParmList.decodeExact_untrapped hwf r1 count)

/-- The same for a list of five. -/
theorem safe_fiveParms (hwf : m.storage.WellFormed) :
    (fiveParms r1).Safe spent m fun p t => t = m
      ∧ ParmList.decode m.storage r1 = .ok [p.1, p.2.1, p.2.2.1, p.2.2.2.1, p.2.2.2.2]
      ∧ p.2.2.2.2.toNat ≤ Storage.addressLimit := by
  refine (safe_parms 5 hwf).bind fun p t ht => Op.safe_pure ?_
  obtain ⟨rfl, hdecode, hle⟩ := ht
  have hlist : p.toList = [p[0], p[1], p[2], p[3], p[4]] := by
    apply List.ext_getElem (by simp)
    intro i hi _
    rw [Vector.length_toList] at hi
    interval_cases i <;> rfl
  rw [hlist] at hdecode hle
  exact ⟨rfl, hdecode, hle _ (by simp)⟩


/-- A change of the host does not trap. -/
theorem safe_modifyHost_bind {f : SimHost → SimHost} {rest : Unit → Op (Machine SimHost) α}
    {post : α → Machine SimHost → Prop}
    (h : (rest ()).Safe spent { m with host := f m.host } post) :
    (modifyHost f >>= rest).Safe spent m post :=
  h

/-- A word goes to a displacement that is an address, and on it goes. -/
theorem safe_writeFull_at {offset : Nat} {address : Address} {value : UInt32}
    {rest : Unit → Op (Machine SimHost) α} {post : α → Machine SimHost → Prop}
    (hwf : m.storage.WellFormed) (haddress : address.toNat + offset < UInt32.size)
    (hrest : ∀ t, Machine.Wrote m (address.shift offset) 4 t → (rest ()).Safe spent t post) :
    ((liftM (address.plus offset) : Op (Machine SimHost) Address) >>= fun place =>
      Machine.writeFull place value >>= rest).Safe spent m post := by
  refine Op.safe_lift_of_ok (Address.plus_eq haddress) ?_
  exact (Machine.safe_writeFull value hwf).bind fun _ t ht => hrest t ht

-- ============================================================ environment

/-- The areas of the list are obtained, or there is no room. -/
theorem safe_fillCppl {cppl : Address} {index : Nat} {lengths : List Nat}
    (hwf : m.storage.WellFormed) (hlengths : ∀ length ∈ lengths, length ≤ Storage.addressLimit)
    (hcppl : cppl.toNat ≤ Storage.addressLimit) (hindex : index + lengths.length ≤ 4) :
    (fillCppl cppl index lengths).Safe spent m fun _ t =>
      t.host = m.host ∧ Extends m.storage t.storage := by
  induction lengths generalizing m index with
  | nil => exact Op.safe_pure ⟨rfl, Extends.refl hwf⟩
  | cons length rest ih =>
      rw [List.length_cons] at hindex
      unfold Storage.addressLimit at hcppl
      unfold fillCppl
      refine (Machine.safe_obtain _ hwf (hlengths length List.mem_cons_self)).bind
        fun area u hu => ?_
      have hat : cppl.toNat + index * 4 < UInt32.size := by
        show cppl.toNat + index * 4 < 4294967296
        omega
      refine safe_writeFull_at hu.grown.wellFormed hat fun v hv => ?_
      refine (ih hv.grown.wellFormed (fun l hl => hlengths l (List.mem_cons_of_mem _ hl))
        (by omega)).mono fun _ t ht => ?_
      obtain ⟨hhost, hgrown⟩ := ht
      exact ⟨hhost.trans (hv.host.trans hu.host), (hu.grown.trans hv.grown).trans hgrown⟩

/-- So is the list as a whole. -/
theorem safe_ensureCppl (hwf : m.storage.WellFormed) :
    ensureCppl.Safe spent m fun _ t => Extends m.storage t.storage := by
  unfold ensureCppl
  refine Op.safe_gets_bind ?_
  split
  · exact Op.safe_pure (Extends.refl hwf)
  · refine (Machine.safe_obtain _ hwf (by decide)).bind fun cppl u hu => ?_
    have hcppl : cppl.toNat ≤ Storage.addressLimit := by
      have hle := hu.covers.le hu.grown.wellFormed
      omega
    refine (safe_fillCppl hu.grown.wellFormed (by decide) hcppl (by decide)).bind fun _ v hv => ?_
    exact safe_modifyHost_bind (Op.safe_pure (hu.grown.trans hv.2))

/-- A caller who is not welcome gets no list. -/
theorem safe_offeredCppl (rc : Int32) (hwf : m.storage.WellFormed) :
    (offeredCppl rc).Safe spent m fun _ t => Extends m.storage t.storage := by
  unfold offeredCppl
  split
  · exact safe_ensureCppl hwf
  · exact Op.safe_pure (Extends.refl hwf)

/-- An answer tells that the list could be used. -/
def Answers (module : String) (r1 : Address) (before after : Storage) : Prop :=
  ∃ words, ParmList.decode before r1 = .ok words ∧ Usable module after words

/-- The environment service answers into the four words of its list. -/
theorem safe_environment (hwf : m.storage.WellFormed) :
    (environment r1).Safe spent m fun _ t => Answers "IKJTSOEV" r1 m.storage t.storage := by
  unfold environment
  refine (safe_fiveParms hwf).bind fun p u hu => ?_
  obtain ⟨rfl, hdecode, -⟩ := hu
  obtain ⟨first, rcAt, reasonAt, abendAt, cpplAt⟩ := p
  refine safe_modifyHost_bind (Op.safe_gets_bind ?_)
  refine (safe_offeredCppl _ (m := { u with host := { u.host with
    probeCount := u.host.probeCount + 1 } }) hwf).bind fun cppl v hv => ?_
  refine (Machine.safe_writeSigned _ hv.wellFormed).bind fun _ t1 h1 => ?_
  refine (Machine.safe_writeFull _ h1.grown.wellFormed).bind fun _ t2 h2 => ?_
  refine (Machine.safe_writeFull _ h2.grown.wellFormed).bind fun _ t3 h3 => ?_
  refine (Machine.safe_writeFull _ h3.grown.wellFormed).bind fun _ t4 h4 => ?_
  refine Op.safe_pure ⟨_, hdecode, List.mem_singleton.mpr rfl, fun need hneed => ?_⟩
  have h24 := h3.grown.trans h4.grown
  have h14 := h2.grown.trans h24
  simp only [needs, if_pos, List.mem_cons, List.not_mem_nil, or_false] at hneed
  rcases hneed with rfl | rfl | rfl | rfl
  · exact ⟨rcAt, rfl, h14.covers h1.covers⟩
  · exact ⟨reasonAt, rfl, h24.covers h2.covers⟩
  · exact ⟨abendAt, rfl, h4.grown.covers h3.covers⟩
  · exact ⟨cpplAt, rfl, h4.covers⟩


-- ============================================================= allocation

/-- The caller's areas are read, or left for what they are. -/
theorem safe_callerAreas (cppl : Address) (hwf : m.storage.WellFormed) :
    (callerAreas cppl).Safe spent m fun _ t => t = m := by
  unfold Op.Safe
  refine (ends_callerAreas hwf cppl).mono fun r t ht => ?_
  obtain ⟨⟨areas, rfl⟩, rfl⟩ := ht
  refine ⟨fun htrap => ?_, fun _ _ => rfl⟩
  cases htrap

/-- A call that was taken in: its addresses come out of the list, and the
work area and the DD name lie in blocks. -/
structure TakenIn (r1 : Address) (offset : Nat) (before after : Storage) (call : AllocationCall) :
    Prop where
  grown : Extends before after
  area : after.Covers call.area WorkArea.size
  block : call.block = call.area.shift offset
  listed : ∃ cppl ddname, after.Covers ddname 8
    ∧ ParmList.decode before r1 = .ok [cppl, ddname, call.rc, call.catalogRc, call.area]

/-- An offset within the work area. -/
theorem area_at {storage : Storage} {area : Address} {offset : Nat} (hwf : storage.WellFormed)
    (harea : storage.Covers area WorkArea.size) (hoffset : offset ≤ 2 * WorkArea.size) :
    area.toNat + offset < UInt32.size := by
  have hle := harea.le hwf
  unfold WorkArea.size at hle hoffset
  unfold Storage.addressLimit at hle
  show area.toNat + offset < 4294967296
  omega

/-- An allocation service takes its call in without a trap. -/
theorem safe_receive {offset : Nat} (hwf : m.storage.WellFormed) (hoffset : offset ≤ WorkArea.size) :
    (receive r1 offset).Safe spent m fun call t =>
      TakenIn r1 offset m.storage t.storage call ∧ t.host = m.host := by
  unfold receive
  refine (safe_fiveParms hwf).bind fun p u hu => ?_
  obtain ⟨rfl, hdecode, -⟩ := hu
  obtain ⟨cppl, ddname, rc, catalogRc, area⟩ := p
  refine Op.safe_examine_bind (Storage.read_untrapped _ _ (by decide)) fun held hheld => ?_
  have harea : u.storage.Covers area WorkArea.size := Storage.read_covers hheld
  have hat : ∀ {storage displacement}, Extends u.storage storage →
      displacement ≤ 2 * WorkArea.size → area.toNat + displacement < UInt32.size :=
    fun hgrown => area_at hgrown.wellFormed (hgrown.covers harea)
  have hrefl := Extends.refl hwf
  refine (safe_callerAreas cppl hwf).bind fun areas t ht => ?_
  obtain rfl := ht
  have hlist : area.plus listOffset = .ok area := by
    rw [Address.plus_eq (hat hrefl (by decide))]
    exact congrArg Except.ok (Address.shift_zero area)
  refine Op.safe_lift_of_ok hlist ?_
  refine Op.safe_lift_of_ok (Address.plus_eq (hat hrefl (by omega))) ?_
  refine safe_writeFull_at hwf (hat hrefl (by decide)) fun t1 h1 => ?_
  refine safe_writeFull_at h1.grown.wellFormed (hat hrefl (by decide)) fun t2 h2 => ?_
  refine Op.safe_lift_of_ok (Address.plus_eq (hat hrefl (by decide))) ?_
  refine Op.safe_lift_of_ok (Address.plus_eq (hat hrefl (by decide))) ?_
  refine (Machine.safe_writeFull _ h2.grown.wellFormed).bind fun _ t3 h3 => ?_
  refine safe_writeFull_at h3.grown.wellFormed (hat hrefl (by decide)) fun t4 h4 => ?_
  refine safe_writeFull_at h4.grown.wellFormed (hat hrefl (by decide)) fun t5 h5 => ?_
  have hgrown : Extends t.storage t5.storage :=
    (((h1.grown.trans h2.grown).trans h3.grown).trans h4.grown).trans h5.grown
  refine Op.safe_examine_bind (Storage.read_untrapped _ _ (by decide)) fun name hname => ?_
  apply Op.safe_pure
  constructor
  · exact ⟨hgrown, hgrown.covers harea, rfl, cppl, ddname, Storage.read_covers hname, hdecode⟩
  · rw [h5.host, h4.host, h3.host, h2.host, h1.host]


/-- An offset within the request block. -/
theorem TakenIn.block_at {call : AllocationCall} {offset displacement : Nat}
    {before after : Storage} (h : TakenIn r1 offset before after call)
    (hoffset : offset ≤ WorkArea.size) (hdisplacement : displacement ≤ WorkArea.size) :
    call.block.toNat + displacement < UInt32.size := by
  have hsum : call.area.toNat + (offset + displacement) < 4294967296 :=
    area_at h.grown.wellFormed h.area (by omega)
  rw [h.block, Address.toNat_shift (by omega), Nat.add_assoc]
  exact hsum

/-- An allocation service that answered could use its list. -/
theorem TakenIn.answers {call : AllocationCall} {offset : Nat} {before after last : Storage}
    {module : String} (h : TakenIn r1 offset before after call)
    (hmodule : module ∈ ["TSODALC", "TSODFRE"]) (hgrown : Extends after last)
    (hrc : last.Covers call.rc 4) (hcatalogRc : last.Covers call.catalogRc 4) :
    Answers module r1 before last := by
  obtain ⟨cppl, ddname, hname, hdecode⟩ := h.listed
  refine ⟨_, hdecode, ?_, fun need hneed => ?_⟩
  · unfold parmCounts
    rw [if_pos (List.mem_cons_of_mem _ hmodule)]
    exact List.mem_singleton.mpr rfl
  · have hne : module ≠ "IKJTSOEV" := by
      rintro rfl
      simp at hmodule
    unfold needs at hneed
    rw [if_neg hne, if_pos hmodule] at hneed
    simp only [List.mem_cons, List.not_mem_nil, or_false] at hneed
    rcases hneed with rfl | rfl | rfl | rfl
    · exact ⟨ddname, rfl, hgrown.covers hname⟩
    · exact ⟨call.rc, rfl, hrc⟩
    · exact ⟨call.catalogRc, rfl, hcatalogRc⟩
    · exact ⟨call.area, rfl, hgrown.covers h.area⟩

/-- An answer is left in the blocks of the request and where the list
points to. -/
theorem safe_finish {call : AllocationCall} {offset : Nat} {before : Storage} {module : String}
    (hmodule : module ∈ ["TSODALC", "TSODFRE"])
    (hcall : TakenIn r1 offset before m.storage call) (hoffset : offset ≤ WorkArea.size)
    (answer : AllocationAnswer) :
    (finish call answer).Safe spent m fun _ t => Answers module r1 before t.storage := by
  have hwf := hcall.grown.wellFormed
  have hblock : ∀ displacement, displacement ≤ WorkArea.size →
      call.block.toNat + displacement < UInt32.size :=
    fun _ hdisplacement => hcall.block_at hoffset hdisplacement
  have harea : ∀ displacement, displacement ≤ WorkArea.size →
      call.area.toNat + displacement < UInt32.size :=
    fun _ hdisplacement => area_at hwf hcall.area (by omega)
  unfold finish
  refine Op.safe_lift_of_ok (Address.plus_eq (hblock _ (by decide))) ?_
  refine (Machine.safe_write hwf (by rw [Word.length_ofHalf]; decide)).bind fun _ t1 h1 => ?_
  refine Op.safe_lift_of_ok (Address.plus_eq (hblock _ (by decide))) ?_
  refine (Machine.safe_write h1.grown.wellFormed (by rw [Word.length_ofHalf]; decide)).bind
    fun _ t2 h2 => ?_
  refine Op.safe_lift_of_ok (Address.plus_eq (hblock _ (by decide))) ?_
  refine (Machine.safe_write h2.grown.wellFormed (by decide)).bind fun _ t3 h3 => ?_
  have hname : (leaveName call answer.ddname).Safe spent t3 fun _ t =>
      Extends t3.storage t.storage := by
    unfold leaveName
    cases answer.ddname with
    | none => exact Op.safe_pure (Extends.refl h3.grown.wellFormed)
    | some name =>
        refine Op.safe_lift_of_ok (Address.plus_eq (hblock _ (by decide))) ?_
        exact (Machine.safe_write h3.grown.wellFormed
          (by rw [CodePage.length_encodeField]; decide)).mono fun _ t ht => ht.grown
  refine hname.bind fun _ t4 h4 => ?_
  refine safe_writeFull_at h4.wellFormed (harea _ (by decide)) fun t5 h5 => ?_
  refine safe_writeFull_at h5.grown.wellFormed (harea _ (by decide)) fun t6 h6 => ?_
  refine (Machine.safe_writeSigned _ h6.grown.wellFormed).bind fun _ t7 h7 => ?_
  refine (Machine.safe_writeFull _ h7.grown.wellFormed).bind fun _ t8 h8 => ?_
  have h48 : Extends t4.storage t8.storage :=
    ((h5.grown.trans h6.grown).trans h7.grown).trans h8.grown
  have h03 : Extends m.storage t3.storage := (h1.grown.trans h2.grown).trans h3.grown
  apply Op.safe_pure
  exact hcall.answers hmodule ((h03.trans h4).trans h48) (h8.grown.covers h7.covers) h8.covers

/-- A dataset name is read, or its place cannot be found. -/
theorem safe_requestedDsname (pointer : Address) (hwf : m.storage.WellFormed) :
    (requestedDsname pointer).Safe spent m fun _ t => t = m := by
  unfold requestedDsname
  split
  · exact Op.safe_pure rfl
  · refine Op.safe_examine_bind (Storage.readHalf_untrapped _ _) fun length hlength => ?_
    have hle := (Storage.readHalf_covers hlength).le hwf
    unfold Storage.addressLimit at hle
    have hname : pointer.toNat + 2 < UInt32.size := by
      show pointer.toNat + 2 < 4294967296
      omega
    refine Op.safe_lift_of_ok (Address.plus_eq hname) ?_
    have hrun : min length.toNat dsnameLimit ≤ Word.runLimit :=
      Nat.le_trans (Nat.min_le_right _ _) (by decide)
    refine Op.safe_examine_bind (Storage.read_untrapped _ _ hrun) fun name _ => ?_
    exact Op.safe_pure rfl

/-- The name of a temporary dataset takes one of the numbers. -/
theorem safe_temporaryName {start : SimHost} (hsame : m.host.tempSeq = start.tempSeq) :
    temporaryName.Safe (fun t => Exhausted start t.host) m fun _ t =>
      t.storage = m.storage ∧ t.host.dds = m.host.dds := by
  unfold temporaryName
  refine Op.safe_gets_bind ?_
  have hnumber : (liftM (Word.successor m.host.tempSeq) : Op (Machine SimHost) UInt32).Safe
      (fun t => Exhausted start t.host) m fun _ t => t = m := by
    refine ⟨fun htrap => ?_, fun _ _ => rfl⟩
    exact .dataset (hsame ▸ (successor_trap htrap).ge) hsame
  refine hnumber.bind fun number t ht => ?_
  obtain rfl := ht
  refine safe_modifyHost_bind ?_
  exact Op.safe_pure ⟨rfl, rfl⟩

/-- A dataset is found or defined, and the DD table is left alone. -/
theorem safe_ensureDataset (dsname : String) (status : DatasetStatus) :
    (ensureDataset dsname status).Safe spent m fun _ t =>
      t.storage = m.storage ∧ t.host.dds = m.host.dds := by
  unfold ensureDataset
  refine Op.safe_gets_bind ?_
  split
  · exact Op.safe_pure ⟨rfl, rfl⟩
  · split
    · exact safe_modifyHost_bind (Op.safe_pure ⟨rfl, rfl⟩)
    · exact Op.safe_pure ⟨rfl, rfl⟩

/-- The DD table finds a name, unless its numbers are used up. -/
theorem allocate_trap {table : DdTable} {ddname : Option String} {dsname : String}
    {status : DatasetStatus} {temporary : Bool} (h : table.Named)
    (htrap : table.allocate ddname dsname status temporary = .error .trap) :
    UInt32.size ≤ table.nextNumber.toNat + 1 := by
  unfold DdTable.allocate at htrap
  cases ddname with
  | some name =>
      dsimp only at htrap
      split at htrap <;> cases htrap
  | none =>
      by_contra hlast
      obtain ⟨made, hmade⟩ := DdTable.generate_ok h (Nat.not_le.mp hlast)
      rw [hmade] at htrap
      cases htrap

/-- A DD is entered, unless the numbers for names have run out. -/
theorem safe_bind {start : SimHost} {dsname : String} {status : DatasetStatus} {temporary : Bool}
    (call : AllocationCall) (horderly : start.Orderly) (hdds : m.host.dds = start.dds) :
    (bind call dsname status temporary).Safe (fun t => Exhausted start t.host) m fun _ t =>
      t.storage = m.storage := by
  unfold Service.bind
  refine Op.safe_gets_bind ?_
  dsimp only
  have hallocated : ∀ ddname, ((liftM (m.host.dds.allocate ddname dsname status temporary)
      : Op (Machine SimHost) _)).Safe (fun t => Exhausted start t.host) m fun _ t => t = m := by
    intro ddname
    refine ⟨fun htrap => .ddname ?_ (congrArg DdTable.nextNumber hdds), fun _ _ => rfl⟩
    rw [hdds] at htrap
    exact allocate_trap horderly.named htrap
  refine (hallocated _).bind fun found t ht => ?_
  obtain rfl := ht
  split
  · split
    · exact Op.safe_pure rfl
    · exact Op.safe_pure rfl
  · exact safe_modifyHost_bind (Op.safe_pure rfl)

/-- An allocation traps only where a counter has run out. -/
theorem safe_allocateAs {call : AllocationCall} {offset : Nat} {before : Storage}
    (hcall : TakenIn r1 offset before m.storage call) (hoffset : offset ≤ WorkArea.size)
    (horderly : m.host.Orderly) (status : DatasetStatus) :
    (allocateAs call status).Safe (fun t => Exhausted m.host t.host) m fun _ t =>
      t.storage = m.storage := by
  have hwf := hcall.grown.wellFormed
  unfold allocateAs
  refine Op.safe_lift_of_ok (Address.plus_eq (hcall.block_at hoffset (by decide))) ?_
  refine Op.safe_examine_bind (Storage.readFull_untrapped _ _) fun pointer _ => ?_
  refine (safe_requestedDsname pointer hwf).bind fun dsname t ht => ?_
  obtain rfl := ht
  split
  · refine (safe_temporaryName rfl).bind fun name u hu => ?_
    exact (safe_bind call horderly hu.2).mono fun _ v hv => hv.trans hu.1
  · refine (safe_ensureDataset _ status).bind fun there u hu => ?_
    split
    · exact (safe_bind call horderly hu.2).mono fun _ v hv => hv.trans hu.1
    · exact Op.safe_pure hu.1

/-- So does the allocation service, which otherwise answers. -/
theorem safe_allocate (hwf : m.storage.WellFormed) (horderly : m.host.Orderly) :
    (allocate r1).Safe (fun t => Exhausted m.host t.host) m fun _ t =>
      Answers "TSODALC" r1 m.storage t.storage := by
  unfold allocate
  refine (safe_receive hwf (by decide)).bind fun call u hu => ?_
  obtain ⟨hcall, hhost⟩ := hu
  have hdone : ∀ {t answer}, t.storage = u.storage →
      (finish call answer).Safe (fun t => Exhausted m.host t.host) t fun _ t =>
        Answers "TSODALC" r1 m.storage t.storage :=
    fun hsame => safe_finish (by simp) (hsame ▸ hcall) (by decide) _
  refine Op.safe_lift_of_ok (Address.plus_eq (hcall.block_at (by decide) (by decide))) ?_
  refine Op.safe_examine_bind (Storage.readHalf_untrapped _ _) fun code _ => ?_
  split
  · exact hdone rfl
  · refine Op.safe_lift_of_ok (Address.plus_eq (hcall.block_at (by decide) (by decide))) ?_
    refine Op.safe_examine_bind (Storage.read_untrapped _ _ (by decide)) fun flag _ => ?_
    split
    · exact hdone rfl
    · rw [← hhost] at horderly ⊢
      refine (safe_allocateAs hcall (by decide) horderly _).bind fun answer t ht => ?_
      rw [hhost]
      exact hdone ht

/-- Taking a DD out is a matter of the host alone. -/
theorem safe_unbind (call : AllocationCall) :
    (unbind call).Safe spent m fun _ t => t.storage = m.storage := by
  unfold unbind
  refine Op.safe_gets_bind ?_
  split
  · exact Op.safe_pure rfl
  · exact safe_modifyHost_bind (Op.safe_pure rfl)

/-- The free service answers, whatever it is asked. -/
theorem safe_free (hwf : m.storage.WellFormed) :
    (free r1).Safe spent m fun _ t => Answers "TSODFRE" r1 m.storage t.storage := by
  unfold free
  refine (safe_receive hwf (by decide)).bind fun call u hu => ?_
  obtain ⟨hcall, -⟩ := hu
  have hdone : ∀ {t answer}, t.storage = u.storage →
      (finish call answer).Safe spent t fun _ t => Answers "TSODFRE" r1 m.storage t.storage :=
    fun hsame => safe_finish (by simp) (hsame ▸ hcall) (by decide) _
  refine Op.safe_lift_of_ok (Address.plus_eq (hcall.block_at (by decide) (by decide))) ?_
  refine Op.safe_examine_bind (Storage.readHalf_untrapped _ _) fun code _ => ?_
  split
  · exact hdone rfl
  · refine Op.safe_gets_bind ?_
    split
    · exact hdone rfl
    · exact (safe_unbind call).bind fun answer t ht => hdone ht


-- =============================================================== prepare

/-- A token has the size of a token, since a fullword has ten digits at
most. -/
theorem length_tokenOf (number : UInt32) : (tokenOf number).length = tokenSize := by
  unfold tokenOf Text.decimalOf Text.padLeft
  have hdigits : (Nat.toDigits 10 number.toNat).length ≤ 10 := by
    apply (Nat.length_toDigits_le_iff (by decide) (by decide)).mpr
    exact Nat.lt_trans number.toNat_lt (by decide)
  rw [CodePage.length_encode, String.toList_append, List.length_append]
  show 5 + _ = 16
  rw [String.toList_ofList, List.length_append, List.length_replicate]
  omega

/-- The prepare service answers, unless its tokens have run out. -/
theorem safe_prepare {module : String} (hmodule : module ∈ Invocation.prepareModules)
    (hwf : m.storage.WellFormed) :
    (prepare r1).Safe (fun t => Exhausted m.host t.host) m fun _ t =>
      Answers module r1 m.storage t.storage := by
  unfold prepare
  refine (safe_parms 6 hwf).bind fun p u hu => ?_
  obtain ⟨rfl, hdecode, -⟩ := hu
  have hleft : ∀ (start : Machine SimHost) {token : Bytes} {code : Int32} {reason : UInt32},
      start.storage.WellFormed → token.length = tokenSize →
      (Machine.write p[2] token >>= fun _ => Machine.writeSigned p[3] code >>= fun _ =>
        Machine.writeFull p[4] 0 >>= fun _ => Machine.writeFull p[5] reason >>= fun _ =>
          (pure code : Op (Machine SimHost) Int32)).Safe (fun t => Exhausted u.host t.host) start
        fun _ t => Answers module r1 u.storage t.storage := by
    intro start token code reason hstart htoken
    refine (Machine.safe_write hstart (by rw [htoken]; decide)).bind fun _ t1 h1 => ?_
    refine (Machine.safe_writeSigned _ h1.grown.wellFormed).bind fun _ t2 h2 => ?_
    refine (Machine.safe_writeFull _ h2.grown.wellFormed).bind fun _ t3 h3 => ?_
    refine (Machine.safe_writeFull _ h3.grown.wellFormed).bind fun _ t4 h4 => ?_
    have h23 : Extends t2.storage t4.storage := h3.grown.trans h4.grown
    obtain ⟨hcount, hneeds⟩ := needs_prepare hmodule
    refine Op.safe_pure ⟨_, hdecode, ?_, fun need hneed => ?_⟩
    · rw [hcount, Vector.length_toList]
      exact List.mem_singleton.mpr rfl
    · rw [hneeds] at hneed
      simp only [List.mem_cons, List.not_mem_nil, or_false] at hneed
      rcases hneed with rfl | rfl | rfl | rfl
      · refine ⟨p[2], by simp, ?_⟩
        rw [← htoken]
        exact (h2.grown.trans h23).covers h1.covers
      · exact ⟨p[3], by simp, h23.covers h2.covers⟩
      · exact ⟨p[4], by simp, h4.grown.covers h3.covers⟩
      · exact ⟨p[5], by simp, h4.covers⟩
  refine Op.safe_gets_bind ?_
  split
  · exact hleft u hwf (List.length_replicate)
  · have hnumber : (liftM (Word.successor u.host.nextToken) : Op (Machine SimHost) UInt32).Safe
        (fun t => Exhausted u.host t.host) u fun _ t => t = u :=
      ⟨fun htrap => .token ((successor_trap htrap).ge) rfl, fun _ _ => rfl⟩
    refine hnumber.bind fun next t ht => ?_
    obtain rfl := ht
    refine safe_modifyHost_bind ?_
    exact hleft { t with host := _ } hwf (length_tokenOf _)


-- =============================================================== execute

/-- On an orderly host every line finds its place. -/
theorem safe_appendLines (ddname : String) {lines : List String} (horderly : m.host.Orderly) :
    (appendLines ddname lines).Safe spent m fun _ t => t.storage = m.storage := by
  induction lines generalizing m with
  | nil => exact Op.safe_pure rfl
  | cons line rest ih =>
      unfold appendLines
      have hline : (Machine.onHost (Op.update fun host : SimHost => do
          return ((), ← host.appendTo ddname line))).Safe spent m fun _ t =>
            t.storage = m.storage ∧ t.host.Orderly := by
        unfold Machine.onHost
        rcases horderly.appendTo ddname line with ⟨dataset, happend, hdataset⟩ | ⟨cause, happend⟩
        · unfold Op.Safe Op.Ends
          rw [Op.run_on (Op.update_of_ok (by rw [happend]; rfl))]
          refine ⟨fun htrap => ?_, fun _ _ => ?_⟩
          · cases htrap
          · exact ⟨rfl, horderly.define (hdataset.push line)⟩
        · unfold Op.Safe Op.Ends
          rw [Op.run_on (Op.update_of_fault (by rw [happend]; rfl))]
          refine ⟨fun htrap => ?_, fun _ hvalue => ?_⟩
          · cases htrap
          · cases hvalue
      refine hline.bind fun _ t ht => ?_
      exact (ih ht.2).mono fun _ u hu => hu.trans ht.1

/-- So output goes out without a trap. -/
theorem safe_sendOutput (ddname : String) {lines : List String} (horderly : m.host.Orderly) :
    (sendOutput ddname lines).Safe spent m fun _ t => t.storage = m.storage := by
  unfold sendOutput
  split
  · refine ⟨fun htrap => ?_, fun _ _ => rfl⟩
    cases htrap
  · exact safe_appendLines ddname horderly

/-- The command processor does not touch storage. -/
theorem safe_runCommand (text : String) :
    (runCommand text).Safe spent m fun _ t => t.storage = m.storage
      ∧ (m.host.Orderly → t.host.Orderly) := by
  refine ⟨fun htrap => ?_, fun _ _ => ⟨rfl, fun horderly => horderly.same rfl rfl⟩⟩
  cases htrap

/-- The parameters of an execute call are those of its list. -/
theorem ofList_ok {words : List Address} {p : ExecuteParms}
    (h : ExecuteParms.ofList words = .ok p) :
    words.length ∈ [9, 10] ∧ words[0]? = some p.flags ∧ words[3]? = some p.rc
      ∧ words[4]? = some p.reason ∧ words[5]? = some p.abend := by
  unfold ExecuteParms.ofList at h
  split at h
  · cases h
    exact ⟨by simp, rfl, rfl, rfl, rfl⟩
  · cases h
    exact ⟨by simp, rfl, rfl, rfl, rfl⟩
  · cases h

/-- The codes of a call were left where its list points to. -/
structure Left (p : ExecuteParms) (before after : Storage) : Prop where
  grown : Extends before after
  rc : after.Covers p.rc 4
  reason : after.Covers p.reason 4
  abend : after.Covers p.abend 4

/-- The codes are left in the words given for them. -/
theorem safe_leave {p : ExecuteParms} {r15 rc : Int32} {reason : UInt32}
    (hwf : m.storage.WellFormed) :
    (leave p r15 rc reason).Safe spent m fun _ t => Left p m.storage t.storage := by
  unfold leave
  refine (Machine.safe_writeSigned _ hwf).bind fun _ t1 h1 => ?_
  refine (Machine.safe_writeFull _ h1.grown.wellFormed).bind fun _ t2 h2 => ?_
  refine (Machine.safe_writeFull _ h2.grown.wellFormed).bind fun _ t3 h3 => ?_
  have h13 : Extends t1.storage t3.storage := h2.grown.trans h3.grown
  apply Op.safe_pure
  exact ⟨h1.grown.trans h13, h13.covers h1.covers, h3.grown.covers h2.covers, h3.covers⟩

/-- A command runs, prints, and leaves its codes. -/
theorem safe_perform {p : ExecuteParms} {output command : String} (hwf : m.storage.WellFormed)
    (horderly : m.host.Orderly) :
    (perform p output command).Safe spent m fun _ t => Left p m.storage t.storage := by
  unfold perform
  refine (safe_runCommand command).bind fun result t ht => ?_
  refine (safe_sendOutput output (ht.2 horderly)).bind fun _ u hu => ?_
  have hsame : u.storage = m.storage := hu.trans ht.1
  rw [← hsame] at hwf ⊢
  exact safe_leave hwf

/-- The name of the output DD is read where one was given. -/
theorem safe_outputName (p : ExecuteParms) :
    (outputName p).Safe spent m fun _ t => t = m
      ∧ ∀ output, p.output = some output → ∃ name, m.storage.read output 8 = .ok name := by
  unfold outputName
  cases houtput : p.output with
  | none =>
      refine ⟨fun htrap => ?_, fun _ _ => ⟨rfl, fun _ hnone => ?_⟩⟩
      · cases htrap
      · cases hnone
  | some address =>
      refine ⟨fun htrap => absurd htrap ?_, fun _ hvalue => ⟨rfl, fun output hsome => ?_⟩⟩
      · refine Outcome.bind_untrapped (Storage.read_untrapped _ _ (by decide)) fun _ _ htrap => ?_
        cases htrap
      · cases hsome
        obtain ⟨name, hname, -⟩ := Outcome.bind_ok hvalue
        exact ⟨name, hname⟩

/-- A text runs, or is refused; either way the codes are left. -/
theorem safe_runText (viaProcessor : Bool) {p : ExecuteParms} {flags : CallFlags} {text : String}
    (hwf : m.storage.WellFormed) (horderly : m.host.Orderly) :
    (runText viaProcessor p flags text).Safe spent m fun _ t => Left p m.storage t.storage
      ∧ ∀ output, p.output = some output → ∃ name, m.storage.read output 8 = .ok name := by
  unfold runText
  refine (safe_outputName p).bind fun output t ht => ?_
  obtain ⟨rfl, hname⟩ := ht
  have hleave : ∀ {r15 rc : Int32} {reason : UInt32},
      (leave p r15 rc reason).Safe spent t fun _ u => Left p t.storage u.storage
        ∧ ∀ output, p.output = some output → ∃ name, t.storage.read output 8 = .ok name :=
    (safe_leave hwf).mono fun _ u hu => ⟨hu, hname⟩
  split
  · exact hleave
  · refine Op.safe_gets_bind ?_
    split
    · exact hleave
    · split
      · exact hleave
      · exact (safe_perform hwf horderly).mono fun _ u hu => ⟨hu, hname⟩

/-- What an execute service reads where one parameter leads to the next:
the length for a command, text and token for a length in range, the name of
the output for a token that was handed out. -/
def CommandRead (m : Machine SimHost) (r1 : Address) : Prop :=
  ∃ words p flags, ParmList.decode m.storage r1 = .ok words ∧ ExecuteParms.ofList words = .ok p
    ∧ m.storage.read p.flags 4 = .ok flags
    ∧ ((CallFlags.ofBytes flags).function = CallFlags.commandFunction →
      ∃ length, m.storage.readFull p.length = .ok length
        ∧ (0 < length.toNat → length.toNat ≤ CallBlock.maxCommand →
          (∃ text, m.storage.read p.text length.toNat = .ok text)
            ∧ ∃ token, m.storage.read p.token tokenSize = .ok token
              ∧ (token ∈ m.host.tokens → ∀ output, p.output = some output →
                ∃ name, m.storage.read output 8 = .ok name)))

/-- The execute services answer, whatever they are handed. -/
theorem safe_execute (viaProcessor : Bool) {module : String}
    (hmodule : module ∈ ["IKJEFTSR", "TSOEFTR"]) (hwf : m.storage.WellFormed)
    (horderly : m.host.Orderly) :
    (execute viaProcessor r1).Safe spent m fun _ t =>
      Answers module r1 m.storage t.storage ∧ CommandRead m r1 := by
  unfold execute
  refine Op.safe_examine_bind (ParmList.decode_untrapped hwf r1) fun words hdecode => ?_
  refine Op.safe_lift_bind ?_ fun p hp => ?_
  · unfold ExecuteParms.ofList
    split <;> exact fun htrap => by cases htrap
  refine Op.safe_examine_bind (Storage.read_untrapped _ _ (by decide)) fun flags hflags => ?_
  have hanswers : ∀ {t : Machine SimHost}, Left p m.storage t.storage →
      Answers module r1 m.storage t.storage := by
    intro t ht
    obtain ⟨hcount, hflagsAt, hrc, hreason, habend⟩ := ofList_ok hp
    obtain ⟨hparms, hneeds⟩ := needs_execute hmodule
    refine ⟨words, hdecode, hparms ▸ hcount, fun need hneed => ?_⟩
    rw [hneeds] at hneed
    simp only [List.mem_cons, List.not_mem_nil, or_false] at hneed
    rcases hneed with rfl | rfl | rfl | rfl
    · exact ⟨p.flags, hflagsAt, ht.grown.covers (Storage.read_covers hflags)⟩
    · exact ⟨p.rc, hrc, ht.rc⟩
    · exact ⟨p.reason, hreason, ht.reason⟩
    · exact ⟨p.abend, habend, ht.abend⟩
  dsimp only
  split
  · next hfunction =>
    refine (safe_leave hwf).mono fun _ t ht => ⟨hanswers ht, words, p, flags, hdecode, hp, hflags, ?_⟩
    exact fun hcommand => absurd hcommand hfunction
  · refine Op.safe_examine_bind (Storage.readFull_untrapped _ _) fun length hlength => ?_
    split
    · next hrange =>
      refine (safe_leave hwf).mono fun _ t ht =>
        ⟨hanswers ht, words, p, flags, hdecode, hp, hflags, fun _ => ⟨length, hlength, ?_⟩⟩
      intro hpos hmax
      omega
    · have hrun : length.toNat ≤ Word.runLimit := by
        have := length.toNat_lt
        unfold Word.runLimit
        omega
      refine Op.safe_examine_bind (Storage.read_untrapped _ _ hrun) fun text htext => ?_
      refine Op.safe_examine_bind (Storage.read_untrapped _ _ (by decide)) fun token htoken => ?_
      refine Op.safe_gets_bind ?_
      split
      · refine (safe_runText viaProcessor hwf horderly).mono fun _ t ht => ?_
        refine ⟨hanswers ht.1, words, p, flags, hdecode, hp, hflags, fun _ => ⟨length, hlength, ?_⟩⟩
        exact fun _ _ => ⟨⟨text, htext⟩, token, htoken, fun _ => ht.2⟩
      · next hunknown =>
        refine (safe_leave hwf).mono fun _ t ht => ?_
        refine ⟨hanswers ht, words, p, flags, hdecode, hp, hflags, fun _ => ⟨length, hlength, ?_⟩⟩
        refine fun _ _ => ⟨⟨text, htext⟩, token, htoken, fun hknown => absurd ?_ hunknown⟩
        exact List.contains_iff_mem.mpr hknown

-- =========================================================== interpreter

/-- Reading a table of arguments forms no sum that leaves its word: the
table goes on behind what was read. -/
theorem argumentsFrom_untrapped {storage : Storage} (hwf : storage.WellFormed) (entry : Address)
    (room : Nat) : argumentsFrom storage entry room ≠ .error .trap := by
  induction room generalizing entry with
  | zero =>
      intro htrap
      cases htrap
  | succ room ih =>
      unfold argumentsFrom
      refine Outcome.bind_untrapped (Storage.readFull_untrapped _ _) fun pointer hpointer => ?_
      have hfirst := (Storage.readFull_covers hpointer).le hwf
      unfold Storage.addressLimit at hfirst
      have hat : ∀ {offset}, offset ≤ 8 → entry.plus offset = .ok (entry.shift offset) := by
        intro offset hoffset
        apply Address.plus_eq
        omega
      rw [hat (by decide), hat (by decide)]
      show (storage.readFull (entry.shift 4) >>= _) ≠ _
      refine Outcome.bind_untrapped (Storage.readFull_untrapped _ _) fun length _ => ?_
      split
      · intro htrap
        cases htrap
      · have hrun : length.toNat ≤ Word.runLimit := by
          have := length.toNat_lt
          unfold Word.runLimit
          omega
        refine Outcome.bind_untrapped (Storage.read_untrapped _ _ hrun) fun text _ => ?_
        show (if room = 0 then _ else _ : Outcome (List String)) ≠ _
        split
        · intro htrap
          cases htrap
        · refine Outcome.bind_untrapped (ih _) fun rest _ htrap => ?_
          cases htrap

end Service

/-- A call that comes to an evaluation block: the list names an exec that
its library holds, and a command for the function CMD. -/
structure ComesToResult (m : Machine SimHost) (p : Vector Address ExecArea.parmCount) : Prop where
  exec : ∃ pointer block member ddname, m.storage.readFull p[0] = .ok pointer
    ∧ m.storage.read pointer ExecArea.ExecBlock.size = .ok block
    ∧ Service.execName? block = some (member, ddname)
    ∧ Service.holdsExec m.host member ddname = true
  command : ∃ table function command rest, m.storage.readFull p[1] = .ok table
    ∧ Service.readArguments m.storage table = .ok (function :: command :: rest)
    ∧ Text.sameLetters function "CMD" = true

/-- A call comes to an evaluation block whose length field has no
address. -/
inductive Misplaced (m : Machine SimHost) (r1 : Address) : Prop where
  | intro (p : Vector Address ExecArea.parmCount) (block : Address)
      (hdecode : ParmList.decodeExact m.storage r1 ExecArea.parmCount = .ok p)
      (hcomes : ComesToResult m p) (hblock : m.storage.readFull p[5] = .ok block)
      (hlast : 0xFFFFFFF7 < block.toNat)

namespace Service

variable {spent : Machine SimHost → Prop}

/-- A command of the interpreter does not touch storage either. -/
theorem safe_runForExec (command : String) :
    (runForExec command).Safe spent m fun _ t => t.storage = m.storage
      ∧ (m.host.Orderly → t.host.Orderly) := by
  unfold runForExec
  refine Op.safe_gets_bind ?_
  split
  · exact Op.safe_pure ⟨rfl, id⟩
  · exact safe_runCommand command

/-- A result was left in the block `pointer` points to. -/
def ResultLeft (before after : Storage) (pointer : Address) : Prop :=
  ∃ block : Address, before.readFull pointer = .ok block ∧ block.toNat ≤ 0xFFFFFFF7
    ∧ after.Covers (block.shift ExecArea.EvalBlock.length) 4

/-- A result is left, unless the block for it is out of place. -/
theorem safe_leaveResult {pointer : Address} {rc : Int32} (hwf : m.storage.WellFormed)
    (hplace : ∀ block, m.storage.readFull pointer = .ok block → 0xFFFFFFF7 < block.toNat →
      ∀ t, spent t) :
    (leaveResult pointer rc).Safe spent m fun _ t => Extends m.storage t.storage
      ∧ ResultLeft m.storage t.storage pointer := by
  unfold leaveResult
  refine Op.safe_gets_bind ?_
  refine Op.safe_examine_bind (Storage.readFull_untrapped _ _) fun block hblock => ?_
  by_cases hlast : 0xFFFFFFF7 < block.toNat
  · have htrap : block.plus ExecArea.EvalBlock.length = trap := by
      unfold Address.plus
      apply if_neg
      show ¬block.toNat + 8 < 4294967296
      omega
    exact Op.safe_lift_of_trap htrap (hplace block hblock hlast _)
  · have hlength : block.toNat + ExecArea.EvalBlock.length < UInt32.size := by
      show block.toNat + 8 < 4294967296
      omega
    refine Op.safe_lift_of_ok (Address.plus_eq hlength) ?_
    refine (Machine.safe_writeSigned _ hwf).bind fun _ t1 h1 => ?_
    -- the length went through, so the block is not at the end of the words
    have hle := h1.covers.le h1.grown.wellFormed
    rw [Address.toNat_shift hlength] at hle
    have hdata : block.toNat + ExecArea.EvalBlock.data < UInt32.size := by
      unfold ExecArea.EvalBlock.length Storage.addressLimit at hle
      show block.toNat + 16 < 4294967296
      omega
    refine Op.safe_lift_of_ok (Address.plus_eq hdata) ?_
    have hbytes : ∀ bytes : Bytes, (bytes.take ExecArea.EvalBlock.dataSize).length
        ≤ Word.runLimit := by
      intro bytes
      exact Nat.le_trans (List.length_take_le _ _) (by decide)
    refine (Machine.safe_write h1.grown.wellFormed (hbytes _)).mono fun _ t ht => ?_
    exact ⟨h1.grown.trans ht.grown, block, hblock, Nat.not_lt.mp hlast, ht.grown.covers h1.covers⟩

/-- An exec leaves its result where the evaluation block is, if that place
is no wild one. -/
theorem safe_performExec {p : Vector Address ExecArea.parmCount} {command ddname : String}
    (hwf : m.storage.WellFormed) (horderly : m.host.Orderly)
    (hplace : ∀ block, m.storage.readFull p[5] = .ok block → 0xFFFFFFF7 < block.toNat →
      ∀ t, spent t) :
    (performExec p command ddname).Safe spent m fun _ t =>
      (Extends m.storage t.storage ∧ t.storage.Covers p[9] 4)
        ∧ ResultLeft m.storage t.storage p[5] := by
  unfold performExec
  refine (safe_runForExec command).bind fun result t ht => Op.safe_gets_bind ?_
  refine (safe_sendOutput _ (ht.2 horderly)).bind fun _ u hu => ?_
  have hsame : u.storage = m.storage := hu.trans ht.1
  rw [← hsame] at hwf hplace ⊢
  refine (safe_leaveResult hwf hplace).bind fun _ v hv => ?_
  obtain ⟨hgrown, block, hblock, hplace, hcovers⟩ := hv
  refine (Machine.safe_writeSigned _ hgrown.wellFormed).bind fun _ w hw => ?_
  apply Op.safe_pure
  exact ⟨⟨hgrown.trans hw.grown, hw.covers⟩, block, hblock, hplace, hw.grown.covers hcovers⟩

/-- A refused exec leaves its code. -/
theorem safe_refuseExec {p : Vector Address ExecArea.parmCount} (hwf : m.storage.WellFormed) :
    (refuseExec p).Safe spent m fun _ t =>
      Extends m.storage t.storage ∧ t.storage.Covers p[9] 4 := by
  unfold refuseExec
  refine (Machine.safe_writeSigned _ hwf).bind fun _ t ht => ?_
  exact Op.safe_pure ⟨ht.grown, ht.covers⟩

/-- What the interpreter service reads where one parameter leads to the
next, and where it leaves a result: the exec block, the arguments of an exec
that is there, the evaluation block for a command. -/
inductive ExecRead (m : Machine SimHost) (r1 : Address) (after : Storage) : Prop where
  | intro (p : Vector Address ExecArea.parmCount) (pointer : Address) (block : Bytes)
      (hdecode : ParmList.decodeExact m.storage r1 ExecArea.parmCount = .ok p)
      (hpointer : m.storage.readFull p[0] = .ok pointer)
      (hblock : m.storage.read pointer ExecArea.ExecBlock.size = .ok block)
      (hread : ∀ member ddname, execName? block = some (member, ddname) →
        holdsExec m.host member ddname = true →
        ∃ table arguments, m.storage.readFull p[1] = .ok table
          ∧ readArguments m.storage table = .ok arguments
          ∧ ∀ function command rest, arguments = function :: command :: rest →
            Text.sameLetters function "CMD" = true → ResultLeft m.storage after p[5])

/-- The interpreter service needs the exec block's address and the word its
code is left in. -/
theorem answers_interpret {p : Vector Address ExecArea.parmCount} {pointer : UInt32}
    {after : Storage} (hdecode : ParmList.decodeExact m.storage r1 ExecArea.parmCount = .ok p)
    (hpointer : m.storage.readFull p[0] = .ok pointer)
    (hleft : Extends m.storage after ∧ after.Covers p[9] 4) :
    Answers "IRXEXEC" r1 m.storage after := by
  refine ⟨_, (ParmList.decodeExact_decode hdecode).1, ?_, fun need hneed => ?_⟩
  · rw [Vector.length_toList]
    exact List.mem_singleton.mpr rfl
  · rw [show needs "IRXEXEC" = [(0, 4), (9, 4)] by decide] at hneed
    simp only [List.mem_cons, List.not_mem_nil, or_false] at hneed
    rcases hneed with rfl | rfl
    · exact ⟨p[0], by simp, hleft.1.covers (Storage.readFull_covers hpointer)⟩
    · exact ⟨p[9], by simp, hleft.2⟩

/-- The interpreter answers, unless the evaluation block was misplaced. -/
theorem safe_interpret (hwf : m.storage.WellFormed) (horderly : m.host.Orderly) :
    (interpret r1).Safe (fun _ => Misplaced m r1) m fun _ t =>
      Answers "IRXEXEC" r1 m.storage t.storage ∧ ExecRead m r1 t.storage := by
  unfold interpret
  refine Op.safe_examine_bind (ParmList.decodeExact_untrapped hwf r1 _) fun p hp => ?_
  refine Op.safe_examine_bind (Storage.readFull_untrapped _ _) fun pointer hpointer => ?_
  refine Op.safe_examine_bind (Storage.read_untrapped _ _ (by decide)) fun block hblock => ?_
  have hanswers : ∀ {after : Storage}, Extends m.storage after ∧ after.Covers p[9] 4 →
      Answers "IRXEXEC" r1 m.storage after := answers_interpret hp hpointer
  refine Op.safe_gets_bind ?_
  cases hname : execName? block with
  | none =>
      refine (safe_refuseExec hwf).mono fun _ t ht =>
        ⟨hanswers ht, p, pointer, block, hp, hpointer, hblock, fun member ddname hfound => ?_⟩
      rw [hname] at hfound
      cases hfound
  | some name =>
      obtain ⟨member, ddname⟩ := name
      have hread : ∀ {after : Storage}, (holdsExec m.host member ddname = true →
          ∃ table arguments, m.storage.readFull p[1] = .ok table
            ∧ readArguments m.storage table = .ok arguments
            ∧ ∀ function command rest, arguments = function :: command :: rest →
              Text.sameLetters function "CMD" = true → ResultLeft m.storage after p[5]) →
          ExecRead m r1 after := by
        intro after hrest
        refine ⟨p, pointer, block, hp, hpointer, hblock, fun member' ddname' hfound => ?_⟩
        rw [hname] at hfound
        cases hfound
        exact hrest
      show (if holdsExec m.host member ddname = true then _ else _ : Op (Machine SimHost) Int32).Safe
        _ _ _
      split
      · next hholds =>
        refine Op.safe_examine_bind (Storage.readFull_untrapped _ _) fun table htable => ?_
        refine Op.safe_examine_bind (argumentsFrom_untrapped hwf _ _)
          fun arguments harguments => ?_
        split
        · next function command rest =>
          split
          · next hfunction =>
            have hplace : ∀ eval, m.storage.readFull p[5] = .ok eval → 0xFFFFFFF7 < eval.toNat →
                Machine SimHost → Misplaced m r1 := by
              intro eval heval hlast _
              exact ⟨p, eval, hp, ⟨⟨pointer, block, member, ddname, hpointer, hblock, hname, hholds⟩,
                table, function, command, rest, htable, harguments, hfunction⟩, heval, hlast⟩
            refine (safe_performExec hwf horderly hplace).mono fun _ t ht => ?_
            exact ⟨hanswers ht.1, hread fun _ => ⟨table, _, htable, harguments, fun _ _ _ _ _ => ht.2⟩⟩
          · next hfunction =>
            refine (safe_refuseExec hwf).mono fun _ t ht =>
              ⟨hanswers ht, hread fun _ => ⟨table, _, htable, harguments, ?_⟩⟩
            intro function' command' rest' heq hfound
            cases heq
            exact absurd hfound hfunction
        · next hshort =>
          refine (safe_refuseExec hwf).mono fun _ t ht =>
            ⟨hanswers ht, hread fun _ => ⟨table, _, htable, harguments, ?_⟩⟩
          exact fun function command rest heq _ => absurd heq (hshort function command rest)
      · next hmissing =>
        refine (safe_refuseExec hwf).mono fun _ t ht => ⟨hanswers ht, hread fun hholds => ?_⟩
        exact absurd hholds hmissing

end Service

-- =========================================================== every service

open Service (Answers CommandRead ExecRead)

/-- What a service has done with its parameters that answers with another
code than the one for wrong parameters. -/
structure Took (module : String) (m : Machine SimHost) (r1 : Address) (after : Storage) :
    Prop where
  answers : Answers module r1 m.storage after
  command : module ∈ ["IKJEFTSR", "TSOEFTR"] → CommandRead m r1
  exec : module = "IRXEXEC" → ExecRead m r1 after

/-- The count of calls is nothing to the parameters. -/
theorem Took.of_counted {name module : String} {r1 : Address} {after : Storage}
    (h : Took module (counted m name) r1 after) : Took module m r1 after := by
  refine ⟨h.answers, h.command, fun hmodule => ?_⟩
  obtain ⟨p, pointer, block, hdecode, hpointer, hblock, hread⟩ := h.exec hmodule
  exact ⟨p, pointer, block, hdecode, hpointer, hblock, hread⟩

/-- Counting a call moves nothing. -/
theorem Misplaced.of_counted {name : String} {r1 : Address}
    (h : Misplaced (counted m name) r1) : Misplaced m r1 := by
  obtain ⟨p, block, hp, hcomes, hblock, hlast⟩ := h
  exact ⟨p, block, hp, ⟨hcomes.exec, hcomes.command⟩, hblock, hlast⟩

/-- A service traps only where a counter is used up or an exec has its
result out of place, and a value it returns tells that it could use its
parameters. -/
theorem service_safe (module : String) (r1 : Address) (hwf : m.storage.WellFormed)
    (horderly : m.host.Orderly) :
    ((SimHost.service module).2 = 16 ∨ (SimHost.service module).2 = 20)
      ∧ ((SimHost.service module).1 r1).Safe
        (fun t => Exhausted m.host t.host ∨ module = "IRXEXEC" ∧ Misplaced m r1) m
        fun _ t => Took module m r1 t.storage := by
  refine service_each ?_ ?_ ?_ ?_ ?_ ?_ ?_ ?_ module
    (motive := fun module service => (service.2 = 16 ∨ service.2 = 20)
      ∧ (service.1 r1).Safe (fun t => Exhausted m.host t.host ∨ module = "IRXEXEC" ∧ Misplaced m r1)
        m fun _ t => Took module m r1 t.storage)
  · refine ⟨.inl rfl, (Service.safe_environment hwf).mono fun _ t ht => ?_⟩
    exact ⟨ht, fun h => by simp at h, fun h => by simp at h⟩
  · refine ⟨.inl rfl, ?_⟩
    refine ((Service.safe_allocate hwf horderly).weaken fun _ h => .inl h).mono fun _ t ht => ?_
    exact ⟨ht, fun h => by simp at h, fun h => by simp at h⟩
  · refine ⟨.inl rfl, (Service.safe_free hwf).mono fun _ t ht => ?_⟩
    exact ⟨ht, fun h => by simp at h, fun h => by simp at h⟩
  · refine fun module hmodule => ⟨.inr rfl, ?_⟩
    refine ((Service.safe_prepare hmodule hwf).weaken fun _ h => .inl h).mono fun _ t ht => ?_
    simp only [Invocation.prepareModules, List.mem_cons, List.not_mem_nil, or_false] at hmodule
    rcases hmodule with rfl | rfl
    · exact ⟨ht, fun h => by simp at h, fun h => by simp at h⟩
    · exact ⟨ht, fun h => by simp at h, fun h => by simp at h⟩
  · have hmodule : "IKJEFTSR" ∈ ["IKJEFTSR", "TSOEFTR"] := by decide
    refine ⟨.inr rfl, (Service.safe_execute false hmodule hwf horderly).mono fun _ t ht => ?_⟩
    exact ⟨ht.1, fun _ => ht.2, fun h => by simp at h⟩
  · have hmodule : "TSOEFTR" ∈ ["IKJEFTSR", "TSOEFTR"] := by decide
    refine ⟨.inr rfl, (Service.safe_execute true hmodule hwf horderly).mono fun _ t ht => ?_⟩
    exact ⟨ht.1, fun _ => ht.2, fun h => by simp at h⟩
  · refine ⟨.inr rfl, ?_⟩
    refine ((Service.safe_interpret hwf horderly).weaken fun _ h => .inr ⟨rfl, h⟩).mono
      fun _ t ht => ?_
    exact ⟨ht.1, fun h => by simp at h, fun _ => ht.2⟩
  · exact fun module => ⟨.inl rfl, Op.safe_fail _ _ _⟩

end Sim
end TsoBridge
