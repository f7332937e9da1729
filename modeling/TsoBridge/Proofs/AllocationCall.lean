/-
A request of the allocation services, from the work area the engine fills
to the branch. Five blocks are in play: the work area, the DD name, two
words for return codes and the parameter list. `Sent` says where they are
and what they hold.

Posting a request ends in one of two ways (`post_ends`). All five blocks
are placed; or storage has no room for them, or the command processor list
is no address, and then nobody was called. Nothing but the shape of
storage decides about room, so a request that was posted once can be
posted again in storage of the same shape.
-/
import TsoBridge.Proofs.Handover
import TsoBridge.Proofs.Parts
import TsoBridge.Proofs.Region
import TsoBridge.Proofs.Shape

namespace TsoBridge

variable {H : Type} {α β : Type}

open Storage (HasBlock Stands Changed Room)

-- ================================================================= names

/-- A dataset name without a flaw: one to forty-four characters of names
and dots. -/
theorem Name.dsname_of_no_flaw {name : String} (h : dsnameFlaw? name = none) :
    name ≠ "" ∧ name.toList.length ≤ 44
      ∧ ∀ c ∈ name.toList, isPart c = true ∨ c = '.' := by
  unfold dsnameFlaw? at h
  split at h
  · cases h
  · next hsize =>
    simp only [Bool.or_eq_true, decide_eq_true_eq, not_or, Nat.not_lt] at hsize
    refine ⟨fun hempty => hsize.1 (by rw [hempty]; rfl), ?_, fun c hc => ?_⟩
    · exact Nat.le_trans (Text.length_le_utf8ByteSize name) hsize.2
    · rcases Text.mem_split (· == '.') hc with hdot | ⟨part, hpart, hmem⟩
      · exact .inr (by simpa using hdot)
      · have hflawless := List.findSome?_eq_none_iff.mp h (String.ofList part)
          (List.mem_map_of_mem hpart)
        have hparts := (ddname_of_no_flaw (Option.map_eq_none_iff.mp hflawless)).2.2
        exact .inl (hparts c (by rwa [String.toList_ofList]))

-- ============================================================ new blocks

/-- A block that was obtained, and the blocks that were there. -/
theorem Storage.obtain_block {storage after : Storage} {subpool : UInt8} {size : Nat}
    {base : Address} (hwf : storage.WellFormed)
    (h : storage.obtain subpool size = .ok (base, after)) :
    after.WellFormed ∧ after.contents base = some (List.replicate size 0)
      ∧ ∀ other bytes, storage.contents other = some bytes →
        other ≠ base ∧ after.contents other = some bytes := by
  obtain ⟨hzeros, hnew, hothers⟩ := obtain_contents hwf h
  refine ⟨obtain_wellFormed hwf h, hzeros, fun other bytes hother => ?_⟩
  have hne : other ≠ base := by
    rintro rfl
    rw [hnew] at hother
    cases hother
  exact ⟨hne, (hothers other hne).trans hother⟩

theorem Storage.obtainWith_block {storage after : Storage} {subpool : UInt8} {data : Bytes}
    {base : Address} (hwf : storage.WellFormed)
    (h : storage.obtainWith subpool data = .ok (base, after)) :
    after.WellFormed ∧ after.contents base = some data
      ∧ ∀ other bytes, storage.contents other = some bytes →
        other ≠ base ∧ after.contents other = some bytes := by
  obtain ⟨hdata, hnew, hothers⟩ := obtainWith_contents hwf h
  refine ⟨(Linkage.evolves_obtainWith h).wellFormed hwf, hdata, fun other bytes hother => ?_⟩
  have hne : other ≠ base := by
    rintro rfl
    rw [hnew] at hother
    cases hother
  exact ⟨hne, (hothers other hne).trans hother⟩

-- =========================================================== work areas

namespace WorkArea

/-- What `prepare` makes of every work area fills it. -/
def Fills (prepare : Address → Outcome Bytes) : Prop :=
  ∀ area : Address, area.toNat + size ≤ Storage.addressLimit →
    ∃ bytes, prepare area = .ok bytes ∧ bytes.length = size

theorem length_blankArea : Bindings.blankArea.length = size :=
  List.length_replicate

/-- Fields written into a work area behind an entry code. -/
theorem fills_fields {block : Nat} (code : UInt16) {fields : Address → List (Nat × Bytes)}
    (hblock : block + 2 ≤ size)
    (hfields : ∀ name, ∀ field ∈ fields name, field.1 + field.2.length ≤ size) :
    Fills fun area => Field.writeHalf Bindings.blankArea block code >>= fun coded =>
      area.plus dsnameOffset >>= fun name => Field.writeAll coded (fields name) := by
  intro area harea
  have hsize : size < Word.indexLimit := by decide
  have hfit : block + (Word.ofHalf code).length ≤ Bindings.blankArea.length := by
    rw [Word.length_ofHalf, length_blankArea]
    exact hblock
  have hlength : (Field.splice Bindings.blankArea block (Word.ofHalf code)).length = size := by
    rw [Field.length_splice hfit, length_blankArea]
  have hcode : Field.writeHalf Bindings.blankArea block code
      = .ok (Field.splice Bindings.blankArea block (Word.ofHalf code)) :=
    Field.write_within hfit (by rw [length_blankArea]; exact hsize)
  have hname : area.plus dsnameOffset = .ok (area.shift dsnameOffset) := by
    unfold size Storage.addressLimit at harea
    unfold dsnameOffset
    exact Address.plus_eq (by omega)
  have hwritten : ∃ out, Field.writeAll (Field.splice Bindings.blankArea block (Word.ofHalf code))
      (fields (area.shift dsnameOffset)) = .ok out := by
    apply Field.writeAll_within
    · rw [hlength]
      exact hfields _
    · rw [hlength]
      exact hsize
  obtain ⟨out, hout⟩ := hwritten
  refine ⟨out, ?_, (Field.writeAll_apart hout).1.trans hlength⟩
  simp only [hcode, hname]
  exact hout

theorem fills_prepareAllocate (ddname : String) (dsname : Option String)
    (status : DatasetStatus) :
    Fills fun area => prepareAllocate Bindings.blankArea area ddname dsname status := by
  have hblock : allocateOffset + Header.code + 2 ≤ size := by decide
  refine fills_fields allocateCode hblock fun name field hfield => ?_
  simp only [List.mem_append, List.mem_cons, List.not_mem_nil, or_false, dsnameFields] at hfield
  rcases hfield with (rfl | rfl | rfl | rfl) | rfl | rfl
  all_goals simp [size, allocateOffset, dsnameOffset, dsnameLimit, Header.dsname, Header.ddname,
    Header.status, Header.disposition]

theorem fills_prepareFree (ddname : String) :
    Fills fun area => prepareFree Bindings.blankArea area ddname := by
  have hblock : freeOffset + Header.code + 2 ≤ size := by decide
  refine fills_fields freeCode hblock fun name field hfield => ?_
  simp only [List.mem_append, List.mem_cons, List.not_mem_nil, or_false, dsnameFields] at hfield
  rcases hfield with (rfl | rfl) | rfl | rfl
  all_goals simp [size, freeOffset, dsnameOffset, dsnameLimit, Header.dsname, Header.ddname]

/-- What an allocate request at `area` says: its codes, and the dataset
name it points to, empty for none. -/
structure Asks (bytes : Bytes) (area : Address) (dsname : String) (status : DatasetStatus) :
    Prop where
  code : Field.slice bytes (allocateOffset + Header.code) 2 = Word.ofHalf allocateCode
  pointer : Field.slice bytes (allocateOffset + Header.dsname) 4
    = Word.ofFull (area.shift dsnameOffset)
  status : Field.slice bytes (allocateOffset + Header.status) 1 = [status.flag]
  length : Field.slice bytes dsnameOffset 2
    = Word.ofHalf (UInt16.ofNat (min dsname.toList.length dsnameLimit))
  name : Field.slice bytes (dsnameOffset + 2) dsnameLimit = CodePage.encodeField dsnameLimit dsname

/-- Every field of an allocate request is found where it was written. -/
theorem prepareAllocate_asks {area : Address} {ddname : String} {dsname : Option String}
    {status : DatasetStatus} {bytes : Bytes}
    (h : prepareAllocate Bindings.blankArea area ddname dsname status = .ok bytes) :
    Asks bytes area (dsname.getD "") status := by
  obtain ⟨coded, hcoded, h⟩ := Outcome.bind_ok h
  obtain ⟨pointer, hpointer, h⟩ := Outcome.bind_ok h
  obtain ⟨hfit, rfl⟩ := Field.write_ok hcoded
  -- the fields in the order in which they are written
  have hpointerField : Field.writeAll _
      ([] ++ (allocateOffset + Header.dsname, Word.ofFull pointer) :: _) = .ok bytes := h
  have hstatusField : Field.writeAll _ ([_, _]
      ++ (allocateOffset + Header.status, [status.flag]) :: _) = .ok bytes := h
  have hlengthField : Field.writeAll _ ([_, _, _, _] ++ (dsnameOffset,
      Word.ofHalf (UInt16.ofNat (min (dsname.getD "").toList.length dsnameLimit))) :: _)
        = .ok bytes := h
  have hnameField : Field.writeAll _ ([_, _, _, _, _] ++ (dsnameOffset + 2,
      CodePage.encodeField dsnameLimit (dsname.getD "")) :: []) = .ok bytes := h
  constructor
  · rw [(Field.writeAll_apart h).2 _ _ (by
      simp [allocateOffset, dsnameOffset, Header.code, Header.dsname, Header.ddname,
        Header.status, Header.disposition, dsnameFields])]
    have hcode := Field.slice_splice_self hfit
    rwa [Word.length_ofHalf] at hcode
  · have hfound := Field.writeAll_found hpointerField (by
      simp [allocateOffset, dsnameOffset, Header.dsname, Header.ddname, Header.status,
        Header.disposition, dsnameFields])
    rwa [Word.length_ofFull, (Address.plus_ok hpointer).2] at hfound
  · exact Field.writeAll_found hstatusField (by
      simp [allocateOffset, dsnameOffset, Header.status, Header.disposition, dsnameFields])
  · have hfound := Field.writeAll_found hlengthField (by simp [dsnameOffset])
    rwa [Word.length_ofHalf] at hfound
  · have hfound := Field.writeAll_found hnameField (fun _ hnone => absurd hnone List.not_mem_nil)
    rwa [CodePage.length_encodeField] at hfound

/-- The dataset name that arrives with a request: the first characters of
the one it was made with, as the code page carries them. -/
def received (dsname : String) : String :=
  CodePage.decode
    ((CodePage.encodeField dsnameLimit dsname).take (min dsname.toList.length dsnameLimit))

/-- A name that fits arrives as the code page carries it. -/
theorem received_eq {dsname : String} (hlength : dsname.toList.length ≤ dsnameLimit) :
    received dsname = CodePage.carried dsname := by
  have hfront : (CodePage.encodeField dsnameLimit dsname).take dsname.toList.length
      = CodePage.encode dsname := by
    unfold CodePage.encodeField CodePage.fill
    rw [List.take_of_length_le hlength, List.take_left' (List.length_map _)]
    rfl
  unfold received
  rw [Nat.min_eq_left hlength, hfront, CodePage.decode_encode]

/-- A dataset name that is accepted arrives unchanged. -/
theorem received_of_no_flaw {dsname : String} (h : Name.dsnameFlaw? dsname = none) :
    received dsname = dsname := by
  obtain ⟨-, hlength, hchars⟩ := Name.dsname_of_no_flaw h
  rw [received_eq hlength]
  refine CodePage.carried_of_latin fun c hc => ?_
  rcases hchars c hc with hpart | rfl
  · have := Name.isPart_lt hpart
    omega
  · decide

/-- A free request starts with its entry code. -/
theorem prepareFree_code {area : Address} {ddname : String} {bytes : Bytes}
    (h : prepareFree Bindings.blankArea area ddname = .ok bytes) :
    Field.slice bytes (freeOffset + Header.code) 2 = Word.ofHalf freeCode := by
  obtain ⟨coded, hcoded, h⟩ := Outcome.bind_ok h
  obtain ⟨name, -, h⟩ := Outcome.bind_ok h
  obtain ⟨hfit, rfl⟩ := Field.write_ok hcoded
  rw [(Field.writeAll_apart h).2 _ _ (by
    simp [freeOffset, dsnameOffset, Header.code, Header.dsname, Header.ddname, dsnameFields])]
  have hcode := Field.slice_splice_self hfit
  rwa [Word.length_ofHalf] at hcode

/-- The answer in a work area, field by field. -/
def answerIn (bytes : Bytes) (block : Nat) : AllocationResult :=
  { serviceRc := Word.toSigned (Field.slice bytes rcOffset 4)
    reasonCode := Word.toHalf (Field.slice bytes (block + Header.reason) 2)
    catalogRc := Word.toHalf (Field.slice bytes (block + Header.catalog) 2)
    secondaryFlags :=
      UInt8.ofNat (Word.valueOf (Field.slice bytes (block + Header.flags) 1))
    assignedName := CodePage.decodeField (Field.slice bytes (block + Header.ddname) 8) }

/-- Every work area has an answer. -/
theorem decode_eq {bytes : Bytes} {block : Nat} (hlength : bytes.length = size)
    (hblock : block + 20 ≤ size) : decode bytes block = .ok (answerIn bytes block) := by
  have hread : ∀ offset width, offset + width ≤ size →
      Field.read bytes offset width = .ok (Field.slice bytes offset width) := by
    intro offset width hfit
    refine Field.read_within ?_ ?_
    · rw [hlength]
      exact hfit
    · rw [hlength]
      decide
  unfold decode Field.readSigned Field.readHalf Field.readByte
  rw [hread rcOffset 4 (by decide), hread (block + Header.reason) 2 (by unfold Header.reason; omega),
    hread (block + Header.catalog) 2 (by unfold Header.catalog; omega),
    hread (block + Header.flags) 1 (by unfold Header.flags; omega),
    hread (block + Header.ddname) 8 (by unfold Header.ddname; omega)]
  rfl

/-- A request under `ddname` stands at `area` as `bytes`, and the list at
`r1` points to it, to the name and to two words. -/
structure Sent (storage : Storage) (bytes : Bytes) (ddname : String)
    (cppl name rc catalogRc area r1 : Address) : Prop where
  wellFormed : storage.WellFormed
  list : ParmList.decode storage r1 = .ok [cppl, name, rc, catalogRc, area]
  held : storage.contents area = some bytes
  length : bytes.length = size
  nameField : Stands storage name 0 (CodePage.encodeField 8 ddname)
  rcBlock : HasBlock storage rc 4
  catalogRcBlock : HasBlock storage catalogRc 4
  apart : name ≠ area ∧ rc ≠ area ∧ catalogRc ≠ area

namespace Sent

variable {storage : Storage} {bytes data : Bytes} {ddname : String}
  {cppl name rc catalogRc area r1 : Address} {offset : Nat}
  (h : Sent storage bytes ddname cppl name rc catalogRc area r1)
include h

theorem areaBlock : HasBlock storage area size :=
  ⟨bytes, h.held, h.length⟩

/-- What the request holds stands in the area. -/
theorem stands (hslice : Field.slice bytes offset data.length = data)
    (hfit : offset + data.length ≤ size) : Stands storage area offset data :=
  ⟨bytes, h.held, by rw [h.length]; exact hfit, hslice⟩

end Sent
end WorkArea

-- ============================================================== posting

namespace Linkage

variable {length : Nat} {g : Address → Op (Linkage H) β} {link : Linkage H} {now : Storage}
  {post : Outcome β → Linkage H → Prop}

/-- A block is obtained beside those that are there, or there is no room
for it. -/
theorem ends_obtain (rest : List Nat) (hwf : now.WellFormed) (hpos : 0 < length)
    (hlength : length ≤ Storage.addressLimit)
    (hfault : ∀ cause, ¬Room (length :: rest) now →
      post (.error (.error cause)) { link with storage := now })
    (hok : ∀ base storage, storage.WellFormed →
      storage.contents base = some (List.replicate length 0) →
      (∀ other bytes, now.contents other = some bytes →
        other ≠ base ∧ storage.contents other = some bytes) →
      (Room (length :: rest) now ↔ Room rest storage) →
      (g base).Ends { link with storage } post) :
    (Linkage.obtain length >>= g).Ends { link with storage := now } post := by
  refine ends_update_cases (fun fault h => ?_) fun base storage h => ?_
  · have hnone : ¬Room (length :: rest) now := by
      rintro ⟨base, after, hobtain, -⟩
      rw [hobtain] at h
      cases h
    rcases Storage.obtain_cases hwf hpos hlength Storage.engineSubpool with
      ⟨base, after, hobtain⟩ | hexhausted
    · rw [hobtain] at h
      cases h
    · rw [hexhausted] at h
      cases h
      exact hfault _ hnone
  · obtain ⟨hwf', hzeros, hkeep⟩ := Storage.obtain_block hwf h
    exact hok base storage hwf' hzeros hkeep (Storage.room_cons h)

/-- A block is obtained and filled, or there is no room for it. -/
theorem ends_obtainWith {data : Bytes} (rest : List Nat) (hwf : now.WellFormed)
    (hpos : 0 < data.length) (hlength : data.length ≤ Storage.addressLimit)
    (hfault : ∀ cause, ¬Room (data.length :: rest) now →
      post (.error (.error cause)) { link with storage := now })
    (hok : ∀ base storage, storage.WellFormed → storage.contents base = some data →
      (∀ other bytes, now.contents other = some bytes →
        other ≠ base ∧ storage.contents other = some bytes) →
      (Room (data.length :: rest) now ↔ Room rest storage) →
      (g base).Ends { link with storage } post) :
    (Linkage.obtainWith data >>= g).Ends { link with storage := now } post := by
  refine ends_update_cases (fun fault h => ?_) fun base storage h => ?_
  · rcases Storage.obtain_cases hwf hpos hlength Storage.engineSubpool with
      ⟨base, larger, hobtain⟩ | hexhausted
    · obtain ⟨after, -, hwith⟩ := Storage.obtainWith_of_obtain hwf hobtain
      rw [hwith] at h
      cases h
    · have hnone : ¬Room (data.length :: rest) now := by
        rintro ⟨base, after, hobtain, -⟩
        rw [hexhausted] at hobtain
        cases hobtain
      unfold Storage.obtainWith at h
      rw [hexhausted] at h
      cases h
      exact hfault _ hnone
  · obtain ⟨hwf', hdata, hkeep⟩ := Storage.obtainWith_block hwf h
    obtain ⟨⟨first, larger⟩, hobtain, hwritten⟩ := Outcome.bind_ok h
    obtain ⟨written, hwrite, hreturn⟩ := Outcome.bind_ok hwritten
    cases hreturn
    refine hok base storage hwf' hdata hkeep ((Storage.room_cons hobtain).trans ?_)
    exact Storage.room_write (Storage.obtain_wellFormed hwf hobtain) hwrite

/-- A block of zeros is written over. -/
theorem ends_write {area : Address} {data : Bytes} {g : Unit → Op (Linkage H) β}
    (lengths : List Nat) (hwf : now.WellFormed)
    (harea : now.contents area = some (List.replicate data.length 0))
    (hok : ∀ storage, storage.WellFormed → storage.contents area = some data →
      (∀ other, other ≠ area → storage.contents other = now.contents other) →
      (Room lengths now ↔ Room lengths storage) →
      (g ()).Ends { link with storage } post) :
    (Linkage.write area data >>= g).Ends { link with storage := now } post := by
  have hpos : 0 < data.length := by
    obtain ⟨block, hmem, -, hbytes⟩ := Storage.contents_eq_some harea
    have hplaced := (hwf.placed _ hmem).2.2.1
    rwa [← Block.length_bytes, hbytes, List.length_replicate] at hplaced
  have hwritten : ∃ storage, now.write (area.shift 0) data = .ok storage
      ∧ Changed area 0 (0 + data.length) now storage
      ∧ Stands storage area 0 data :=
    Storage.write_run hwf ⟨_, harea, List.length_replicate⟩ hpos (by omega)
  obtain ⟨storage, hwrite, -, -⟩ := hwritten
  rw [Address.shift_zero] at hwrite
  have hrun : (do return ((), ← now.write area data) : Outcome (Unit × Storage))
      = .ok ((), storage) := by
    rw [hwrite]
    rfl
  refine ends_update_cases (fun fault h => ?_) fun _ after h => ?_
  · rw [hrun] at h
    cases h
  · rw [hrun] at h
    cases h
    obtain ⟨hdata, hothers⟩ := Storage.write_whole hwf harea hwrite
    exact hok storage (Storage.write_wellFormed hwf hwrite) hdata hothers
      (Storage.room_write hwf hwrite)

/-- A list of plain addresses is placed in a block of its own, or there is
no room for it. -/
theorem ends_place {leading : List Address} {last : Address} (rest : List Nat)
    (hwf : now.WellFormed) (hshort : leading.length < ParmList.maxParms)
    (hunmarked : ∀ address ∈ leading, ParmList.marked address = false)
    (hlast : ParmList.marked last = false)
    (hfault : ∀ cause, ¬Room ((4 * leading.length + 4) :: rest) now →
      post (.error (.error cause)) { link with storage := now })
    (hok : ∀ r1 storage, storage.WellFormed →
      ParmList.decode storage r1 = .ok (leading ++ [last]) →
      (∀ other bytes, now.contents other = some bytes → storage.contents other = some bytes) →
      (Room ((4 * leading.length + 4) :: rest) now ↔ Room rest storage) →
      (g r1).Ends { link with storage } post) :
    (Linkage.onMachine (Machine.onStorage (Op.update (ParmList.place ⟨leading, last⟩))) >>= g).Ends
      { link with storage := now } post := by
  have hplace : ParmList.place ⟨leading, last⟩
      = fun storage => storage.obtainWith Storage.engineSubpool (ParmList.words leading last) := by
    funext storage
    unfold ParmList.place
    rw [ParmList.encode_unmarked hunmarked hlast]
    rfl
  have hwords := ParmList.length_words leading last
  have hbound : 4 * leading.length + 4 ≤ Storage.addressLimit := by
    have hmax : 4 * ParmList.maxParms ≤ Storage.addressLimit := by decide
    omega
  rw [hplace]
  refine ends_obtainWith rest hwf (by omega) (by omega) (fun cause hnone => hfault cause ?_)
    fun r1 storage hwf' hlist hkeep hroom => ?_
  · rwa [hwords] at hnone
  · rw [hwords] at hroom
    exact hok r1 storage hwf'
      ((ParmList.decode_words hwf' hunmarked hlast hlist).trans (if_pos hshort))
      (fun other bytes h => (hkeep other bytes h).2) hroom

/-- A list that begins with a wide address is not placed. -/
theorem ends_place_wide {first last : Address} {rest : List Address}
    (hwide : ParmList.marked first = true)
    (hfault : post (fail (.invalidParmList (.wide first))) { link with storage := now }) :
    (Linkage.onMachine (Machine.onStorage (Op.update (ParmList.place ⟨first :: rest, last⟩)))
      >>= g).Ends { link with storage := now } post := by
  have hplace : ParmList.place ⟨first :: rest, last⟩ now = fail (.invalidParmList (.wide first)) := by
    unfold ParmList.place
    rw [ParmList.encode_wide hwide]
    rfl
  refine ends_update_cases (fun fault h => ?_) fun r1 storage h => ?_
  · rw [hplace] at h
    cases h
    exact hfault
  · rw [hplace] at h
    cases h

end Linkage

namespace Bindings

/-- The lengths of the blocks of a request, in the order in which they are
obtained. -/
def requestLengths : List Nat :=
  [WorkArea.size, 8, 4, 4, 20]

/-- Storage has room for a request, and the command processor list is an
address. -/
def Postable (capability : Capability) (storage : Storage) : Prop :=
  Room requestLengths storage ∧ ParmList.marked capability.cppl = false

/-- Places the blocks of a request; the value is where the work area and
the parameter list are. -/
def post (capability : Capability) (ddname : String) (prepare : Address → Outcome Bytes) :
    Op (Linkage H) (Address × Address) := do
  let area ← Linkage.obtain WorkArea.size
  let name ← Linkage.obtainWith (CodePage.encodeField 8 ddname)
  let rc ← Linkage.obtain 4
  let catalogRc ← Linkage.obtain 4
  Linkage.write area (← prepare area)
  let parms : ParmList := { leading := [capability.cppl, name, rc, catalogRc], last := area }
  let r1 ← Linkage.onMachine (Machine.onStorage (Op.update parms.place))
  return (area, r1)

/-- How posting a request ends: it did not get as far as its last block,
or all of it stands. -/
def Posted (capability : Capability) (ddname : String) (prepare : Address → Outcome Bytes)
    (link : Linkage H) (r : Outcome (Address × Address)) (t : Linkage H) : Prop :=
  (∃ cause storage, r = .error (.error cause) ∧ t = { link with storage }
      ∧ ¬Postable capability link.storage)
    ∨ ∃ storage bytes name rc catalogRc area r1, r = .ok (area, r1) ∧ t = { link with storage }
      ∧ prepare area = .ok bytes
      ∧ WorkArea.Sent storage bytes ddname capability.cppl name rc catalogRc area r1
      ∧ Postable capability link.storage

/-- The addresses of blocks are no wide ones. -/
theorem unmarked_block {storage : Storage} {base : Address} {bytes : Bytes}
    (hwf : storage.WellFormed) (h : storage.contents base = some bytes) :
    ParmList.marked base = false := by
  have := hwf.contents_le h
  exact ParmList.unmarked_of_le (by omega)

theorem post_ends {prepare : Address → Outcome Bytes} {link : Linkage H}
    (hwf : link.storage.WellFormed) (hfills : WorkArea.Fills prepare) (capability : Capability)
    (ddname : String) :
    (post capability ddname prepare).Ends link (Posted capability ddname prepare link) := by
  have hunsent : ∀ cause storage, (Room requestLengths link.storage →
      ParmList.marked capability.cppl = false → False) →
      Posted capability ddname prepare link (.error (.error cause)) { link with storage } :=
    fun cause storage h => .inl ⟨cause, storage, rfl, rfl, fun hboth => h hboth.1 hboth.2⟩
  show (post capability ddname prepare).Ends { link with storage := link.storage } _
  refine Linkage.ends_obtain [8, 4, 4, 20] hwf (by decide) (by decide)
    (fun cause hnone => hunsent cause _ fun hroom _ => hnone hroom)
    fun area st1 hwf1 harea1 _ hroom1 => ?_
  have height : (CodePage.encodeField 8 ddname).length = 8 := CodePage.length_encodeField 8 ddname
  refine Linkage.ends_obtainWith [4, 4, 20] hwf1 (by rw [height]; decide) (by rw [height]; decide)
    (fun cause hnone => hunsent cause _ fun hroom _ => ?_)
    fun name st2 hwf2 hname2 hkeep2 hroom2 => ?_
  · rw [height] at hnone
    exact hnone (hroom1.mp hroom)
  rw [height] at hroom2
  refine Linkage.ends_obtain [4, 20] hwf2 (by decide) (by decide)
    (fun cause hnone => hunsent cause _ fun hroom _ => hnone (hroom2.mp (hroom1.mp hroom)))
    fun rc st3 hwf3 hrc3 hkeep3 hroom3 => ?_
  have hroom : Room requestLengths link.storage ↔ Room [4, 20] st3 :=
    hroom1.trans (hroom2.trans hroom3)
  refine Linkage.ends_obtain [20] hwf3 (by decide) (by decide)
    (fun cause hnone => hunsent cause _ fun hall _ => hnone (hroom.mp hall))
    fun catalogRc st4 hwf4 hcatalogRc4 hkeep4 hroom4 => ?_
  -- each block stands on while the later ones are obtained
  obtain ⟨hareaName, harea2⟩ := hkeep2 _ _ harea1
  obtain ⟨hareaRc, harea3⟩ := hkeep3 _ _ harea2
  obtain ⟨hareaCatalogRc, harea4⟩ := hkeep4 _ _ harea3
  have hname4 := (hkeep4 _ _ (hkeep3 _ _ hname2).2).2
  have hrc4 := (hkeep4 _ _ hrc3).2
  -- the request fills the area
  have hbelow : area.toNat + WorkArea.size ≤ Storage.addressLimit := by
    have := hwf4.contents_le harea4
    rwa [List.length_replicate] at this
  obtain ⟨bytes, hprepared, hlength⟩ := hfills area hbelow
  rw [← hlength] at harea4
  refine Op.ends_lift_of_ok hprepared ?_
  refine Linkage.ends_write [20] hwf4 harea4 fun st5 hwf5 harea5 hothers hroom5 => ?_
  have hname5 := (hothers name hareaName.symm).trans hname4
  have hrc5 := (hothers rc hareaRc.symm).trans hrc4
  have hcatalogRc5 := (hothers catalogRc hareaCatalogRc.symm).trans hcatalogRc4
  cases hcppl : ParmList.marked capability.cppl with
  | true =>
      refine Linkage.ends_place_wide hcppl (hunsent _ _ fun _ hunmarked => ?_)
      rw [hcppl] at hunmarked
      cases hunmarked
  | false =>
      -- the list takes the fifth block
      have hunmarked : ∀ address ∈ [capability.cppl, name, rc, catalogRc],
          ParmList.marked address = false := by
        simp [hcppl, unmarked_block hwf5 hname5, unmarked_block hwf5 hrc5,
          unmarked_block hwf5 hcatalogRc5]
      refine Linkage.ends_place [] hwf5 (show 4 < ParmList.maxParms by decide) hunmarked
        (unmarked_block hwf5 harea5)
        (fun cause hnone => hunsent cause _ fun hall _ =>
          hnone (hroom5.mp (hroom4.mp (hroom.mp hall))))
        fun r1 st6 hwf6 hlist hkeep6 hroom6 => .inr ⟨st6, bytes, name, rc, catalogRc, area, r1, rfl,
          rfl, hprepared, ?_, hroom.mpr (hroom4.mpr (hroom5.mpr (hroom6.mpr trivial))), hcppl⟩
      exact {
        wellFormed := hwf6
        list := hlist
        held := hkeep6 _ _ harea5
        length := hlength
        nameField := ⟨_, hkeep6 _ _ hname5, by simp, Field.slice_full _⟩
        rcBlock := ⟨_, hkeep6 _ _ hrc5, List.length_replicate⟩
        catalogRcBlock := ⟨_, hkeep6 _ _ hcatalogRc5, List.length_replicate⟩
        apart := ⟨hareaName.symm, hareaRc.symm, hareaCatalogRc.symm⟩ }

variable [Host H]

/-- Branches with a request that was posted and reads the answer from its
work area. -/
def callWith (entry : EntryPoint) (decode : Bytes → Outcome AllocationResult)
    (posted : Address × Address) : Op (Linkage H) AllocationResult := do
  let r15 ← Linkage.branch entry posted.2
  let result ← decode (← Linkage.read posted.1 WorkArea.size)
  return result.orElse r15

/-- A request is posted, and then the module is called with it. -/
theorem request_eq (entry : EntryPoint) (capability : Capability) (ddname : String)
    (prepare : Address → Outcome Bytes) (decode : Bytes → Outcome AllocationResult) :
    (request entry capability ddname prepare decode : Op (Linkage H) AllocationResult)
      = Linkage.framed (post capability ddname prepare >>= callWith entry decode) := by
  simp only [request, post, callWith, Linkage.call, bind_assoc, pure_bind]

theorem callWith_snd (entry : EntryPoint) (decode : Bytes → Outcome AllocationResult)
    (posted : Address × Address) (link : Linkage H) :
    (callWith entry decode posted link).2 = (Linkage.branch entry posted.2 link).2 := by
  have hcall : (callWith entry decode posted).Ends link fun _ t =>
      t = (Linkage.branch entry posted.2 link).2 := by
    have hbranch : (Linkage.branch entry posted.2).Ends link fun _ t =>
        t = (Linkage.branch entry posted.2 link).2 := rfl
    refine hbranch.bind (fun r15 t ht => ?_) fun _ _ ht => ht
    refine Linkage.ends_read_bind (fun _ => ht) fun bytes _ => ?_
    exact Op.ends_lift_bind (fun _ => ht) fun _ _ => ht
  exact hcall

/-- How a request ends: nobody was called, or the module was with a
request that stands. -/
theorem request_ends {prepare : Address → Outcome Bytes} {link : Linkage H}
    (hwf : link.storage.WellFormed) (hfills : WorkArea.Fills prepare) (entry : EntryPoint)
    (capability : Capability) (ddname : String) (decode : Bytes → Outcome AllocationResult) :
    (request entry capability ddname prepare decode).Ends link fun r t =>
      (∃ cause storage, r = .error (.error cause) ∧ t = { link with storage }
          ∧ ¬Postable capability link.storage.openFrame)
        ∨ ∃ storage bytes name rc catalogRc area r1, prepare area = .ok bytes
          ∧ WorkArea.Sent storage bytes ddname capability.cppl name rc catalogRc area r1
          ∧ Postable capability link.storage.openFrame
          ∧ r = (callWith entry decode (area, r1) { link with storage }).1
          ∧ t.host = (Linkage.branch entry r1 { link with storage }).2.host := by
  rw [request_eq]
  refine Linkage.ends_framed ?_
  have hposted : (post capability ddname prepare).Ends
      { link with storage := link.storage.openFrame } (Posted capability ddname prepare _) :=
    post_ends (Storage.openFrame_wellFormed hwf) hfills capability ddname
  refine hposted.bind (fun posted t ht => ?_) fun fault t ht => ?_
  · rcases ht with ⟨_, _, hr, -⟩ | ⟨storage, bytes, name, rc, catalogRc, area, r1, hr, rfl,
      hprepared, hsent, hpostable⟩
    · cases hr
    · cases hr
      refine .inr ⟨storage, bytes, name, rc, catalogRc, area, r1, hprepared, hsent, hpostable,
        rfl, ?_⟩
      show (callWith entry decode (area, r1) { link with storage }).2.host = _
      rw [callWith_snd]
  · rcases ht with ⟨cause, storage, hr, rfl, hnot⟩ | ⟨_, _, _, _, _, _, _, hr, -⟩
    · cases hr
      exact .inl ⟨cause, storage.closeFrame, rfl, rfl, hnot⟩
    · cases hr

/-- An answer that reports failure is refused. -/
theorem settle_refused {result : AllocationResult} (h : result.succeeded = false)
    (capability : Capability) (requested : DdName) (s : Linkage H × Bindings) :
    ∃ cause, settle capability requested result s = (.error (.error cause), s) := by
  unfold settle
  rw [h]
  exact ⟨_, rfl⟩

/-- An answer that names a DD is bound. -/
theorem settle_bound {result : AllocationResult} {assigned : DdName}
    (h : result.succeeded = true) (hname : DdName.ofString result.assignedName = .ok assigned)
    (capability : Capability) (requested : DdName) (s : Linkage H × Bindings) :
    settle capability requested result s
      = (.ok (assigned, result), (s.1, { s.2 with live := s.2.live.insert assigned () })) := by
  unfold settle
  rw [h, hname]
  rfl

end Bindings
end TsoBridge
