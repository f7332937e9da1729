/-
What does not fit is refused, as long as its end is an index. A field of a
buffer, a stretch of storage and a block that is asked for are each
compared with what there is by their end, and the end is a sum that is
formed before it is compared. Up to `Word.indexLimit` the comparison is the
one on numbers: what fits is given, what does not is an error, and the
buffer or storage stays as it was. From there on the sum leaves its machine
word and nothing is compared (`Field.check_eq`, `Storage.locate_of_nearest`,
`Storage.obtain_of_pos`).

# Which sums there are

The end of a field is its offset and its width. The end of a stretch is
counted from the nearest block in front of it, so of all the ends that
could be counted it is the least (`Storage.indexed_iff`). A block that is
asked for is first rounded up and then put behind the lowest free place;
either sum may leave its word.
-/
import TsoBridge.Proofs.Access

namespace TsoBridge

-- ================================================================ fields

namespace Field

/-- The kinds of fields. -/
inductive Kind where
  | byte
  | half
  | full
  | signed
  | run (width : Nat)
deriving DecidableEq

/-- A value a field can have. -/
inductive Item where
  | byte (value : UInt8)
  | half (value : UInt16)
  | full (value : UInt32)
  | signed (value : Int32)
  | run (bytes : Bytes)
deriving DecidableEq

namespace Kind

/-- The number of bytes of a field. -/
def width : Kind → Nat
  | byte => 1
  | half => 2
  | full => 4
  | signed => 4
  | run width => width

/-- The value that bytes stand for. -/
def value : Kind → Bytes → Item
  | byte, bytes => .byte (UInt8.ofNat (Word.valueOf bytes))
  | half, bytes => .half (Word.toHalf bytes)
  | full, bytes => .full (Word.toFull bytes)
  | signed, bytes => .signed (Word.toSigned bytes)
  | run _, bytes => .run bytes

/-- The field of a kind at an offset. -/
def read (buffer : Bytes) (offset : Nat) : Kind → Outcome Item
  | byte => do return .byte (← readByte buffer offset)
  | half => do return .half (← readHalf buffer offset)
  | full => do return .full (← readFull buffer offset)
  | signed => do return .signed (← readSigned buffer offset)
  | run width => do return .run (← Field.read buffer offset width)

end Kind

namespace Item

/-- The kind of a value. -/
def kind : Item → Kind
  | byte _ => .byte
  | half _ => .half
  | full _ => .full
  | signed _ => .signed
  | run bytes => .run bytes.length

/-- The bytes of a value. -/
def bytes : Item → Bytes
  | byte value => [value]
  | half value => Word.ofHalf value
  | full value => Word.ofFull value
  | signed value => Word.ofSigned value
  | run bytes => bytes

/-- The buffer with a value at an offset. -/
def written (buffer : Bytes) (offset : Nat) : Item → Outcome Bytes
  | byte value => writeByte buffer offset value
  | half value => writeHalf buffer offset value
  | full value => writeFull buffer offset value
  | signed value => writeSigned buffer offset value
  | run bytes => Field.write buffer offset bytes

/-- Writes a value into a buffer. -/
def write (offset : Nat) (item : Item) : Op Bytes Unit :=
  Op.update fun buffer => do return ((), ← item.written buffer offset)

theorem length_bytes (item : Item) : item.bytes.length = item.kind.width := by
  cases item with
  | byte value => rfl
  | half value => exact Word.length_ofHalf value
  | full value => exact Word.length_ofFull value
  | signed value => exact Word.length_ofSigned value
  | run bytes => rfl

/-- The bytes of a value stand for it. -/
theorem value_bytes (item : Item) : item.kind.value item.bytes = item := by
  cases item with
  | byte value =>
      have hvalue : Word.valueOf [value] = value.toNat := by simp [Word.valueOf]
      show Item.byte (UInt8.ofNat (Word.valueOf [value])) = Item.byte value
      rw [hvalue, UInt8.ofNat_toNat]
  | half value => exact congrArg Item.half (Word.toHalf_ofHalf value)
  | full value => exact congrArg Item.full (Word.toFull_ofFull value)
  | signed value => exact congrArg Item.signed (Word.toSigned_ofSigned value)
  | run bytes => rfl

theorem written_eq (item : Item) (buffer : Bytes) (offset : Nat) :
    item.written buffer offset = Field.write buffer offset item.bytes := by
  cases item with
  | byte value => rfl
  | half value => rfl
  | full value => rfl
  | signed value => rfl
  | run bytes => rfl

end Item

/-- Each reader reads the bytes and makes a value of them. -/
theorem Kind.read_eq (kind : Kind) (buffer : Bytes) (offset : Nat) :
    kind.read buffer offset = (do return kind.value (← Field.read buffer offset kind.width)) := by
  cases kind with
  | byte => exact bind_assoc (Field.read buffer offset 1) _ _
  | half => exact bind_assoc (Field.read buffer offset 2) _ _
  | full => exact bind_assoc (Field.read buffer offset 4) _ _
  | signed => exact bind_assoc (Field.read buffer offset 4) _ _
  | run width => rfl

variable {buffer : Bytes} {offset : Nat}

theorem check_overrun {width : Nat} (h : buffer.length < offset + width) :
    check buffer offset width
      = if offset + width < Word.indexLimit then
          fail (.bufferOverrun offset width buffer.length)
        else trap := by
  rw [check_eq, if_neg (Nat.not_le.mpr h)]

/-- A field that lies within its buffer is read. -/
theorem Kind.read_within (hbuffer : buffer.length < Word.indexLimit) {kind : Kind}
    (h : offset + kind.width ≤ buffer.length) :
    kind.read buffer offset = .ok (kind.value (slice buffer offset kind.width)) := by
  rw [read_eq, Field.read_within h hbuffer]
  rfl

/-- A field that does not is refused, if its end is an index. -/
theorem Kind.read_overrun {kind : Kind} (h : buffer.length < offset + kind.width) :
    kind.read buffer offset
      = if offset + kind.width < Word.indexLimit then
          fail (.bufferOverrun offset kind.width buffer.length)
        else trap := by
  rw [read_eq]
  unfold Field.read
  rw [check_overrun h]
  split
  · rfl
  · rfl

/-- A value that was written is read back, and no other byte is changed. -/
theorem Item.write_within (hbuffer : buffer.length < Word.indexLimit) {item : Item}
    (h : offset + item.kind.width ≤ buffer.length) :
    ∃ after, item.write offset buffer = (.ok (), after) ∧ after.length = buffer.length
      ∧ item.kind.read after offset = .ok item
      ∧ ∀ place, place < offset ∨ offset + item.kind.width ≤ place →
        after[place]? = buffer[place]? := by
  have hfit : offset + item.bytes.length ≤ buffer.length := by rwa [length_bytes]
  have hlength := length_splice hfit
  refine ⟨splice buffer offset item.bytes, ?_, hlength, ?_, ?_⟩
  · apply Op.update_of_ok
    rw [written_eq, Field.write_within hfit hbuffer]
    rfl
  · rw [Kind.read_within (by rwa [hlength]) (by rwa [hlength]), ← length_bytes,
      slice_splice_self hfit, value_bytes]
  · intro place hplace
    rw [← length_bytes] at hplace
    exact getElem?_splice_apart hfit hplace

/-- A value that does not fit is refused, if its end is an index, and in any
case not written. -/
theorem Item.write_overrun {item : Item} (h : buffer.length < offset + item.kind.width) :
    item.write offset buffer
      = (if offset + item.kind.width < Word.indexLimit then
          fail (.bufferOverrun offset item.kind.width buffer.length)
        else trap, buffer) := by
  have hwritten : item.written buffer offset
      = if offset + item.kind.width < Word.indexLimit then
          fail (.bufferOverrun offset item.kind.width buffer.length)
        else trap := by
    rw [written_eq]
    unfold Field.write
    rw [length_bytes, check_overrun h]
    split
    · rfl
    · rfl
  have hkept : ∀ fault, item.written buffer offset = .error fault →
      item.write offset buffer = (.error fault, buffer) := by
    intro fault hfault
    apply Op.update_of_fault
    rw [hfault]
    rfl
  split at hwritten
  · next hindex =>
    rw [if_pos hindex]
    exact hkept _ hwritten
  · next hindex =>
    rw [if_neg hindex]
    exact hkept _ hwritten

end Field

-- =============================================================== storage

namespace Storage

variable {storage : Storage} {address : Address} {length : Nat}

/-- The end of a stretch, counted from some block at or below its address,
is an index, or there is no such block. -/
def Indexed (storage : Storage) (address : Address) (length : Nat) : Prop :=
  (∀ entry ∈ storage.shape, address.toNat < entry.1.toNat)
    ∨ ∃ entry ∈ storage.shape, entry.1.toNat ≤ address.toNat
      ∧ address.toNat - entry.1.toNat + length < Word.indexLimit

theorem indexed_of_none (hwf : storage.WellFormed) (h : storage.nearest address = none) :
    storage.Indexed address length := by
  left
  intro entry hentry
  obtain ⟨⟨base, block⟩, hmem, rfl⟩ := List.mem_map.mp hentry
  show address.toNat < base.toNat
  by_contra hlow
  obtain ⟨start, last, hnearest, -⟩ := nearest_last hwf hmem (Nat.not_lt.mp hlow)
  rw [h] at hnearest
  cases hnearest

/-- The nearest block has the least end, so it is the one to look at. -/
theorem indexed_iff {start : Address} {block : Block} (hwf : storage.WellFormed)
    (h : storage.nearest address = some (start, block)) :
    storage.Indexed address length
      ↔ address.toNat - start.toNat + length < Word.indexLimit := by
  obtain ⟨hmem, hbelow⟩ := nearest_mem h
  constructor
  · rintro (hnone | ⟨entry, hentry, hlow, hindex⟩)
    · have habove : address.toNat < start.toNat := hnone _ (List.mem_map_of_mem hmem)
      omega
    · obtain ⟨⟨base, other⟩, hother, rfl⟩ := List.mem_map.mp hentry
      unfold extentOf at hlow hindex
      dsimp only at hlow hindex
      obtain ⟨start', last, hnearest, -, hlast⟩ := nearest_last hwf hother hlow
      rw [h] at hnearest
      cases hnearest
      rcases hlast with heq | hbefore
      · cases heq
        exact hindex
      · omega
  · intro hindex
    right
    exact ⟨extentOf (start, block), List.mem_map_of_mem hmem, hbelow, hindex⟩

/-- A stretch in no block is a fault, if its end is an index. -/
theorem read_of_indexed (hwf : storage.WellFormed) (h : storage.Indexed address length)
    (hcovers : ¬storage.Covers address length) :
    storage.read address length = fail (.addressFault address length) := by
  have hlocate : storage.locate address length = fail (.addressFault address length) := by
    apply locate_fault hcovers
    intro start block hnearest
    exact (indexed_iff hwf hnearest).mp h
  unfold read
  rw [hlocate]
  rfl

theorem read_of_not_indexed (hwf : storage.WellFormed) (h : ¬storage.Indexed address length) :
    storage.read address length = trap := by
  cases hnearest : storage.nearest address with
  | none => exact absurd (indexed_of_none hwf hnearest) h
  | some found =>
      rw [indexed_iff hwf hnearest] at h
      unfold read
      rw [locate_of_nearest hnearest, if_neg h]
      rfl

/-- The sums that are formed to put a block at a free place are indices. -/
def Placeable (storage : Storage) (length : Nat) : Prop :=
  length + 7 < Word.indexLimit
    ∧ ∃ place, storage.IsFree length place ∧ place + extent length < Word.indexLimit

/-- What there is room for can be placed. -/
theorem HasRoom.placeable (h : storage.HasRoom length) : storage.Placeable length := by
  obtain ⟨place, hfree, hlimit⟩ := h
  have hextent := le_extent length
  unfold addressLimit at hlimit
  unfold Placeable Word.indexLimit
  exact ⟨by omega, place, hfree, by omega⟩

/-- A block there is no room for is refused, if the sums for it are
indices. -/
theorem obtain_of_not_hasRoom (hwf : storage.WellFormed) (hpos : 0 < length)
    (hfull : ¬storage.HasRoom length) (subpool : UInt8) :
    (storage.Placeable length →
        storage.obtain subpool length = fail (.obtainFailed length .exhausted))
      ∧ (¬storage.Placeable length → storage.obtain subpool length = trap) := by
  obtain ⟨hfree, hleast⟩ := gap_isLeast hwf hpos
  have hplaceable : storage.Placeable length
      ↔ length + 7 < Word.indexLimit
        ∧ storage.gap length + extent length < Word.indexLimit := by
    unfold Placeable
    constructor
    · rintro ⟨hround, place, hplace, hstop⟩
      have hle : storage.gap length ≤ place := hleast hplace
      omega
    · rintro ⟨hround, hstop⟩
      exact ⟨hround, storage.gap length, hfree, hstop⟩
  rw [hasRoom_iff hwf hpos] at hfull
  rw [obtain_of_pos hpos, if_neg hfull, hplaceable]
  constructor
  · intro hsums
    exact if_pos hsums
  · intro hsums
    exact if_neg hsums

end Storage

-- =============================================================== theorem

/-- A field of any kind is read and written exactly if it lies within its
buffer; a write changes the bytes of the field only, and reading it gives
back what was written. After any history, storage is read where a block
covers the stretch, and a block is obtained where there is room for it.
Everything else is refused and leaves all as it was, as long as the sums it
is compared by are indices; where one is not, it is a trap. -/
theorem bounds_exact {buffer : Bytes} (hbuffer : buffer.length < Word.indexLimit)
    (acts : List Storage.Act) :
    let storage := Storage.Act.afterAll acts {}
    (∀ (kind : Field.Kind) offset,
        (offset + kind.width ≤ buffer.length →
          kind.read buffer offset = .ok (kind.value (Field.slice buffer offset kind.width)))
        ∧ (buffer.length < offset + kind.width →
          kind.read buffer offset
            = if offset + kind.width < Word.indexLimit then
                fail (.bufferOverrun offset kind.width buffer.length)
              else trap))
      ∧ (∀ (item : Field.Item) offset,
        (offset + item.kind.width ≤ buffer.length →
          ∃ after, item.write offset buffer = (.ok (), after) ∧ after.length = buffer.length
            ∧ item.kind.read after offset = .ok item
            ∧ ∀ place, place < offset ∨ offset + item.kind.width ≤ place →
              after[place]? = buffer[place]?)
        ∧ (buffer.length < offset + item.kind.width →
          item.write offset buffer
            = (if offset + item.kind.width < Word.indexLimit then
                fail (.bufferOverrun offset item.kind.width buffer.length)
              else trap, buffer)))
      ∧ (∀ address length,
        (storage.Covers address length →
          ∃ base held offset, storage.contents base = some held
            ∧ address.toNat = base.toNat + offset ∧ offset + length ≤ held.length
            ∧ storage.read address length = .ok (Field.slice held offset length))
        ∧ (¬storage.Covers address length → storage.Indexed address length →
          storage.read address length = fail (.addressFault address length))
        ∧ (¬storage.Indexed address length → storage.read address length = trap))
      ∧ ∀ subpool length,
        storage.obtain subpool 0 = fail (.obtainFailed 0 .zeroLength)
        ∧ (0 < length → storage.HasRoom length →
          ∃ address after, storage.obtain subpool length = .ok (address, after)
            ∧ after.read address length = .ok (List.replicate length 0))
        ∧ (0 < length → ¬storage.HasRoom length → storage.Placeable length →
          storage.obtain subpool length = fail (.obtainFailed length .exhausted))
        ∧ (0 < length → ¬storage.Placeable length → storage.obtain subpool length = trap) := by
  intro storage
  have hwf : storage.WellFormed := Storage.Act.wellFormed_afterAll acts Storage.wellFormed_empty
  refine ⟨fun kind offset => ⟨?_, ?_⟩, fun item offset => ⟨?_, ?_⟩, ?_, ?_⟩
  · exact Field.Kind.read_within hbuffer
  · exact Field.Kind.read_overrun
  · exact Field.Item.write_within hbuffer
  · exact Field.Item.write_overrun
  · intro address length
    refine ⟨fun hcovers => ?_, fun hcovers hindexed => ?_, Storage.read_of_not_indexed hwf⟩
    · obtain ⟨base, held, offset, hheld, haddress, hfit⟩ := hcovers.contents hwf
      exact ⟨base, held, offset, hheld, haddress, hfit,
        Storage.read_of_contents hwf hheld haddress hfit⟩
    · exact Storage.read_of_indexed hwf hindexed hcovers
  · intro subpool length
    refine ⟨rfl, fun hpos hroom => ?_, fun hpos hfull => ?_, fun hpos hplaceable => ?_⟩
    · obtain ⟨address, after, hobtain, -, -, hread, -⟩ :=
        Storage.obtain_of_hasRoom hwf hpos hroom subpool
      exact ⟨address, after, hobtain, hread⟩
    · exact (Storage.obtain_of_not_hasRoom hwf hpos hfull subpool).1
    · have hfull : ¬storage.HasRoom length := fun hroom => hplaceable hroom.placeable
      exact (Storage.obtain_of_not_hasRoom hwf hpos hfull subpool).2 hplaceable

/-- Four bytes: a halfword is written at the end and read back there, and one
byte further on it is refused. -/
theorem bounds_exact_half :
    let buffer : Bytes := [1, 2, 3, 4]
    buffer.length < Word.indexLimit
      ∧ (∃ after, (Field.Item.half 0x1708).write 2 buffer = (.ok (), after)
        ∧ Field.Kind.half.read after 2 = .ok (.half 0x1708) ∧ after[1]? = some 2)
      ∧ (Field.Item.half 0x1708).write 3 buffer = (fail (.bufferOverrun 3 2 4), buffer) := by
  intro buffer
  have hbuffer : buffer.length < Word.indexLimit := by decide
  obtain ⟨-, hwrites, -⟩ := bounds_exact hbuffer []
  obtain ⟨after, hwrite, -, hread, hkept⟩ := (hwrites (.half 0x1708) 2).1 (by decide)
  have hrefused := (hwrites (.half 0x1708) 3).2 (by decide)
  refine ⟨hbuffer, ⟨after, hwrite, hread, ?_⟩, ?_⟩
  · rw [hkept 1 (by decide)]
    rfl
  · rw [hrefused]
    rfl

/-- At the end of the index range nothing is refused: a byte one place below
the last index is an overrun, at the last index it is a trap, and so are a
stretch and a block of the greatest length. -/
theorem bounds_past_index :
    Field.readByte [0] 0xFFFFFFFFFFFFFFFE = fail (.bufferOverrun 0xFFFFFFFFFFFFFFFE 1 1)
      ∧ Field.readByte [0] 0xFFFFFFFFFFFFFFFF = trap
      ∧ (Storage.Act.afterAll [.obtain 0 8] {}).read 0x10001 0xFFFFFFFFFFFFFFFF = trap
      ∧ Storage.obtain {} 0 0xFFFFFFFFFFFFFFFF = trap :=
  ⟨rfl, rfl, by decide +kernel, rfl⟩

end TsoBridge
