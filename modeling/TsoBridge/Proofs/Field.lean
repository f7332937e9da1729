/-
Fields of buffers as lists. A buffer read at an offset is a slice of it, a
buffer written at an offset is a splice, and the two laws that carry every
control block are here: a splice read where it was made gives what was
written, and read anywhere else gives what stood there.

Words are the other half: the bytes of a word read as a word are the word.
-/
import TsoBridge.Field

namespace TsoBridge

namespace Outcome

variable {α β : Type}

/-- A sequence of computations that returned: its first part did, and its
second did with that value. -/
theorem bind_ok {x : Outcome α} {f : α → Outcome β} {b : β}
    (h : (x >>= f) = .ok b) : ∃ a, x = .ok a ∧ f a = .ok b := by
  cases x with
  | ok a => exact ⟨a, rfl, h⟩
  | error fault => cases h

/-- Sequences agree whose second parts agree on what the first returns. -/
theorem bind_congr {x : Outcome α} {f g : α → Outcome β} (h : ∀ a, x = .ok a → f a = g a) :
    (x >>= f) = (x >>= g) := by
  cases x with
  | ok a => exact h a rfl
  | error fault => rfl

end Outcome

/-- Below the limit, indices add up. -/
theorem Word.addIndex_of_lt {a b : Nat} (h : a + b < indexLimit) : addIndex a b = .ok (a + b) :=
  if_pos h

/-- From the limit on they trap. -/
theorem Word.addIndex_of_le {a b : Nat} (h : indexLimit ≤ a + b) : addIndex a b = trap :=
  if_neg (Nat.not_lt.mpr h)

namespace Field

-- ================================================= slices and splices

/-- The `width` bytes at `offset`. -/
def slice (bytes : Bytes) (offset width : Nat) : Bytes :=
  (bytes.drop offset).take width

/-- The buffer with `data` in place of the bytes at `offset`. -/
def splice (bytes : Bytes) (offset : Nat) (data : Bytes) : Bytes :=
  bytes.take offset ++ data ++ bytes.drop (offset + data.length)

/-- A slice within the bytes is as wide as asked for. -/
theorem length_slice {bytes : Bytes} {offset width : Nat}
    (h : offset + width ≤ bytes.length) : (slice bytes offset width).length = width := by
  unfold slice
  rw [List.length_take, List.length_drop]
  omega

theorem slice_full (bytes : Bytes) : slice bytes 0 bytes.length = bytes := by
  simp [slice]

theorem slice_zero_width (bytes : Bytes) (offset : Nat) : slice bytes offset 0 = [] := by
  simp [slice]

/-- A slice of a slice. -/
theorem slice_slice {bytes : Bytes} {offset inner width room : Nat} (h : inner + width ≤ room) :
    slice (slice bytes offset room) inner width = slice bytes (offset + inner) width := by
  unfold slice
  rw [List.drop_take, List.take_take, List.drop_drop, Nat.min_eq_left (by omega)]

/-- A splice within the bytes keeps their length. -/
theorem length_splice {bytes data : Bytes} {offset : Nat}
    (h : offset + data.length ≤ bytes.length) :
    (splice bytes offset data).length = bytes.length := by
  unfold splice
  simp only [List.length_append, List.length_take, List.length_drop]
  omega

/-- What was written is read back. -/
theorem slice_splice_self {bytes data : Bytes} {offset : Nat}
    (h : offset + data.length ≤ bytes.length) :
    slice (splice bytes offset data) offset data.length = data := by
  have htake : (bytes.take offset).length = offset := by
    rw [List.length_take]
    omega
  unfold slice splice
  rw [List.append_assoc, List.drop_append_of_le_length (by omega), List.drop_eq_nil_of_le
    (by omega), List.nil_append, List.take_left]

/-- A byte apart from what was written is what it was. -/
theorem getElem?_splice_apart {bytes data : Bytes} {offset place : Nat}
    (h : offset + data.length ≤ bytes.length)
    (hapart : place < offset ∨ offset + data.length ≤ place) :
    (splice bytes offset data)[place]? = bytes[place]? := by
  have htake : (bytes.take offset).length = offset := by
    rw [List.length_take]
    omega
  unfold splice
  rcases hapart with hbefore | hafter
  · rw [List.append_assoc, List.getElem?_append_left (by omega),
      List.getElem?_take_of_lt hbefore]
  · rw [List.getElem?_append_right (by rw [List.length_append]; omega), List.getElem?_drop,
      List.length_append, htake]
    congr 1
    omega

/-- What stands elsewhere is read as before. -/
theorem slice_splice_apart {bytes data : Bytes} {offset other width : Nat}
    (h : offset + data.length ≤ bytes.length)
    (hapart : other + width ≤ offset ∨ offset + data.length ≤ other) :
    slice (splice bytes offset data) other width = slice bytes other width := by
  unfold slice
  apply List.ext_getElem?
  intro i
  simp only [List.getElem?_take, List.getElem?_drop]
  split
  · exact getElem?_splice_apart h (by omega)
  · rfl

-- ========================================================= the accesses

/-- The end of a field is compared only if it is an index. -/
theorem check_eq (buffer : Bytes) (offset width : Nat) :
    check buffer offset width
      = if offset + width < Word.indexLimit then
          if offset + width ≤ buffer.length then .ok ()
          else fail (.bufferOverrun offset width buffer.length)
        else trap := by
  unfold check
  by_cases h : offset + width < Word.indexLimit
  · rw [Word.addIndex_of_lt h, if_pos h]
    rfl
  · rw [Word.addIndex_of_le (Nat.not_lt.mp h), if_neg h]
    rfl

/-- A field that passed the check fits. -/
theorem check_ok {buffer : Bytes} {offset width : Nat} {done : Unit}
    (h : check buffer offset width = .ok done) : offset + width ≤ buffer.length := by
  rw [check_eq] at h
  split at h
  · split at h
    · assumption
    · cases h
  · cases h

/-- A field that lies within its buffer passes the check. -/
theorem check_within {buffer : Bytes} {offset width : Nat} (h : offset + width ≤ buffer.length)
    (hlimit : buffer.length < Word.indexLimit) : check buffer offset width = .ok () := by
  rw [check_eq, if_pos (Nat.lt_of_le_of_lt h hlimit), if_pos h]

/-- A field that fits is read. -/
theorem read_within {buffer : Bytes} {offset width : Nat} (h : offset + width ≤ buffer.length)
    (hlimit : buffer.length < Word.indexLimit) :
    read buffer offset width = .ok (slice buffer offset width) := by
  unfold read
  rw [check_within h hlimit]
  rfl

/-- A field that fits is written. -/
theorem write_within {buffer data : Bytes} {offset : Nat}
    (h : offset + data.length ≤ buffer.length) (hlimit : buffer.length < Word.indexLimit) :
    write buffer offset data = .ok (splice buffer offset data) := by
  unfold write
  rw [check_within h hlimit]
  rfl

/-- Fields that lie within their buffer are written. -/
theorem writeAll_within {fields : List (Nat × Bytes)} {buffer : Bytes}
    (h : ∀ field ∈ fields, field.1 + field.2.length ≤ buffer.length)
    (hlimit : buffer.length < Word.indexLimit) : ∃ out, writeAll buffer fields = .ok out := by
  induction fields generalizing buffer with
  | nil => exact ⟨buffer, rfl⟩
  | cons field rest ih =>
      obtain ⟨offset, data⟩ := field
      have hfit : offset + data.length ≤ buffer.length := h _ List.mem_cons_self
      have hlength := length_splice hfit
      have hrest : ∃ out, writeAll (splice buffer offset data) rest = .ok out := by
        apply ih
        · rw [hlength]
          exact fun field hfield => h field (List.mem_cons_of_mem _ hfield)
        · rw [hlength]
          exact hlimit
      obtain ⟨out, hout⟩ := hrest
      refine ⟨out, ?_⟩
      unfold writeAll
      rw [write_within hfit hlimit]
      exact hout

/-- A field that was read is a slice of its buffer. -/
theorem read_ok {buffer out : Bytes} {offset width : Nat}
    (h : read buffer offset width = .ok out) :
    offset + width ≤ buffer.length ∧ out = slice buffer offset width := by
  unfold read at h
  obtain ⟨done, hcheck, h⟩ := Outcome.bind_ok h
  cases h
  exact ⟨check_ok hcheck, rfl⟩

/-- A field that was written is spliced into its buffer. -/
theorem write_ok {buffer out data : Bytes} {offset : Nat}
    (h : write buffer offset data = .ok out) :
    offset + data.length ≤ buffer.length ∧ out = splice buffer offset data := by
  unfold write at h
  obtain ⟨done, hcheck, h⟩ := Outcome.bind_ok h
  cases h
  exact ⟨check_ok hcheck, rfl⟩

/-- Fields that were written, the first and the rest. -/
theorem writeAll_cons_ok {buffer out data : Bytes} {offset : Nat}
    {rest : List (Nat × Bytes)}
    (h : writeAll buffer ((offset, data) :: rest) = .ok out) :
    offset + data.length ≤ buffer.length
      ∧ writeAll (splice buffer offset data) rest = .ok out := by
  unfold writeAll at h
  obtain ⟨next, hnext, h⟩ := Outcome.bind_ok h
  obtain ⟨hfit, rfl⟩ := write_ok hnext
  exact ⟨hfit, h⟩

/-- Fields written elsewhere leave a slice alone, and the length as it
was. -/
theorem writeAll_apart {fields : List (Nat × Bytes)} {buffer out : Bytes}
    (h : writeAll buffer fields = .ok out) :
    out.length = buffer.length ∧ ∀ other width,
      (∀ field ∈ fields, other + width ≤ field.1 ∨ field.1 + field.2.length ≤ other) →
      slice out other width = slice buffer other width := by
  induction fields generalizing buffer with
  | nil =>
      cases h
      exact ⟨rfl, fun _ _ _ => rfl⟩
  | cons field rest ih =>
      obtain ⟨offset, data⟩ := field
      obtain ⟨hfit, hrest⟩ := writeAll_cons_ok h
      obtain ⟨hlength, hslice⟩ := ih hrest
      refine ⟨hlength.trans (length_splice hfit), fun other width hother => ?_⟩
      rw [hslice other width fun field hfield => hother field (List.mem_cons_of_mem _ hfield)]
      exact slice_splice_apart hfit (hother _ List.mem_cons_self)

/-- Fields that were written fit their buffer. -/
theorem writeAll_fits {fields : List (Nat × Bytes)} {buffer out : Bytes}
    (h : writeAll buffer fields = .ok out) :
    ∀ field ∈ fields, field.1 + field.2.length ≤ out.length := by
  induction fields generalizing buffer with
  | nil => exact fun _ h => absurd h List.not_mem_nil
  | cons field rest ih =>
      obtain ⟨offset, data⟩ := field
      obtain ⟨hfit, hrest⟩ := writeAll_cons_ok h
      intro field hfield
      rcases List.mem_cons.mp hfield with rfl | hlater
      · rw [(writeAll_apart hrest).1, length_splice hfit]
        exact hfit
      · exact ih hrest field hlater

/-- A field is found where it was written, unless a later one was written
over it. -/
theorem writeAll_found {before after : List (Nat × Bytes)} {buffer out data : Bytes}
    {offset : Nat}
    (h : writeAll buffer (before ++ (offset, data) :: after) = .ok out)
    (hafter : ∀ field ∈ after,
      offset + data.length ≤ field.1 ∨ field.1 + field.2.length ≤ offset) :
    slice out offset data.length = data := by
  induction before generalizing buffer with
  | nil =>
      obtain ⟨hfit, hrest⟩ := writeAll_cons_ok h
      rw [(writeAll_apart hrest).2 offset data.length hafter]
      exact slice_splice_self hfit
  | cons field rest ih => exact ih (writeAll_cons_ok h).2

/-- Of fields that lie apart from each other each is found. -/
theorem writeAll_mem {fields : List (Nat × Bytes)} {buffer out data : Bytes} {offset : Nat}
    (h : writeAll buffer fields = .ok out)
    (hapart : fields.Pairwise fun first second =>
      first.1 + first.2.length ≤ second.1 ∨ second.1 + second.2.length ≤ first.1)
    (hmem : (offset, data) ∈ fields) : slice out offset data.length = data := by
  obtain ⟨before, after, rfl⟩ := List.append_of_mem hmem
  have hafter := (List.pairwise_append.mp hapart).2.1
  exact writeAll_found h fun field hfield => List.rel_of_pairwise_cons hafter hfield

end Field

-- ================================================================= words

namespace Word

/-- A number is written in exactly `width` bytes. -/
theorem length_bytesOf (width n : Nat) : (bytesOf width n).length = width := by
  induction width generalizing n with
  | zero => rfl
  | succ width ih => rw [bytesOf, List.length_append, ih, List.length_singleton]

@[simp] theorem length_ofHalf (value : UInt16) : (ofHalf value).length = 2 :=
  length_bytesOf 2 _

@[simp] theorem length_ofFull (value : UInt32) : (ofFull value).length = 4 :=
  length_bytesOf 4 _

@[simp] theorem length_ofSigned (value : Int32) : (ofSigned value).length = 4 :=
  length_ofFull _

/-- One more low-order byte shifts the number and adds the byte. -/
theorem valueOf_append_byte (bytes : Bytes) (byte : UInt8) :
    valueOf (bytes ++ [byte]) = valueOf bytes * 256 + byte.toNat := by
  unfold valueOf
  rw [List.foldl_append]
  rfl

/-- A halfword keeps a number up to its overflow. -/
theorem valueOf_bytesOf_two (n : Nat) : valueOf (bytesOf 2 n) = n % 0x10000 := by
  simp only [bytesOf, valueOf_append_byte, UInt8.toNat_ofNat']
  show (0 * 256 + n / 256 % 256) * 256 + n % 256 = _
  omega

/-- So does a fullword. -/
theorem valueOf_bytesOf_four (n : Nat) : valueOf (bytesOf 4 n) = n % 0x100000000 := by
  simp only [bytesOf, valueOf_append_byte, UInt8.toNat_ofNat']
  show (((0 * 256 + n / 256 / 256 / 256 % 256) * 256 + n / 256 / 256 % 256) * 256
    + n / 256 % 256) * 256 + n % 256 = _
  omega

@[simp] theorem toHalf_ofHalf (value : UInt16) : toHalf (ofHalf value) = value := by
  unfold toHalf ofHalf
  rw [valueOf_bytesOf_two]
  apply UInt16.toNat_inj.mp
  rw [UInt16.toNat_ofNat']
  have := value.toNat_lt
  omega

@[simp] theorem toFull_ofFull (value : UInt32) : toFull (ofFull value) = value := by
  unfold toFull ofFull
  rw [valueOf_bytesOf_four]
  apply UInt32.toNat_inj.mp
  rw [UInt32.toNat_ofNat']
  have := value.toNat_lt
  omega

@[simp] theorem toSigned_ofSigned (value : Int32) : toSigned (ofSigned value) = value := by
  unfold toSigned ofSigned
  rw [toFull_ofFull]
  rfl

end Word
end TsoBridge
