/-
Regions of a block. A service that answers in the caller's storage writes
a few fields of one block; `Changed` says which stretch of the block may
differ afterwards and that nothing else does, `Stands` that some bytes
stand at an offset. What stands outside a changed stretch stands on, so a
sequence of writes is followed one field at a time.
-/
import TsoBridge.Proofs.Storage

namespace TsoBridge.Storage

variable {storage after third : Storage} {base other : Address} {low high offset : Nat}
  {data : Bytes}

-- =============================================================== stretches

/-- At `base` there is a block of `size` bytes. -/
def HasBlock (storage : Storage) (base : Address) (size : Nat) : Prop :=
  ∃ bytes, storage.contents base = some bytes ∧ bytes.length = size

/-- Of the block at `base` only the bytes from `low` to `high` may differ,
and of no other block any. -/
structure Changed (base : Address) (low high : Nat) (storage after : Storage) : Prop where
  wellFormed : after.WellFormed
  others : ∀ other, other ≠ base → after.contents other = storage.contents other
  inside : ∀ bytes, storage.contents base = some bytes →
    ∃ bytes', after.contents base = some bytes' ∧ bytes'.length = bytes.length
      ∧ ∀ offset width, offset + width ≤ low ∨ high ≤ offset →
        Field.slice bytes' offset width = Field.slice bytes offset width

/-- Nothing has changed. -/
theorem Changed.refl (hwf : storage.WellFormed) : Changed base low high storage storage :=
  ⟨hwf, fun _ _ => rfl, fun bytes hbytes => ⟨bytes, hbytes, rfl, fun _ _ _ => rfl⟩⟩

/-- Two changes of one region are a change of it. -/
theorem Changed.trans (h : Changed base low high storage after)
    (h' : Changed base low high after third) : Changed base low high storage third := by
  refine ⟨h'.wellFormed, fun other hother => ?_, fun bytes hbytes => ?_⟩
  · rw [h'.others other hother, h.others other hother]
  · obtain ⟨bytes', hbytes', hlength, hslice⟩ := h.inside bytes hbytes
    obtain ⟨bytes'', hbytes'', hlength', hslice'⟩ := h'.inside bytes' hbytes'
    refine ⟨bytes'', hbytes'', hlength'.trans hlength, fun offset width hapart => ?_⟩
    rw [hslice' offset width hapart, hslice offset width hapart]

/-- A wider stretch may differ too. -/
theorem Changed.widen {low' high' : Nat} (h : Changed base low high storage after)
    (hlow : low' ≤ low) (hhigh : high ≤ high') : Changed base low' high' storage after := by
  refine ⟨h.wellFormed, h.others, fun bytes hbytes => ?_⟩
  obtain ⟨bytes', hbytes', hlength, hslice⟩ := h.inside bytes hbytes
  refine ⟨bytes', hbytes', hlength, fun offset width hapart => hslice offset width ?_⟩
  omega

/-- The blocks are the same before and after. -/
theorem HasBlock.changed {size : Nat} (h : HasBlock storage other size)
    (hchanged : Changed base low high storage after) : HasBlock after other size := by
  obtain ⟨bytes, hbytes, hsize⟩ := h
  by_cases heq : other = base
  · subst heq
    obtain ⟨bytes', hbytes', hlength, -⟩ := hchanged.inside bytes hbytes
    exact ⟨bytes', hbytes', hlength.trans hsize⟩
  · exact ⟨bytes, (hchanged.others other heq).trans hbytes, hsize⟩

-- ================================================================== fields

/-- `data` stands at an offset of the block at `base`. -/
def Stands (storage : Storage) (base : Address) (offset : Nat) (data : Bytes) : Prop :=
  ∃ bytes, storage.contents base = some bytes ∧ offset + data.length ≤ bytes.length
    ∧ Field.slice bytes offset data.length = data

/-- What stands apart from a stretch that changes stands on. -/
theorem Stands.changed (h : Stands storage other offset data)
    (hchanged : Changed base low high storage after)
    (hapart : other ≠ base ∨ offset + data.length ≤ low ∨ high ≤ offset) :
    Stands after other offset data := by
  obtain ⟨bytes, hbytes, hfit, hslice⟩ := h
  by_cases heq : other = base
  · subst heq
    obtain ⟨bytes', hbytes', hlength, hsame⟩ := hchanged.inside bytes hbytes
    have hrange : offset + data.length ≤ low ∨ high ≤ offset :=
      hapart.resolve_left fun hne => hne rfl
    refine ⟨bytes', hbytes', by omega, ?_⟩
    rw [hsame offset data.length hrange, hslice]
  · exact ⟨bytes, (hchanged.others other heq).trans hbytes, hfit, hslice⟩

/-- Bytes that stand in a block are read there. -/
theorem Stands.read (h : Stands storage base offset data) (hwf : storage.WellFormed) :
    storage.read (base.shift offset) data.length = .ok data := by
  obtain ⟨bytes, hbytes, hfit, hslice⟩ := h
  rw [read_contents hwf hbytes hfit, hslice]

/-- So are words and halfwords. -/
theorem Stands.readFull {word : UInt32} (h : Stands storage base offset (Word.ofFull word))
    (hwf : storage.WellFormed) : storage.readFull (base.shift offset) = .ok word := by
  have hread := h.read hwf
  rw [Word.length_ofFull] at hread
  unfold Storage.readFull
  rw [hread]
  show Except.ok (Word.toFull (Word.ofFull word)) = _
  rw [Word.toFull_ofFull]

theorem Stands.readHalf {half : UInt16} (h : Stands storage base offset (Word.ofHalf half))
    (hwf : storage.WellFormed) : storage.readHalf (base.shift offset) = .ok half := by
  have hread := h.read hwf
  rw [Word.length_ofHalf] at hread
  unfold Storage.readHalf
  rw [hread]
  show Except.ok (Word.toHalf (Word.ofHalf half)) = _
  rw [Word.toHalf_ofHalf]

/-- What stands is found in a reading of the whole block. -/
theorem Stands.slice {size : Nat} {bytes : Bytes} (h : Stands storage base offset data)
    (hwf : storage.WellFormed) (hblock : HasBlock storage base size)
    (hread : storage.read base size = .ok bytes) :
    Field.slice bytes offset data.length = data := by
  obtain ⟨held, hheld, -, hslice⟩ := h
  obtain ⟨held', hheld', rfl⟩ := hblock
  rw [hheld] at hheld'
  cases hheld'
  have hwhole := read_contents hwf hheld (Nat.le_of_eq (Nat.zero_add held.length))
  rw [Address.shift_zero, Field.slice_full, hread] at hwhole
  cases hwhole
  exact hslice

/-- What stands behind the front of what stands. -/
theorem Stands.behind {front : Bytes} (h : Stands storage base offset (front ++ data)) :
    Stands storage base (offset + front.length) data := by
  obtain ⟨bytes, hbytes, hfit, hslice⟩ := h
  rw [List.length_append] at hfit hslice
  refine ⟨bytes, hbytes, by omega, ?_⟩
  have hdrop := congrArg (List.drop front.length) hslice
  rw [List.drop_left] at hdrop
  unfold Field.slice at hdrop ⊢
  rw [List.drop_take, List.drop_drop, Nat.add_sub_cancel_left] at hdrop
  exact hdrop

/-- Two stretches one behind the other. -/
theorem Stands.append {front : Bytes} (h : Stands storage base offset front)
    (h' : Stands storage base (offset + front.length) data) :
    Stands storage base offset (front ++ data) := by
  obtain ⟨bytes, hbytes, -, hslice⟩ := h
  obtain ⟨bytes', hbytes', hfit', hslice'⟩ := h'
  rw [hbytes] at hbytes'
  cases hbytes'
  refine ⟨bytes, hbytes, by rw [List.length_append]; omega, ?_⟩
  unfold Field.slice at hslice hslice' ⊢
  rw [List.length_append, List.take_add, hslice, List.drop_drop, hslice']

-- ================================================================== writes

/-- A write within a block. -/
theorem write_stands {size : Nat} (hwf : storage.WellFormed) (hblock : HasBlock storage base size)
    (hoffset : offset < size) (hfit : offset + data.length ≤ size)
    (h : storage.write (base.shift offset) data = .ok after) :
    Changed base offset (offset + data.length) storage after ∧ Stands after base offset data := by
  obtain ⟨bytes, hbytes, rfl⟩ := hblock
  obtain ⟨result, hresult, hspliced, hothers⟩ := write_contents hwf hbytes hoffset hfit
  rw [h] at hresult
  cases hresult
  refine ⟨⟨write_wellFormed hwf h, hothers, fun held hheld => ?_⟩, ?_⟩
  · rw [hbytes] at hheld
    cases hheld
    refine ⟨_, hspliced, Field.length_splice hfit, fun other width hapart => ?_⟩
    exact Field.slice_splice_apart hfit hapart
  · refine ⟨_, hspliced, ?_, Field.slice_splice_self hfit⟩
    rw [Field.length_splice hfit]
    exact hfit

/-- A write within a block goes through. -/
theorem write_run {size : Nat} (hwf : storage.WellFormed) (hblock : HasBlock storage base size)
    (hoffset : offset < size) (hfit : offset + data.length ≤ size) :
    ∃ after, storage.write (base.shift offset) data = .ok after
      ∧ Changed base offset (offset + data.length) storage after
      ∧ Stands after base offset data := by
  obtain ⟨bytes, hbytes, hsize⟩ := hblock
  have hwritten : ∃ after, storage.write (base.shift offset) data = .ok after
      ∧ after.contents base = some (Field.splice bytes offset data)
      ∧ ∀ other, other ≠ base → after.contents other = storage.contents other :=
    write_contents hwf hbytes (by omega) (by omega)
  obtain ⟨after, hwrite, -, -⟩ := hwritten
  exact ⟨after, hwrite, write_stands hwf ⟨bytes, hbytes, hsize⟩ hoffset hfit hwrite⟩

end TsoBridge.Storage
