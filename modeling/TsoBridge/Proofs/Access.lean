/-
Reading and writing, over every history of an address space. An access
looks at one block only, the last that starts at or below its address, and
that is the right one because no two blocks meet.

# Where an access finds its bytes

A stretch that lies in some block lies in the last block that starts at or
below it: any other block ends, rounded up, before that one starts
(`nearest_last`), so at most its end is there, and behind an end only the
empty stretch fits. An access therefore succeeds exactly if its stretch
lies in a block (`Storage.Covers`). The bytes between the end of a block
and the next doubleword belong to no block.

# What a write leaves

A write splices the bytes of one block (`write_ok`). The length of that
block and every other block are as they were, so what a stretch lies in is
the same before and after, and so are the bytes of a stretch apart from the
one that was written.
-/
import TsoBridge.Proofs.FrameRelease
import TsoBridge.Proofs.Safety

namespace TsoBridge

theorem Address.eq_shift {base address : Address} {offset : Nat}
    (h : address.toNat = base.toNat + offset) : address = base.shift offset := by
  have haddress := address.toNat_lt
  apply UInt32.toNat_inj.mp
  rw [Address.toNat_shift (by omega), h]

namespace Storage

variable {storage after : Storage} {address other : Address} {width : Nat} {data : Bytes}

-- ============================================================== locating

/-- The addresses of a stretch of bytes. -/
def stretch (address : Address) (width : Nat) : Set Nat :=
  Set.Ico address.toNat (address.toNat + width)

/-- A stretch that lies in a block lies in the contents under some
address. -/
theorem Covers.contents (h : storage.Covers address width) (hwf : storage.WellFormed) :
    ∃ base held offset, storage.contents base = some held
      ∧ address.toNat = base.toNat + offset ∧ offset + width ≤ held.length := by
  obtain ⟨entry, hentry, hlow, hhigh⟩ := h
  obtain ⟨⟨base, block⟩, hmem, rfl⟩ := List.mem_map.mp hentry
  unfold extentOf at hlow hhigh
  dsimp only at hlow hhigh
  refine ⟨base, block.bytes, address.toNat - base.toNat, ?_, by omega, ?_⟩
  · unfold Storage.contents
    rw [Table.get?_of_mem hwf.distinct hmem]
    rfl
  · rw [Block.length_bytes]
    omega

theorem covers_of_contents {base : Address} {held : Bytes} {offset : Nat}
    (hheld : storage.contents base = some held) (haddress : address.toNat = base.toNat + offset)
    (hfit : offset + width ≤ held.length) : storage.Covers address width := by
  obtain ⟨block, hmem, -, rfl⟩ := contents_eq_some hheld
  rw [Block.length_bytes] at hfit
  refine ⟨extentOf (base, block), List.mem_map_of_mem hmem, ?_, ?_⟩
  · show base.toNat ≤ address.toNat
    omega
  · show address.toNat + width ≤ base.toNat + block.length
    omega

/-- A stretch that lies in a block is located. -/
theorem locate_of_covers (hwf : storage.WellFormed) (h : storage.Covers address width) :
    ∃ found, storage.locate address width = .ok found := by
  have hlimit := h.le hwf
  obtain ⟨entry, hentry, hlow, hhigh⟩ := h
  obtain ⟨⟨base, block⟩, hmem, rfl⟩ := List.mem_map.mp hentry
  unfold extentOf at hlow hhigh
  dsimp only at hlow hhigh
  obtain ⟨start, last, hnearest, hle, hlast⟩ := nearest_last hwf hmem hlow
  have hextent := le_extent block.length
  have hfit : address.toNat - start.toNat + width ≤ last.length := by
    rcases hlast with heq | hbefore
    · cases heq
      omega
    · -- the stretch is empty and starts where the last block does
      omega
  exact ⟨_, (locate_eq (le_runLimit (by omega)) hnearest).trans (if_pos hfit)⟩

/-- A stretch that lies in no block is a fault, if its end can be compared
with the block in front of it. -/
theorem locate_fault (h : ¬storage.Covers address width)
    (hindex : ∀ start block, storage.nearest address = some (start, block) →
      address.toNat - start.toNat + width < Word.indexLimit) :
    storage.locate address width = fail (.addressFault address width) := by
  cases hnearest : storage.nearest address with
  | none =>
      unfold locate
      rw [hnearest]
  | some found =>
      have hlocate := locate_of_nearest hnearest width
      rw [if_pos (hindex _ _ hnearest)] at hlocate
      split at hlocate
      · exact absurd (locate_covers hlocate) h
      · exact hlocate

theorem locate_of_not_covers (hwidth : width ≤ Word.runLimit)
    (h : ¬storage.Covers address width) :
    storage.locate address width = fail (.addressFault address width) := by
  apply locate_fault h
  intro start block _
  have haddress := address.toNat_lt
  unfold Word.runLimit at hwidth
  unfold Word.indexLimit
  omega

-- =============================================================== reading

/-- What is read of a stretch in a block is a slice of its contents. -/
theorem read_of_contents {base : Address} {held : Bytes} {offset : Nat}
    (hwf : storage.WellFormed) (hheld : storage.contents base = some held)
    (haddress : address.toNat = base.toNat + offset) (hfit : offset + width ≤ held.length) :
    storage.read address width = .ok (Field.slice held offset width) := by
  rw [Address.eq_shift haddress]
  exact read_contents hwf hheld hfit

theorem read_of_not_covers (hwidth : width ≤ Word.runLimit) (h : ¬storage.Covers address width) :
    storage.read address width = fail (.addressFault address width) := by
  unfold read
  rw [locate_of_not_covers hwidth h]
  rfl

-- =============================================================== writing

/-- A stretch that lies in a block can be written. -/
theorem write_of_covers (hwf : storage.WellFormed) (h : storage.Covers address data.length) :
    ∃ after, storage.write address data = .ok after := by
  obtain ⟨found, hfound⟩ := locate_of_covers hwf h
  unfold write
  rw [hfound]
  exact ⟨_, rfl⟩

theorem write_of_not_covers (hdata : data.length ≤ Word.runLimit)
    (h : ¬storage.Covers address data.length) :
    storage.write address data = fail (.addressFault address data.length) := by
  unfold write
  rw [locate_of_not_covers hdata h]
  rfl

/-- A write splices the contents under one address. -/
theorem write_ok (hwf : storage.WellFormed) (h : storage.write address data = .ok after) :
    ∃ base held offset, storage.contents base = some held
      ∧ address.toNat = base.toNat + offset ∧ offset + data.length ≤ held.length
      ∧ after.contents base = some (Field.splice held offset data)
      ∧ ∀ other, other ≠ base → after.contents other = storage.contents other := by
  obtain ⟨⟨base, block, offset⟩, hlocate, hwritten⟩ := Outcome.bind_ok h
  obtain ⟨hmem, haddress, hfit⟩ := locate_ok hlocate
  cases hwritten
  refine ⟨base, block.bytes, offset, ?_, haddress, ?_, ?_,
    fun other hother => contents_insert_ne storage _ hother⟩
  · unfold contents
    rw [Table.get?_of_mem hwf.distinct hmem]
    rfl
  · rwa [Block.length_bytes]
  · rw [contents_insert_self, Block.bytes_write_eq]

/-- What was written is read back. -/
theorem read_write_self (hwf : storage.WellFormed) (h : storage.write address data = .ok after) :
    after.read address data.length = .ok data := by
  obtain ⟨base, held, offset, -, haddress, hfit, hspliced, -⟩ := write_ok hwf h
  rw [read_of_contents (write_wellFormed hwf h) hspliced haddress
    (by rwa [Field.length_splice hfit]), Field.slice_splice_self hfit]

/-- A slice apart from what was spliced in, the two compared as stretches
behind one base. -/
theorem slice_splice_stretch {base : Address} {held : Bytes} {offset place : Nat}
    (hfit : offset + data.length ≤ held.length) (haddress : address.toNat = base.toNat + offset)
    (hother : other.toNat = base.toNat + place)
    (hapart : Disjoint (stretch other width) (stretch address data.length)) :
    Field.slice (Field.splice held offset data) place width = Field.slice held place width := by
  rcases Nat.eq_zero_or_pos width with rfl | hwidth
  · rw [Field.slice_zero_width, Field.slice_zero_width]
  · rcases Nat.eq_zero_or_pos data.length with hnone | hsome
    · -- nothing was written, so the splice is what was there
      rw [List.length_eq_zero_iff.mp hnone]
      unfold Field.splice
      simp
    · unfold stretch at hapart
      rw [Set.Ico_disjoint_Ico] at hapart
      exact Field.slice_splice_apart hfit (by omega)

/-- What stands elsewhere is read as before. -/
theorem read_write_apart (hwf : storage.WellFormed) (h : storage.write address data = .ok after)
    (hwidth : width ≤ Word.runLimit)
    (hapart : Disjoint (stretch other width) (stretch address data.length)) :
    after.read other width = storage.read other width := by
  have hwf' := write_wellFormed hwf h
  by_cases hcovers : storage.Covers other width
  · obtain ⟨base, held, offset, hheld, haddress, hfit, hspliced, hothers⟩ := write_ok hwf h
    obtain ⟨start, found, place, hfound, hother, hend⟩ := hcovers.contents hwf
    rw [read_of_contents hwf hfound hother hend]
    by_cases hsame : start = base
    · subst hsame
      rw [hheld] at hfound
      cases hfound
      rw [read_of_contents hwf' hspliced hother (by rwa [Field.length_splice hfit]),
        slice_splice_stretch hfit haddress hother hapart]
    · rw [← hothers start hsame] at hfound
      exact read_of_contents hwf' hfound hother hend
  · have hcovers' : ¬after.Covers other width := by
      unfold Covers
      rwa [(write_shape hwf h).1]
    rw [read_of_not_covers hwidth hcovers, read_of_not_covers hwidth hcovers']

theorem run_write_of_ok (h : storage.write address data = .ok after) :
    (Act.write address data).run storage = (.ok (), after) := by
  show Op.update (fun storage => do return ((), ← storage.write address data)) storage = _
  apply Op.update_of_ok
  rw [h]
  rfl

theorem run_write_of_fault {fault : Fault} (h : storage.write address data = .error fault) :
    (Act.write address data).run storage = (.error fault, storage) := by
  show Op.update (fun storage => do return ((), ← storage.write address data)) storage = _
  apply Op.update_of_fault
  rw [h]
  rfl

-- ================================================================ theorem

/-- After any history, what lies in a block can be read and written, and
nothing else can: any other access is an address fault. A write changes the
bytes it writes and no others; which blocks there are, how long they are,
where they come from and which frames hold them stays as it was. -/
theorem accesses_exact (acts : List Act) (address : Address) :
    let storage := Act.afterAll acts {}
    (∀ width < 0x100000000,
      (storage.Covers address width → ∃ base held offset, storage.contents base = some held
        ∧ address.toNat = base.toNat + offset ∧ offset + width ≤ held.length
        ∧ storage.read address width = .ok (Field.slice held offset width))
      ∧ (¬storage.Covers address width →
          storage.read address width = fail (.addressFault address width)))
    ∧ ∀ data, data.length < 0x100000000 →
      let after := (Act.write address data).after storage
      SameShape storage after ∧ (∀ base, after.subpoolAt base = storage.subpoolAt base)
        ∧ (storage.Covers address data.length →
            (Act.write address data).run storage = (.ok (), after)
            ∧ after.read address data.length = .ok data
            ∧ ∀ other width, width < 0x100000000 →
              Disjoint (stretch other width) (stretch address data.length) →
              after.read other width = storage.read other width)
        ∧ (¬storage.Covers address data.length →
            (Act.write address data).run storage
              = (fail (.addressFault address data.length), storage)) := by
  intro storage
  have hwf : storage.WellFormed := Act.wellFormed_afterAll acts wellFormed_empty
  have hlimit : ∀ width < 0x100000000, width ≤ Word.runLimit := by
    intro width hwidth
    unfold Word.runLimit
    omega
  refine ⟨fun width hwidth => ⟨fun hcovers => ?_, fun hcovers => ?_⟩, fun data hdata => ?_⟩
  · obtain ⟨base, held, offset, hheld, haddress, hfit⟩ := hcovers.contents hwf
    exact ⟨base, held, offset, hheld, haddress, hfit, read_of_contents hwf hheld haddress hfit⟩
  · exact read_of_not_covers (hlimit width hwidth) hcovers
  · intro after
    by_cases hcovers : storage.Covers address data.length
    · obtain ⟨written, hwrite⟩ := write_of_covers hwf hcovers
      have hrun := run_write_of_ok hwrite
      have hafter : after = written := congrArg Prod.snd hrun
      rw [hafter]
      refine ⟨write_shape hwf hwrite, write_subpoolAt hwf hwrite, fun _ => ⟨hrun, ?_, ?_⟩,
        fun hno => absurd hcovers hno⟩
      · exact read_write_self hwf hwrite
      · intro other width hwidth hapart
        exact read_write_apart hwf hwrite (hlimit width hwidth) hapart
    · have hfault := write_of_not_covers (hlimit _ hdata) hcovers
      have hrun := run_write_of_fault hfault
      have hafter : after = storage := congrArg Prod.snd hrun
      rw [hafter]
      exact ⟨⟨rfl, rfl⟩, fun _ => rfl, fun hyes => absurd hyes hcovers, fun _ => hrun⟩

/-- A block of five bytes with another behind it: three of its bytes are
written, and a fourth would lie in the padding. -/
theorem accesses_exact_padding :
    let storage := Act.afterAll [.obtain 0 5, .obtain 0 8] {}
    let after := (Act.write 0x10002 [1, 2, 3]).after storage
    storage.Covers 0x10002 3 ∧ ¬storage.Covers 0x10002 4
      ∧ after.read 0x10002 3 = .ok [1, 2, 3]
      ∧ after.read 0x10008 8 = storage.read 0x10008 8
      ∧ storage.read 0x10002 4 = fail (.addressFault 0x10002 4)
      ∧ (Act.write 0x10002 [1, 2, 3, 4]).run storage
        = (fail (.addressFault 0x10002 4), storage) := by
  intro storage after
  have hshape : storage.shape = [(0x10000, 5), (0x10008, 8)] := by decide +kernel
  have hcovers : storage.Covers 0x10002 3 := by
    unfold Covers
    rw [hshape]
    exact ⟨_, List.mem_cons_self, by decide, by decide⟩
  have hpadding : ¬storage.Covers 0x10002 4 := by
    unfold Covers
    rw [hshape]
    decide
  obtain ⟨hreads, hwrites⟩ := accesses_exact [.obtain 0 5, .obtain 0 8] 0x10002
  obtain ⟨-, -, hwritten, -⟩ := hwrites [1, 2, 3] (by decide)
  obtain ⟨-, -, -, hfault⟩ := hwrites [1, 2, 3, 4] (by decide)
  obtain ⟨-, hself, hapart⟩ := hwritten hcovers
  refine ⟨hcovers, hpadding, hself, hapart 0x10008 8 (by decide) ?_, ?_, hfault hpadding⟩
  · unfold stretch
    rw [Set.Ico_disjoint_Ico]
    decide
  · exact (hreads 4 (by decide)).2 hpadding

end Storage
end TsoBridge
