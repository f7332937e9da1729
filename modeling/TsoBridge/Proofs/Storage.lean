/-
The address space as a set of blocks that never meet. `WellFormed` is the
invariant of the first-fit allocator: blocks start on doublewords of the
region, end below the limit, and stand apart by their rounded lengths. On
top of it `contents` is all that later proofs know of storage: which bytes
the block at an address holds.

# The three laws

Under the invariant an access inside a block is an access to its bytes:

- `read_contents`: a read within a block is a slice of its contents;
- `write_contents`: a write within a block splices its contents and
  leaves every other block alone;
- `obtain_contents`: a block that was obtained is new and zero, and every
  other block is as it was.

A read of no bytes at the very end of a block may be answered by the block
behind it, which starts there; it reads nothing in either case, so the
first law needs no exception.

# Steps

`Step` is what a service may do to storage, obtain and write; `Evolves` is
a run of such steps. The invariant is proved for one step and carried
along a run once (`Evolves.wellFormed`).
-/
import Mathlib.Logic.Relation
import TsoBridge.Proofs.Field
import TsoBridge.Proofs.Table
import TsoBridge.Storage

namespace TsoBridge

-- ============================================================= addresses

/-- The address `offset` bytes after `base`. -/
def Address.shift (base : Address) (offset : Nat) : Address :=
  UInt32.ofNat (base.toNat + offset)

/-- Below the limit, moving an address adds to it. -/
theorem Address.toNat_shift {base : Address} {offset : Nat}
    (h : base.toNat + offset < 0x100000000) :
    (base.shift offset).toNat = base.toNat + offset := by
  unfold Address.shift
  rw [UInt32.toNat_ofNat']
  omega

@[simp] theorem Address.shift_zero (base : Address) : base.shift 0 = base := by
  apply UInt32.toNat_inj.mp
  exact Address.toNat_shift (by have := base.toNat_lt; omega)

/-- Two moves are one. -/
theorem Address.shift_shift {base : Address} {first second : Nat}
    (h : base.toNat + first < 0x100000000) :
    (base.shift first).shift second = base.shift (first + second) := by
  show UInt32.ofNat ((base.shift first).toNat + second) = UInt32.ofNat _
  rw [Address.toNat_shift h, Nat.add_assoc]

/-- A sum of an address and a displacement that was formed. -/
theorem Address.plus_ok {base address : Address} {offset : Nat}
    (h : base.plus offset = .ok address) :
    base.toNat + offset < 0x100000000 ∧ address = base.shift offset := by
  unfold Address.plus at h
  split at h
  · next hlt =>
    cases h
    exact ⟨hlt, rfl⟩
  · cases h

/-- Below the limit, the checked sum is the plain one. -/
theorem Address.plus_eq {base : Address} {offset : Nat}
    (h : base.toNat + offset < 0x100000000) :
    base.plus offset = .ok (base.shift offset) := by
  unfold Address.plus
  exact if_pos h

/-- A block holds as many bytes as its length says. -/
theorem Block.length_bytes (block : Block) : block.bytes.length = block.length :=
  Runs.length_bytes block.runs

/-- A write into a block is a splice of its bytes. -/
theorem Block.bytes_write_eq (block : Block) (offset : Nat) (data : Bytes) :
    (block.write offset data).bytes = Field.splice block.bytes offset data :=
  block.bytes_write offset data

/-- A write that fits keeps the length. -/
theorem Block.length_write {block : Block} {offset : Nat} {data : Bytes}
    (h : offset + data.length ≤ block.length) :
    (block.write offset data).length = block.length := by
  rw [← Block.length_bytes, ← Block.length_bytes, Block.bytes_write_eq, Field.length_splice]
  rw [Block.length_bytes]
  exact h

@[simp] theorem Block.length_zeros (subpool : UInt8) (length : Nat) :
    (Block.zeros subpool length).length = length := by
  simp [Block.length, Block.zeros, Runs.size, Run.size]

/-- A new block is zero throughout. -/
theorem Block.bytes_zeros (subpool : UInt8) (length : Nat) :
    (Block.zeros subpool length).bytes = List.replicate length 0 := by
  simp [Block.bytes, Block.zeros, Runs.bytes, Run.bytes]

namespace Storage

-- ========================================================= the invariant

/-- One block ends, rounded up, before another starts. -/
def Apart (a b : Address × Block) : Prop :=
  a.1.toNat + extent a.2.length ≤ b.1.toNat

/-- A block within the region, on a doubleword and not empty. -/
def Placed (entry : Address × Block) : Prop :=
  regionStart ≤ entry.1.toNat ∧ entry.1.toNat % 8 = 0 ∧ 0 < entry.2.length
    ∧ entry.1.toNat + extent entry.2.length ≤ addressLimit

/-- The blocks are placed, in ascending order and apart. -/
structure WellFormed (storage : Storage) : Prop where
  apart : storage.blocks.entries.Pairwise Apart
  placed : ∀ entry ∈ storage.blocks.entries, Placed entry

/-- Empty storage is well formed. -/
theorem wellFormed_empty : WellFormed {} :=
  ⟨List.Pairwise.nil, fun _ h => absurd h (List.not_mem_nil)⟩

/-- A block takes at least its length, in doublewords. -/
theorem le_extent (length : Nat) : length ≤ extent length := by
  unfold extent
  omega

theorem extent_mod (length : Nat) : extent length % 8 = 0 := by
  unfold extent
  omega

/-- Of two blocks apart, the first begins below the second. -/
theorem Apart.lt {a b : Address × Block} (h : Apart a b) (ha : 0 < a.2.length) :
    a.1 < b.1 := by
  have := le_extent a.2.length
  unfold Apart at h
  exact UInt32.lt_iff_toNat_lt.mpr (by omega)

/-- Placed blocks that stand apart have different addresses. -/
theorem WellFormed.distinct {storage : Storage} (h : storage.WellFormed) :
    storage.blocks.entries.Pairwise fun a b => a.1 ≠ b.1 := by
  refine h.apart.imp_of_mem fun ha _ hab => ?_
  exact UInt32.ne_of_lt (hab.lt (h.placed _ ha).2.2.1)

-- ========================================================== first fit

/-- The search begins at the cursor and goes upward. -/
theorem le_firstGap (size cursor : Nat) (entries : List (Address × Block)) :
    cursor ≤ firstGap size cursor entries := by
  induction entries generalizing cursor with
  | nil => exact Nat.le_refl _
  | cons entry rest ih =>
      obtain ⟨start, block⟩ := entry
      unfold firstGap
      split
      · exact Nat.le_refl _
      · have := ih (max cursor (start.toNat + extent block.length))
        omega

/-- A gap begins on a doubleword. -/
theorem firstGap_mod {size cursor : Nat} {entries : List (Address × Block)}
    (hcursor : cursor % 8 = 0) (hplaced : ∀ entry ∈ entries, Placed entry) :
    firstGap size cursor entries % 8 = 0 := by
  induction entries generalizing cursor with
  | nil => exact hcursor
  | cons entry rest ih =>
      obtain ⟨start, block⟩ := entry
      unfold firstGap
      split
      · exact hcursor
      · apply ih
        · have hstart : start.toNat % 8 = 0 := (hplaced _ List.mem_cons_self).2.1
          have := extent_mod block.length
          omega
        · exact fun entry hentry => hplaced entry (List.mem_cons_of_mem _ hentry)

/-- The gap meets no block: each ends before it or starts behind it. -/
theorem firstGap_apart {size cursor : Nat} {entries : List (Address × Block)}
    (hsize : 0 < size) (hapart : entries.Pairwise Apart)
    {entry : Address × Block} (hentry : entry ∈ entries) :
    entry.1.toNat + extent entry.2.length ≤ firstGap size cursor entries
      ∨ firstGap size cursor entries + size ≤ entry.1.toNat := by
  induction entries generalizing cursor with
  | nil => cases hentry
  | cons first rest ih =>
      obtain ⟨start, block⟩ := first
      have hfirst := (List.pairwise_cons.mp hapart).1
      unfold firstGap
      split
      · -- the gap lies before the first block, and all others are behind it
        next hfits =>
        refine .inr ?_
        rcases List.mem_cons.mp hentry with rfl | hrest
        · show cursor + size ≤ start.toNat
          omega
        · have : start.toNat + extent block.length ≤ entry.1.toNat := hfirst _ hrest
          omega
      · rcases List.mem_cons.mp hentry with rfl | hrest
        · have := le_firstGap size (max cursor (start.toNat + extent block.length)) rest
          exact .inl (by show start.toNat + extent block.length ≤ _; omega)
        · exact ih (List.Pairwise.of_cons hapart) hrest

-- ================================================== insertion in order

/-- A block that meets no other goes where its address belongs. -/
theorem pairwise_place_new {address : Address} {block : Block}
    {entries : List (Address × Block)} (hapart : entries.Pairwise Apart)
    (hpositive : ∀ entry ∈ entries, 0 < entry.2.length) (hblock : 0 < block.length)
    (hnew : ∀ entry ∈ entries, Apart entry (address, block) ∨ Apart (address, block) entry) :
    (Table.place address block entries).Pairwise Apart := by
  induction entries with
  | nil => exact List.pairwise_singleton _ _
  | cons first rest ih =>
      have hfirst := (List.pairwise_cons.mp hapart).1
      have hpos := hpositive _ List.mem_cons_self
      unfold Table.place
      split
      · next hlt =>
        have hbehind : Apart (address, block) first := by
          rcases hnew _ List.mem_cons_self with h | h
          · exact absurd (h.lt hpos) (UInt32.lt_asymm hlt)
          · exact h
        refine List.pairwise_cons.mpr ⟨fun entry hentry => ?_, hapart⟩
        rcases List.mem_cons.mp hentry with rfl | hrest
        · exact hbehind
        · have := hfirst _ hrest
          unfold Apart at this hbehind ⊢
          have := le_extent first.2.length
          omega
      · next hge =>
        have hbefore : Apart first (address, block) := by
          rcases hnew _ List.mem_cons_self with h | h
          · exact h
          · exact absurd (h.lt hblock) hge
        split
        · next heq => exact absurd (hbefore.lt hpos) (heq ▸ UInt32.lt_irrefl _)
        · refine List.pairwise_cons.mpr ⟨fun entry hentry => ?_, ?_⟩
          · rcases Table.mem_place hentry with rfl | hrest
            · exact hbefore
            · exact hfirst _ hrest
          · exact ih (List.Pairwise.of_cons hapart)
              (fun entry hentry => hpositive entry (List.mem_cons_of_mem _ hentry))
              fun entry hentry => hnew entry (List.mem_cons_of_mem _ hentry)

/-- A block of the same length takes the place of another. -/
theorem pairwise_place_same {address : Address} {block changed : Block}
    {entries : List (Address × Block)} (hapart : entries.Pairwise Apart)
    (hpositive : ∀ entry ∈ entries, 0 < entry.2.length)
    (hmem : (address, block) ∈ entries) (hlength : changed.length = block.length) :
    (Table.place address changed entries).Pairwise Apart := by
  induction entries with
  | nil => cases hmem
  | cons first rest ih =>
      have hfirst := (List.pairwise_cons.mp hapart).1
      have hpos := hpositive _ List.mem_cons_self
      -- the block stands first, or behind the first block
      have hcases : first = (address, block) ∨ first.1 < address ∧ (address, block) ∈ rest := by
        rcases List.mem_cons.mp hmem with h | h
        · exact .inl h.symm
        · exact .inr ⟨(hfirst _ h).lt hpos, h⟩
      unfold Table.place
      rcases hcases with rfl | ⟨hlt, hrest⟩
      · rw [if_neg (UInt32.lt_irrefl _), if_pos rfl]
        refine List.pairwise_cons.mpr ⟨fun entry hentry => ?_, List.Pairwise.of_cons hapart⟩
        have : Apart (address, block) entry := hfirst _ hentry
        unfold Apart at this ⊢
        rwa [hlength]
      · rw [if_neg (UInt32.lt_asymm hlt), if_neg (UInt32.ne_of_lt hlt).symm]
        refine List.pairwise_cons.mpr ⟨fun entry hentry => ?_, ?_⟩
        · rcases Table.mem_place hentry with rfl | h
          · exact hfirst (address, block) hrest
          · exact hfirst _ h
        · exact ih (List.Pairwise.of_cons hapart)
            (fun entry hentry => hpositive entry (List.mem_cons_of_mem _ hentry)) hrest

-- =============================================================== obtain

/-- Storage that was obtained: a new block in the first gap. -/
theorem obtain_ok {storage after : Storage} {subpool : UInt8} {length : Nat}
    {address : Address} (h : storage.obtain subpool length = .ok (address, after)) :
    0 < length
      ∧ firstGap (extent length) regionStart storage.blocks.entries + extent length
          ≤ addressLimit
      ∧ address.toNat = firstGap (extent length) regionStart storage.blocks.entries
      ∧ after.blocks = storage.blocks.insert address (.zeros subpool length) := by
  unfold obtain at h
  by_cases hlength : length = 0
  · simp only [if_pos hlength] at h
    cases h
  · simp only [if_neg hlength] at h
    obtain ⟨_, _, h⟩ := Outcome.bind_ok h
    obtain ⟨stop, hstop, h⟩ := Outcome.bind_ok h
    unfold Word.addIndex at hstop
    split at hstop
    · cases hstop
      by_cases hlimit : addressLimit
          < firstGap (extent length) regionStart storage.blocks.entries + extent length
      · rw [if_pos hlimit] at h
        cases h
      · rw [if_neg hlimit] at h
        cases h
        have hfit := Nat.not_lt.mp hlimit
        refine ⟨by omega, hfit, ?_, rfl⟩
        rw [UInt32.toNat_ofNat']
        unfold addressLimit at hfit
        omega
    · cases hstop

/-- Obtaining keeps storage well formed. -/
theorem obtain_wellFormed {storage after : Storage} {subpool : UInt8} {length : Nat}
    {address : Address} (hwf : storage.WellFormed)
    (h : storage.obtain subpool length = .ok (address, after)) : after.WellFormed := by
  obtain ⟨hpos, hlimit, haddress, hblocks⟩ := obtain_ok h
  have hsize : 0 < extent length := Nat.lt_of_lt_of_le hpos (le_extent length)
  have hstart := le_firstGap (extent length) regionStart storage.blocks.entries
  have hmod : firstGap (extent length) regionStart storage.blocks.entries % 8 = 0 :=
    firstGap_mod rfl hwf.placed
  rw [← haddress] at hlimit hstart hmod
  have hnew : ∀ entry ∈ storage.blocks.entries,
      Apart entry (address, .zeros subpool length)
        ∨ Apart (address, .zeros subpool length) entry := by
    intro entry hentry
    unfold Apart
    rw [Block.length_zeros, haddress]
    exact firstGap_apart hsize hwf.apart hentry
  constructor
  · rw [hblocks]
    exact pairwise_place_new hwf.apart (fun entry hentry => (hwf.placed entry hentry).2.2.1)
      (by rwa [Block.length_zeros]) hnew
  · intro entry hentry
    rw [hblocks] at hentry
    rcases Table.mem_place hentry with rfl | hold
    · unfold Placed
      rw [Block.length_zeros]
      exact ⟨hstart, hmod, hpos, hlimit⟩
    · exact hwf.placed entry hold

-- ============================================================= contents

/-- The bytes of the block at an address. -/
def contents (storage : Storage) (base : Address) : Option Bytes :=
  (storage.blocks.get? base).map Block.bytes

/-- The block behind contents. -/
theorem contents_eq_some {storage : Storage} {base : Address} {bytes : Bytes}
    (h : storage.contents base = some bytes) :
    ∃ block, (base, block) ∈ storage.blocks.entries ∧ storage.blocks.get? base = some block
      ∧ block.bytes = bytes := by
  obtain ⟨block, hget, hbytes⟩ := Option.map_eq_some_iff.mp h
  exact ⟨block, Table.mem_of_get? hget, hget, hbytes⟩

/-- A block ends, rounded up, below the limit. -/
theorem WellFormed.block_le {storage : Storage} (hwf : storage.WellFormed)
    {base : Address} {block : Block} (hmem : (base, block) ∈ storage.blocks.entries) :
    base.toNat + extent block.length ≤ addressLimit :=
  (hwf.placed _ hmem).2.2.2

/-- Contents end below the limit. -/
theorem WellFormed.contents_le {storage : Storage} (hwf : storage.WellFormed)
    {base : Address} {bytes : Bytes} (h : storage.contents base = some bytes) :
    base.toNat + bytes.length ≤ addressLimit := by
  obtain ⟨block, hmem, -, rfl⟩ := contents_eq_some h
  have := hwf.block_le hmem
  have := le_extent block.length
  rw [Block.length_bytes]
  omega

/-- Offsets within contents are addresses. -/
theorem WellFormed.contents_lt {storage : Storage} (hwf : storage.WellFormed)
    {base : Address} {bytes : Bytes} (h : storage.contents base = some bytes)
    {offset : Nat} (hoffset : offset ≤ bytes.length) :
    base.toNat + offset < 0x100000000 := by
  have := hwf.contents_le h
  unfold addressLimit at this
  omega

/-- A block that was obtained is new and zero, and no other changes. -/
theorem obtain_contents {storage after : Storage} {subpool : UInt8} {length : Nat}
    {address : Address} (hwf : storage.WellFormed)
    (h : storage.obtain subpool length = .ok (address, after)) :
    after.contents address = some (List.replicate length 0)
      ∧ storage.contents address = none
      ∧ ∀ base, base ≠ address → after.contents base = storage.contents base := by
  obtain ⟨hpos, hlimit, haddress, hblocks⟩ := obtain_ok h
  have hsize : 0 < extent length := Nat.lt_of_lt_of_le hpos (le_extent length)
  refine ⟨?_, ?_, fun base hbase => ?_⟩
  · unfold contents
    rw [hblocks, Table.get?_insert_self, Option.map_some, Block.bytes_zeros]
  · unfold contents
    rw [Table.get?_eq_none]
    · rfl
    · intro entry hentry heq
      have hpositive := (hwf.placed entry hentry).2.2.1
      have := le_extent entry.2.length
      rcases (firstGap_apart hsize hwf.apart hentry : _ ∨ firstGap _ regionStart _ + _ ≤ _)
        with hgap | hgap
      · rw [← haddress, ← heq] at hgap
        omega
      · rw [← haddress, ← heq] at hgap
        omega
  · unfold contents
    rw [hblocks, Table.get?_insert_ne _ _ hbase]

-- ====================================================== finding a block

/-- The nearest block below an address is one of the blocks. -/
theorem nearest_mem {storage : Storage} {address start : Address} {block : Block}
    (h : storage.nearest address = some (start, block)) :
    (start, block) ∈ storage.blocks.entries ∧ start.toNat ≤ address.toNat := by
  unfold nearest at h
  obtain ⟨hmem, hbelow⟩ := List.mem_filter.mp (List.mem_of_getLast? h)
  rw [decide_eq_true_eq, UInt32.le_iff_toNat_le] at hbelow
  exact ⟨hmem, hbelow⟩

/-- Of the blocks that start at or below an address, the last is found, and
every other ends, rounded up, before that one starts. -/
theorem nearest_last {storage : Storage} (hwf : storage.WellFormed)
    {address base : Address} {block : Block} (hmem : (base, block) ∈ storage.blocks.entries)
    (hlow : base.toNat ≤ address.toNat) :
    ∃ start last, storage.nearest address = some (start, last) ∧ start.toNat ≤ address.toNat
      ∧ ((base, block) = (start, last) ∨ base.toNat + extent block.length ≤ start.toNat) := by
  let found := storage.blocks.entries.filter fun entry => decide (entry.1 ≤ address)
  have hfound : (base, block) ∈ found :=
    List.mem_filter.mpr ⟨hmem, by simpa [UInt32.le_iff_toNat_le] using hlow⟩
  obtain ⟨front, last, hlast⟩ : ∃ front last, found = front ++ [last] :=
    ⟨_, _, (List.dropLast_concat_getLast (List.ne_nil_of_mem hfound)).symm⟩
  refine ⟨last.1, last.2, ?_, ?_, ?_⟩
  · show found.getLast? = _
    rw [hlast, List.getLast?_concat]
  · have : last ∈ found := by simp [hlast]
    have := (List.mem_filter.mp this).2
    rwa [decide_eq_true_eq, UInt32.le_iff_toNat_le] at this
  · rw [hlast] at hfound
    rcases List.mem_append.mp hfound with hfront | heq
    · have hpair : found.Pairwise Apart := hwf.apart.filter _
      rw [hlast, List.pairwise_append] at hpair
      exact .inr (hpair.2.2 _ hfront last List.mem_cons_self)
    · exact .inl (List.mem_singleton.mp heq)

/-- Inside the extent of a block, the block is found. -/
theorem nearest_within {storage : Storage} (hwf : storage.WellFormed)
    {address base : Address} {block : Block} (hmem : (base, block) ∈ storage.blocks.entries)
    (hlow : base.toNat ≤ address.toNat)
    (hhigh : address.toNat < base.toNat + extent block.length) :
    storage.nearest address = some (base, block) := by
  obtain ⟨start, last, hnearest, hle, hlast⟩ := nearest_last hwf hmem hlow
  rcases hlast with heq | hbefore
  · rw [hnearest, heq]
  · omega

/-- A reference is located in the block that is found, if it ends there.
Its end is compared only if it is an index. -/
theorem locate_of_nearest {storage : Storage} {address start : Address} {block : Block}
    (h : storage.nearest address = some (start, block)) (length : Nat) :
    storage.locate address length
      = if address.toNat - start.toNat + length < Word.indexLimit then
          if address.toNat - start.toNat + length ≤ block.length then
            .ok (start, block, address.toNat - start.toNat)
          else fail (.addressFault address length)
        else trap := by
  unfold locate
  rw [h]
  by_cases hindex : address.toNat - start.toNat + length < Word.indexLimit
  · rw [if_pos hindex]
    show (Word.addIndex _ _ >>= _) = _
    rw [Word.addIndex_of_lt hindex]
    rfl
  · rw [if_neg hindex]
    show (Word.addIndex _ _ >>= _) = _
    rw [Word.addIndex_of_le (Nat.not_lt.mp hindex)]
    rfl

/-- Up to the longest run of bytes the end is an index. -/
theorem locate_eq {storage : Storage} {address start : Address} {block : Block} {length : Nat}
    (hlength : length ≤ Word.runLimit) (h : storage.nearest address = some (start, block)) :
    storage.locate address length
      = if address.toNat - start.toNat + length ≤ block.length then
          .ok (start, block, address.toNat - start.toNat)
        else fail (.addressFault address length) := by
  have haddress := address.toNat_lt
  have hindex : address.toNat - start.toNat + length < Word.indexLimit := by
    unfold Word.runLimit at hlength
    unfold Word.indexLimit
    omega
  rw [locate_of_nearest h, if_pos hindex]

/-- What fits into the address space is a run a machine can hold. -/
theorem le_runLimit {length : Nat} (h : length ≤ addressLimit) : length ≤ Word.runLimit :=
  Nat.le_trans h (by decide)

/-- A reference inside a block is located in it. -/
theorem locate_within {storage : Storage} (hwf : storage.WellFormed)
    {base : Address} {block : Block} (hmem : (base, block) ∈ storage.blocks.entries)
    {offset length : Nat} (hoffset : offset < block.length)
    (hfit : offset + length ≤ block.length) :
    storage.locate (base.shift offset) length = .ok (base, block, offset) := by
  have hlimit := hwf.block_le hmem
  have hextent := le_extent block.length
  have hshift : (base.shift offset).toNat = base.toNat + offset :=
    Address.toNat_shift (by unfold addressLimit at hlimit; omega)
  have hrun : length ≤ Word.runLimit := le_runLimit (by omega)
  have hnearest : storage.nearest (base.shift offset) = some (base, block) :=
    nearest_within hwf hmem (by omega) (by omega)
  have hlocate := locate_eq hrun hnearest
  rwa [hshift, Nat.add_sub_cancel_left, if_pos hfit] at hlocate

/-- No bytes can be read anywhere in a block and at its end. There the
block behind it may answer, if it starts right there. -/
theorem read_nothing {storage : Storage} (hwf : storage.WellFormed)
    {base : Address} {block : Block} (hmem : (base, block) ∈ storage.blocks.entries)
    {offset : Nat} (hoffset : offset ≤ block.length) :
    storage.read (base.shift offset) 0 = .ok [] := by
  have hlimit := hwf.block_le hmem
  have hextent := le_extent block.length
  have hshift : (base.shift offset).toNat = base.toNat + offset :=
    Address.toNat_shift (by unfold addressLimit at hlimit; omega)
  have hlow : base.toNat ≤ (base.shift offset).toNat := by omega
  obtain ⟨start, last, hnearest, hle, hlast⟩ := nearest_last hwf hmem hlow
  have hinside : (base.shift offset).toNat - start.toNat + 0 ≤ last.length := by
    rcases hlast with heq | hbefore
    · cases heq
      omega
    · omega
  have hlocate := locate_eq (Nat.zero_le Word.runLimit) hnearest
  rw [if_pos hinside] at hlocate
  unfold read
  rw [hlocate]
  show Except.ok (last.read _ 0) = _
  rw [Block.read_eq, List.take_zero]

/-- A read within a block is a slice of its contents. -/
theorem read_contents {storage : Storage} (hwf : storage.WellFormed) {base : Address}
    {bytes : Bytes} (h : storage.contents base = some bytes) {offset width : Nat}
    (hfit : offset + width ≤ bytes.length) :
    storage.read (base.shift offset) width = .ok (Field.slice bytes offset width) := by
  obtain ⟨block, hmem, -, rfl⟩ := contents_eq_some h
  rw [Block.length_bytes] at hfit
  rcases Nat.eq_zero_or_pos width with rfl | hwidth
  · rw [read_nothing hwf hmem (by omega), Field.slice_zero_width]
  · unfold read
    rw [locate_within hwf hmem (by omega) hfit]
    show Except.ok (block.read offset width) = _
    rw [Block.read_eq]
    rfl

/-- Where a block is put in place of another, its bytes are what is there. -/
theorem contents_insert_self (storage : Storage) (base : Address) (block : Block) :
    contents { storage with blocks := storage.blocks.insert base block } base
      = some block.bytes := by
  unfold contents
  rw [Table.get?_insert_self]
  rfl

/-- A block put in place changes no other. -/
theorem contents_insert_ne (storage : Storage) {base other : Address} (block : Block)
    (h : other ≠ base) :
    contents { storage with blocks := storage.blocks.insert base block } other
      = storage.contents other := by
  unfold contents
  rw [Table.get?_insert_ne _ _ h]

/-- A write within a block splices its contents and leaves every other
block alone. -/
theorem write_contents {storage : Storage} (hwf : storage.WellFormed) {base : Address}
    {bytes : Bytes} (h : storage.contents base = some bytes) {offset : Nat} {data : Bytes}
    (hoffset : offset < bytes.length) (hfit : offset + data.length ≤ bytes.length) :
    ∃ after, storage.write (base.shift offset) data = .ok after
      ∧ after.contents base = some (Field.splice bytes offset data)
      ∧ ∀ other, other ≠ base → after.contents other = storage.contents other := by
  obtain ⟨block, hmem, hget, rfl⟩ := contents_eq_some h
  rw [Block.length_bytes] at hoffset hfit
  refine ⟨{ storage with blocks := storage.blocks.insert base (block.write offset data) },
    ?_, ?_, fun other hother => contents_insert_ne storage _ hother⟩
  · unfold write
    rw [locate_within hwf hmem hoffset hfit]
    rfl
  · rw [contents_insert_self, Block.bytes_write_eq]

/-- Writing all of a block replaces its contents. -/
theorem write_whole {storage after : Storage} (hwf : storage.WellFormed) {base : Address}
    {data : Bytes} (h : storage.contents base = some (List.replicate data.length 0))
    (hwrite : storage.write base data = .ok after) :
    after.contents base = some data
      ∧ ∀ other, other ≠ base → after.contents other = storage.contents other := by
  have hpos : 0 < data.length := by
    obtain ⟨block, hmem, -, hbytes⟩ := contents_eq_some h
    have hplaced := (hwf.placed _ hmem).2.2.1
    rw [← Block.length_bytes, hbytes, List.length_replicate] at hplaced
    exact hplaced
  have hwritten : ∃ result, storage.write (base.shift 0) data = .ok result
      ∧ result.contents base = some (Field.splice (List.replicate data.length 0) 0 data)
      ∧ ∀ other, other ≠ base → result.contents other = storage.contents other :=
    write_contents hwf h (by rwa [List.length_replicate]) (by simp)
  obtain ⟨result, hresult, hspliced, hframe⟩ := hwritten
  rw [Address.shift_zero, hwrite] at hresult
  cases hresult
  refine ⟨hspliced.trans ?_, hframe⟩
  unfold Field.splice
  simp

/-- A block that was obtained and filled holds the data, and no other
changes. -/
theorem obtainWith_contents {storage after : Storage} {subpool : UInt8} {data : Bytes}
    {address : Address} (hwf : storage.WellFormed)
    (h : storage.obtainWith subpool data = .ok (address, after)) :
    after.contents address = some data ∧ storage.contents address = none
      ∧ ∀ base, base ≠ address → after.contents base = storage.contents base := by
  unfold obtainWith at h
  obtain ⟨⟨base, larger⟩, hobtain, h⟩ := Outcome.bind_ok h
  obtain ⟨written, hwrite, h⟩ := Outcome.bind_ok h
  cases h
  obtain ⟨hzeros, hnew, hothers⟩ := obtain_contents hwf hobtain
  obtain ⟨hdata, hframe⟩ := write_whole (obtain_wellFormed hwf hobtain) hzeros hwrite
  refine ⟨hdata, hnew, fun other hother => ?_⟩
  rw [hframe other hother]
  exact hothers other hother

-- ================================================================ steps

/-- A reference that was located lies in a block. -/
theorem locate_ok {storage : Storage} {address start : Address} {length offset : Nat}
    {block : Block} (h : storage.locate address length = .ok (start, block, offset)) :
    (start, block) ∈ storage.blocks.entries ∧ address.toNat = start.toNat + offset
      ∧ offset + length ≤ block.length := by
  cases hnearest : storage.nearest address with
  | none =>
      unfold locate at h
      rw [hnearest] at h
      cases h
  | some found =>
      rw [locate_of_nearest hnearest] at h
      split at h
      · split at h
        · next hle =>
          cases h
          obtain ⟨hmem, hbelow⟩ := nearest_mem hnearest
          exact ⟨hmem, (Nat.add_sub_cancel' hbelow).symm, hle⟩
        · cases h
      · cases h

/-- A reading lies in a block. -/
theorem read_ok {storage : Storage} {address : Address} {length : Nat} {bytes : Bytes}
    (hwf : storage.WellFormed) (h : storage.read address length = .ok bytes) :
    ∃ base held offset, storage.contents base = some held ∧ address = base.shift offset
      ∧ offset + length ≤ held.length ∧ bytes = Field.slice held offset length := by
  unfold read at h
  obtain ⟨⟨start, block, offset⟩, hlocate, h⟩ := Outcome.bind_ok h
  cases h
  obtain ⟨hmem, haddress, hfit⟩ := locate_ok hlocate
  have hlimit := hwf.block_le hmem
  have hextent := le_extent block.length
  unfold addressLimit at hlimit
  refine ⟨start, block.bytes, offset, ?_, ?_, ?_, ?_⟩
  · unfold contents
    rw [Table.get?_of_mem hwf.distinct hmem]
    rfl
  · apply UInt32.toNat_inj.mp
    rw [Address.toNat_shift (by omega), haddress]
  · rw [Block.length_bytes]
    exact hfit
  · exact Block.read_eq block offset length

/-- A reading of a length that is no index out of range ends with bytes or
an error. -/
theorem read_cases (storage : Storage) (address : Address) {length : Nat}
    (hlength : length ≤ addressLimit) :
    (∃ bytes, storage.read address length = .ok bytes)
      ∨ ∃ cause, storage.read address length = .error (.error cause) := by
  unfold read
  cases hnearest : storage.nearest address with
  | none =>
      unfold locate
      rw [hnearest]
      exact .inr ⟨_, rfl⟩
  | some found =>
      rw [locate_eq (le_runLimit hlength) hnearest]
      split
      · exact .inl ⟨_, rfl⟩
      · exact .inr ⟨_, rfl⟩

/-- Writing keeps storage well formed. -/
theorem write_wellFormed {storage after : Storage} {address : Address} {data : Bytes}
    (hwf : storage.WellFormed) (h : storage.write address data = .ok after) :
    after.WellFormed := by
  unfold write at h
  obtain ⟨⟨start, block, offset⟩, hlocate, h⟩ := Outcome.bind_ok h
  obtain ⟨hmem, -, hfit⟩ := locate_ok hlocate
  have hlength : (block.write offset data).length = block.length := Block.length_write hfit
  cases h
  constructor
  · exact pairwise_place_same hwf.apart
      (fun entry hentry => (hwf.placed entry hentry).2.2.1) hmem hlength
  · intro entry hentry
    rcases Table.mem_place hentry with rfl | hold
    · have := hwf.placed _ hmem
      unfold Placed at this ⊢
      rwa [hlength]
    · exact hwf.placed entry hold

/-- What a service may do to storage: obtain a block, or write. -/
inductive Step : Storage → Storage → Prop where
  | obtain {storage after : Storage} {subpool : UInt8} {length : Nat} {address : Address}
      (h : storage.obtain subpool length = .ok (address, after)) : Step storage after
  | write {storage after : Storage} {address : Address} {data : Bytes}
      (h : storage.write address data = .ok after) : Step storage after

/-- A run of steps. -/
def Evolves : Storage → Storage → Prop :=
  Relation.ReflTransGen Step

/-- So does every step. -/
theorem Step.wellFormed {storage after : Storage} (h : Step storage after)
    (hwf : storage.WellFormed) : after.WellFormed := by
  cases h with
  | obtain h => exact obtain_wellFormed hwf h
  | write h => exact write_wellFormed hwf h

/-- Steps keep the invariant. -/
theorem Evolves.wellFormed {storage after : Storage} (h : Evolves storage after)
    (hwf : storage.WellFormed) : after.WellFormed := by
  induction h with
  | refl => exact hwf
  | tail _ hstep ih => exact hstep.wellFormed ih

-- =============================================================== frames

/-- Opening a frame does, and closing one does. -/
theorem openFrame_wellFormed {storage : Storage} (hwf : storage.WellFormed) :
    storage.openFrame.WellFormed :=
  ⟨hwf.apart, hwf.placed⟩

/-- Erasing entries keeps the rest in order. -/
theorem foldl_erase_sublist (frame : List Address) (blocks : Table Address Block) :
    (frame.foldl Table.erase blocks).entries.Sublist blocks.entries := by
  induction frame generalizing blocks with
  | nil => exact List.Sublist.refl _
  | cons address rest ih => exact (ih _).trans List.filter_sublist

theorem closeFrame_wellFormed {storage : Storage} (hwf : storage.WellFormed) :
    storage.closeFrame.WellFormed := by
  unfold closeFrame
  split
  · exact hwf
  · have hsub := foldl_erase_sublist ‹List Address› storage.blocks
    exact ⟨hwf.apart.sublist hsub, fun entry hentry => hwf.placed entry (hsub.subset hentry)⟩

end Storage
end TsoBridge
