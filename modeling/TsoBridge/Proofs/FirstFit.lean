/-
First fit over every history of an address space. Whatever was obtained,
written, released and given back with its frame, the live blocks stand
apart, and the next block goes to the lowest place there is.

# The step and the run

`Act` lists what can be done to storage, each with the storage it leaves
whether it succeeded or not. One act keeps the allocator's invariant
(`Act.wellFormed_after`); a history does by induction on its acts.

# Why one scan finds the lowest place

The scan keeps a cursor behind all blocks it has passed. A place that is
free lies behind the cursor, or the block at hand starts late enough for
it to lie in front, and then the gap at the cursor is large enough too. So
the cursor never passes a free place (`firstGap_le`), and where it stops
is free itself (`firstGap_apart`).
-/
import Mathlib.Data.List.Pairwise
import Mathlib.Order.CompletePartialOrder
import Mathlib.Order.Interval.Set.Disjoint
import TsoBridge.Proofs.Shape

namespace TsoBridge.Storage

variable {storage : Storage} {length : Nat}

-- ============================================================ free places

/-- The addresses of a block, its length rounded up to a doubleword. -/
def span (start length : Nat) : Set Nat :=
  Set.Ico start (start + extent length)

/-- A place on a doubleword of the region where a block of this length
meets no live one. -/
def IsFree (storage : Storage) (length place : Nat) : Prop :=
  regionStart ≤ place ∧ place % 8 = 0
    ∧ ∀ entry ∈ storage.blocks.entries,
      Disjoint (span place length) (span entry.1.toNat entry.2.length)

/-- There is a free place whose block ends below the limit. -/
def HasRoom (storage : Storage) (length : Nat) : Prop :=
  ∃ place, storage.IsFree length place ∧ place + extent length ≤ addressLimit

theorem extent_pos (h : 0 < length) : 0 < extent length :=
  Nat.lt_of_lt_of_le h (le_extent length)

/-- Two blocks meet nowhere when one ends before the other starts. -/
theorem disjoint_span {start start' length' : Nat} (h : 0 < length) (h' : 0 < length') :
    Disjoint (span start length) (span start' length')
      ↔ start' + extent length' ≤ start ∨ start + extent length ≤ start' := by
  have hpos := extent_pos h
  have hpos' := extent_pos h'
  unfold span
  rw [Set.Ico_disjoint_Ico]
  omega

/-- The scan passes no place that all blocks keep clear of. -/
theorem firstGap_le {size cursor place : Nat} {entries : List (Address × Block)}
    (hcursor : cursor ≤ place)
    (hclear : ∀ entry ∈ entries, entry.1.toNat + extent entry.2.length ≤ place
      ∨ place + size ≤ entry.1.toNat) :
    firstGap size cursor entries ≤ place := by
  induction entries generalizing cursor with
  | nil => exact hcursor
  | cons first rest ih =>
      obtain ⟨start, block⟩ := first
      unfold firstGap
      split
      · exact hcursor
      · next hnarrow =>
        apply ih
        · -- in front of the block the gap at the cursor would have been enough
          have hfirst : start.toNat + extent block.length ≤ place ∨ place + size ≤ start.toNat :=
            hclear _ List.mem_cons_self
          omega
        · intro entry hentry
          exact hclear entry (List.mem_cons_of_mem _ hentry)

/-- The next gap is the lowest free place. -/
theorem gap_isLeast (hwf : storage.WellFormed) (hpos : 0 < length) :
    IsLeast { place | storage.IsFree length place } (storage.gap length) := by
  constructor
  · refine ⟨le_firstGap _ _ _, firstGap_mod rfl hwf.placed, ?_⟩
    intro entry hentry
    rw [disjoint_span hpos (hwf.placed entry hentry).2.2.1]
    exact firstGap_apart (extent_pos hpos) hwf.apart hentry
  · rintro place ⟨hstart, -, hclear⟩
    apply firstGap_le hstart
    intro entry hentry
    exact (disjoint_span hpos (hwf.placed entry hentry).2.2.1).mp (hclear entry hentry)

/-- There is room for a block exactly if its gap ends below the limit. -/
theorem hasRoom_iff (hwf : storage.WellFormed) (hpos : 0 < length) :
    storage.HasRoom length ↔ storage.gap length + extent length ≤ addressLimit := by
  obtain ⟨hfree, hleast⟩ := gap_isLeast hwf hpos
  constructor
  · rintro ⟨place, hplace, hlimit⟩
    have hle : storage.gap length ≤ place := hleast hplace
    omega
  · intro hlimit
    exact ⟨storage.gap length, hfree, hlimit⟩

-- ============================================================== obtaining

/-- Where there is room, a new block of zeros goes to the lowest free
place, and every other block is what it was. -/
theorem obtain_of_hasRoom (hwf : storage.WellFormed) (hpos : 0 < length)
    (hroom : storage.HasRoom length) (subpool : UInt8) :
    ∃ address after, storage.obtain subpool length = .ok (address, after)
      ∧ IsLeast { place | storage.IsFree length place } address.toNat
      ∧ after.blocks.get? address = some (.zeros subpool length)
      ∧ after.read address length = .ok (List.replicate length 0)
      ∧ ∀ other, other ≠ address → after.blocks.get? other = storage.blocks.get? other := by
  have hlimit := (hasRoom_iff hwf hpos).mp hroom
  have hextent := le_extent length
  have hobtain := obtain_eq hwf hpos (le_runLimit (by omega)) subpool
  rw [if_pos hlimit] at hobtain
  obtain ⟨-, -, haddress, hblocks⟩ := obtain_ok hobtain
  refine ⟨_, _, hobtain, ?_, ?_, ?_, ?_⟩
  · rw [haddress]
    exact gap_isLeast hwf hpos
  · rw [hblocks]
    exact Table.get?_insert_self _ _ _
  · have hzeros := (obtain_contents hwf hobtain).1
    have hread := read_contents (obtain_wellFormed hwf hobtain) hzeros
      (show 0 + length ≤ _ by simp)
    rw [Address.shift_zero] at hread
    rw [hread]
    unfold Field.slice
    simp
  · intro other hother
    rw [hblocks]
    exact Table.get?_insert_ne _ _ hother

/-- Without room, or for no bytes at all, nothing is obtained. -/
theorem obtain_refused (hwf : storage.WellFormed) (hlength : length ≤ Word.runLimit)
    (h : length = 0 ∨ ¬storage.HasRoom length) (subpool : UInt8) :
    ∃ reason, storage.obtain subpool length = fail (.obtainFailed length reason) := by
  by_cases hzero : length = 0
  · refine ⟨.zeroLength, ?_⟩
    unfold obtain
    rw [if_pos hzero]
    rfl
  · have hpos : 0 < length := Nat.pos_of_ne_zero hzero
    have hfull := h.resolve_left hzero
    rw [hasRoom_iff hwf hpos] at hfull
    refine ⟨.exhausted, ?_⟩
    rw [obtain_eq hwf hpos hlength subpool, if_neg hfull]

-- ============================================================== histories

/-- One thing done to storage. -/
inductive Act where
  | obtain (subpool : UInt8) (length : Nat)
  | obtainWith (subpool : UInt8) (data : Bytes)
  | release (address : Address)
  | openFrame
  | closeFrame
  | write (address : Address) (data : Bytes)

namespace Act

/-- The act as an operation on storage. -/
def run : Act → Op Storage Unit
  | .obtain subpool length => do
    let _ ← Op.update fun storage => storage.obtain subpool length
  | .obtainWith subpool data => do
    let _ ← Op.update fun storage => storage.obtainWith subpool data
  | .release address => Op.update fun storage => do return ((), ← storage.release address)
  | .openFrame => Op.modify Storage.openFrame
  | .closeFrame => Op.modify Storage.closeFrame
  | .write address data => Op.update fun storage => do return ((), ← storage.write address data)

/-- The storage an act leaves, whether it succeeded or not. -/
def after (act : Act) (storage : Storage) : Storage :=
  (act.run storage).2

/-- The storage a history leaves, from the oldest act on. -/
def afterAll (acts : List Act) (storage : Storage) : Storage :=
  acts.foldl (fun storage act => act.after storage) storage

/-- A replacement of the storage keeps the invariant if its success does. -/
theorem update_wellFormed {α : Type} {f : Storage → Outcome (α × Storage)}
    (hwf : storage.WellFormed) (h : ∀ a after, f storage = .ok (a, after) → after.WellFormed) :
    (Op.update f storage).2.WellFormed := by
  cases hf : f storage with
  | ok pair =>
      rw [Op.update_of_ok hf]
      exact h pair.1 pair.2 hf
  | error fault =>
      rw [Op.update_of_fault hf]
      exact hwf

theorem release_wellFormed {address : Address} {left : Storage} (hwf : storage.WellFormed)
    (h : storage.release address = .ok left) : left.WellFormed := by
  unfold Storage.release at h
  split at h
  · cases h
    have hsub : (storage.blocks.erase address).entries.Sublist storage.blocks.entries :=
      List.filter_sublist
    exact ⟨hwf.apart.sublist hsub, fun entry hentry => hwf.placed entry (hsub.subset hentry)⟩
  · cases h

/-- An act keeps the invariant. -/
theorem wellFormed_after (act : Act) (hwf : storage.WellFormed) :
    (act.after storage).WellFormed := by
  unfold after
  cases act with
  | obtain subpool length =>
      unfold run
      rw [Op.run_map_snd]
      apply update_wellFormed hwf
      intro address larger h
      exact obtain_wellFormed hwf h
  | obtainWith subpool data =>
      unfold run
      rw [Op.run_map_snd]
      apply update_wellFormed hwf
      intro address larger h
      exact (Linkage.evolves_obtainWith h).wellFormed hwf
  | release address =>
      apply update_wellFormed hwf
      intro _ smaller h
      obtain ⟨left, hrelease, h⟩ := Outcome.bind_ok h
      cases h
      exact release_wellFormed hwf hrelease
  | openFrame => exact openFrame_wellFormed hwf
  | closeFrame => exact closeFrame_wellFormed hwf
  | write address data =>
      apply update_wellFormed hwf
      intro _ written h
      obtain ⟨left, hwrite, h⟩ := Outcome.bind_ok h
      cases h
      exact write_wellFormed hwf hwrite

/-- So does a history. -/
theorem wellFormed_afterAll (acts : List Act) (hwf : storage.WellFormed) :
    (afterAll acts storage).WellFormed := by
  induction acts generalizing storage with
  | nil => exact hwf
  | cons act rest ih => exact ih (act.wellFormed_after hwf)

end Act

/-- Two blocks meet nowhere. -/
def Clear (a b : Address × Block) : Prop :=
  Disjoint (span a.1.toNat a.2.length) (span b.1.toNat b.2.length)

instance : Std.Symm Clear where
  symm _ _ h := Disjoint.symm h

theorem WellFormed.clear (hwf : storage.WellFormed) {a b : Address × Block}
    (ha : a ∈ storage.blocks.entries) (hb : b ∈ storage.blocks.entries) (hne : a ≠ b) :
    Clear a b := by
  have hclear : storage.blocks.entries.Pairwise Clear := by
    refine hwf.apart.imp_of_mem fun {a b} ha hb hab => ?_
    unfold Clear
    rw [disjoint_span (hwf.placed a ha).2.2.1 (hwf.placed b hb).2.2.1]
    exact .inr hab
  exact hclear.forall ha hb hne

-- ================================================================ theorem

/-- After any history the live blocks start on doublewords of the region,
are not empty, end below the limit and meet nowhere. Then a block of zeros
that is asked for goes to the lowest free place and leaves every other
block alone; it is refused, and nothing changes, exactly if it has no
bytes or there is no room for it. -/
theorem first_fit_lowest (acts : List Act) (subpool : UInt8) {length : Nat}
    (hlength : length ≤ Word.runLimit) :
    let storage := Act.afterAll acts {}
    (∀ entry ∈ storage.blocks.entries, 0x10000 ≤ entry.1.toNat ∧ entry.1.toNat % 8 = 0
        ∧ 0 < entry.2.length ∧ entry.1.toNat + extent entry.2.length ≤ 0x7FFFFFFF)
      ∧ (∀ a ∈ storage.blocks.entries, ∀ b ∈ storage.blocks.entries, a ≠ b → Clear a b)
      ∧ (0 < length → storage.HasRoom length →
          ∃ address after, storage.obtain subpool length = .ok (address, after)
            ∧ IsLeast { place | storage.IsFree length place } address.toNat
            ∧ after.blocks.get? address = some (.zeros subpool length)
            ∧ after.read address length = .ok (List.replicate length 0)
            ∧ ∀ other, other ≠ address → after.blocks.get? other = storage.blocks.get? other)
      ∧ ((length = 0 ∨ ¬storage.HasRoom length)
          ↔ ∃ reason, Op.update (fun storage => storage.obtain subpool length) storage
              = (fail (.obtainFailed length reason), storage)) := by
  intro storage
  have hwf : storage.WellFormed := Act.wellFormed_afterAll acts wellFormed_empty
  refine ⟨hwf.placed, fun a ha b hb hne => hwf.clear ha hb hne,
    fun hpos hroom => obtain_of_hasRoom hwf hpos hroom subpool, fun hnone => ?_, ?_⟩
  · obtain ⟨reason, hrefused⟩ := obtain_refused hwf hlength hnone subpool
    exact ⟨reason, Op.update_of_fault hrefused⟩
  · rintro ⟨reason, hrefused⟩
    by_contra hsome
    rw [not_or, not_not] at hsome
    obtain ⟨address, after, hobtain, -⟩ :=
      obtain_of_hasRoom hwf (Nat.pos_of_ne_zero hsome.1) hsome.2 subpool
    rw [Op.update_of_ok hobtain] at hrefused
    cases hrefused

/-- A hole between two blocks is filled before the end of the region is
used. -/
theorem first_fit_lowest_hole :
    let storage := Act.afterAll
      [.obtain 0 20, .obtain hostSubpool 5, .release 0x10000, .openFrame, .obtain 0 8] {}
    9 ≤ Word.runLimit ∧ storage.blocks.keys = [0x10000, 0x10018]
      ∧ ∃ after, storage.obtain 0 9 = .ok (0x10008, after)
        ∧ IsLeast { place | storage.IsFree 9 place } 0x10008
        ∧ after.blocks.get? 0x10018 = storage.blocks.get? 0x10018 := by
  intro storage
  have hlength : 9 ≤ Word.runLimit := by decide
  have hkeys : storage.blocks.keys = [0x10000, 0x10018] := by decide +kernel
  have hplace : (Op.update (fun storage => storage.obtain 0 9) storage).1 = .ok 0x10008 := by
    decide +kernel
  obtain ⟨-, -, hok, hrefused⟩ := first_fit_lowest
    [.obtain 0 20, .obtain hostSubpool 5, .release 0x10000, .openFrame, .obtain 0 8] 0 hlength
  have hroom : storage.HasRoom 9 := by
    by_contra hnone
    obtain ⟨reason, hfull⟩ := hrefused.mp (.inr hnone)
    rw [hfull] at hplace
    cases hplace
  obtain ⟨address, after, hobtain, hleast, -, -, hothers⟩ := hok (by decide) hroom
  rw [Op.update_of_ok hobtain] at hplace
  cases hplace
  exact ⟨hlength, hkeys, after, hobtain, hleast, hothers _ (by decide)⟩

end TsoBridge.Storage
