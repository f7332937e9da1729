/-
The shape of storage: where its blocks are and how long each of them is.
First fit looks at nothing else, so two address spaces of one shape have
room for the same blocks at the same addresses, whatever was written into
them (`obtain_shape`).

A frame gives back what was obtained in it. `Inner` relates two moments
inside a frame: were it closed at either, the shape would be the same.
Obtaining a block changes nothing about that, because the block is noted
and new; a write does not, because it changes no length. So a framed
operation whose calls only write leaves the shape it found (`framed`), and
what there was room for before it there is room for after it.
-/
import TsoBridge.Proofs.Session

namespace TsoBridge

namespace Storage

-- ================================================================ shapes

/-- Where a block is and how long it is. -/
def extentOf (entry : Address × Block) : Address × Nat :=
  (entry.1, entry.2.length)

/-- Where the blocks are and how long each is. -/
def shape (storage : Storage) : List (Address × Nat) :=
  storage.blocks.entries.map extentOf

/-- The same shape, and the same open frames. -/
def SameShape (storage after : Storage) : Prop :=
  after.shape = storage.shape ∧ after.frames = storage.frames

instance : IsPreorder Storage SameShape where
  refl _ := ⟨rfl, rfl⟩
  trans _ _ _ h h' := ⟨h'.1.trans h.1, h'.2.trans h.2⟩

/-- The search for a gap sees the shape only. -/
theorem firstGap_shape {entries others : List (Address × Block)}
    (h : others.map extentOf = entries.map extentOf) (size cursor : Nat) :
    firstGap size cursor others = firstGap size cursor entries := by
  induction entries generalizing others cursor with
  | nil =>
      rw [List.map_nil, List.map_eq_nil_iff] at h
      rw [h]
  | cons first rest ih =>
      obtain ⟨other, others, rfl⟩ : ∃ other tail, others = other :: tail := by
        cases others with
        | nil => simp at h
        | cons other tail => exact ⟨other, tail, rfl⟩
      rw [List.map_cons, List.map_cons, List.cons.injEq] at h
      obtain ⟨hfirst, hrest⟩ := h
      obtain ⟨start, block⟩ := first
      obtain ⟨start', block'⟩ := other
      simp only [extentOf, Prod.mk.injEq] at hfirst
      unfold firstGap
      rw [hfirst.1, hfirst.2, ih hrest]

/-- Putting a block into a table changes its shape in that place. -/
theorem map_place (key : Address) (block : Block) (entries : List (Address × Block)) :
    (Table.place key block entries).map extentOf
      = Table.place key block.length (entries.map extentOf) := by
  induction entries with
  | nil => rfl
  | cons first rest ih =>
      unfold Table.place
      show List.map extentOf (if key < first.1 then _ else if key = first.1 then _ else _) = _
      rw [List.map_cons]
      show _ = if key < first.1 then _ else if key = first.1 then _ else _
      split
      · rfl
      · split
        · rfl
        · rw [List.map_cons, ih]

-- ============================================================= obtaining

/-- The frames with a new block noted, unless it is the host's. -/
def note (subpool : UInt8) (address : Address) : List (List Address) → List (List Address)
  | [] => []
  | frame :: outer => if subpool = hostSubpool then frame :: outer else (address :: frame) :: outer

/-- Where the next block of a length goes. -/
def gap (storage : Storage) (length : Nat) : Nat :=
  firstGap (extent length) regionStart storage.blocks.entries

/-- The storage with a new block at an address. -/
def withBlock (storage : Storage) (subpool : UInt8) (length : Nat) (address : Address) : Storage :=
  { blocks := storage.blocks.insert address (.zeros subpool length)
    frames := note subpool address storage.frames }

/-- A gap is found within the address space. -/
theorem gap_le {storage : Storage} (hwf : storage.WellFormed) (length : Nat) :
    storage.gap length ≤ addressLimit := by
  have hall : ∀ (entries : List (Address × Block)) (cursor : Nat), cursor ≤ addressLimit →
      (∀ entry ∈ entries, Placed entry) →
      firstGap (extent length) cursor entries ≤ addressLimit := by
    intro entries
    induction entries with
    | nil => exact fun cursor hcursor _ => hcursor
    | cons first rest ih =>
        intro cursor hcursor hplaced
        obtain ⟨start, block⟩ := first
        unfold firstGap
        split
        · exact hcursor
        · apply ih
          · have : start.toNat + extent block.length ≤ addressLimit :=
              (hplaced _ List.mem_cons_self).2.2.2
            omega
          · exact fun entry hentry => hplaced entry (List.mem_cons_of_mem _ hentry)
  exact hall _ _ (by decide) hwf.placed

/-- Obtaining storage takes the next gap, or there is no room. A length so
large that rounding it up or adding it to the gap gives no index is not
compared with the room there is. -/
theorem obtain_of_pos {storage : Storage} {length : Nat} (hpos : 0 < length) (subpool : UInt8) :
    storage.obtain subpool length
      = if storage.gap length + extent length ≤ addressLimit then
          .ok (UInt32.ofNat (storage.gap length),
            storage.withBlock subpool length (UInt32.ofNat (storage.gap length)))
        else if length + 7 < Word.indexLimit
            ∧ storage.gap length + extent length < Word.indexLimit then
          fail (.obtainFailed length .exhausted)
        else trap := by
  have hextent := le_extent length
  unfold obtain
  rw [if_neg (by omega)]
  by_cases hround : length + 7 < Word.indexLimit
  · simp only [Word.addIndex_of_lt hround]
    show (do
      let stop ← Word.addIndex (storage.gap length) (extent length)
      if addressLimit < stop then fail (.obtainFailed length .exhausted)
      _) = _
    by_cases hstop : storage.gap length + extent length < Word.indexLimit
    · rw [Word.addIndex_of_lt hstop]
      show (if addressLimit < storage.gap length + extent length then _ else _) = _
      by_cases hfit : storage.gap length + extent length ≤ addressLimit
      · rw [if_pos hfit, if_neg (Nat.not_lt.mpr hfit)]
        rfl
      · rw [if_neg hfit, if_pos (Nat.not_le.mp hfit), if_pos ⟨hround, hstop⟩]
        rfl
    · have hfull : ¬storage.gap length + extent length ≤ addressLimit := by
        unfold addressLimit
        unfold Word.indexLimit at hstop
        omega
      rw [Word.addIndex_of_le (Nat.not_lt.mp hstop), if_neg hfull, if_neg fun h => hstop h.2]
      rfl
  · have hfull : ¬storage.gap length + extent length ≤ addressLimit := by
      unfold addressLimit
      unfold Word.indexLimit at hround
      omega
    simp only [Word.addIndex_of_le (Nat.not_lt.mp hround)]
    rw [if_neg hfull, if_neg fun h => hround h.1]
    rfl

/-- Up to the longest run of bytes no sum on the way leaves its machine
word. -/
theorem obtain_eq {storage : Storage} {length : Nat} (hwf : storage.WellFormed)
    (hpos : 0 < length) (hlength : length ≤ Word.runLimit) (subpool : UInt8) :
    storage.obtain subpool length
      = if storage.gap length + extent length ≤ addressLimit then
          .ok (UInt32.ofNat (storage.gap length),
            storage.withBlock subpool length (UInt32.ofNat (storage.gap length)))
        else fail (.obtainFailed length .exhausted) := by
  have hgap := gap_le hwf length
  have hextent : extent length ≤ length + 7 := by
    unfold extent
    omega
  have hsums : length + 7 < Word.indexLimit
      ∧ storage.gap length + extent length < Word.indexLimit := by
    unfold addressLimit at hgap
    unfold Word.runLimit at hlength
    unfold Word.indexLimit
    omega
  rw [obtain_of_pos hpos, if_pos hsums]

/-- Storage that was obtained is the next gap. -/
theorem obtain_gap {storage after : Storage} {subpool : UInt8} {length : Nat} {address : Address}
    (hwf : storage.WellFormed) (h : storage.obtain subpool length = .ok (address, after)) :
    0 < length ∧ storage.gap length + extent length ≤ addressLimit
      ∧ address = UInt32.ofNat (storage.gap length)
      ∧ after = storage.withBlock subpool length address := by
  obtain ⟨hpos, hfits, -, -⟩ := obtain_ok h
  have hlimit : storage.gap length + extent length ≤ addressLimit := hfits
  have hextent := le_extent length
  have heq := obtain_eq hwf hpos (le_runLimit (by omega)) subpool
  rw [if_pos hlimit, h] at heq
  cases heq
  exact ⟨hpos, hlimit, rfl, rfl⟩

/-- Storage of the same shape has room for the same blocks. -/
theorem obtain_shape {storage other after : Storage} {subpool : UInt8} {length : Nat}
    {address : Address} (h : SameShape storage other) (hwf : storage.WellFormed)
    (hwf' : other.WellFormed) (hobtain : storage.obtain subpool length = .ok (address, after)) :
    ∃ after', other.obtain subpool length = .ok (address, after') ∧ SameShape after after' := by
  obtain ⟨hpos, hlimit, rfl, rfl⟩ := obtain_gap hwf hobtain
  have hextent := le_extent length
  have hgap : other.gap length = storage.gap length := firstGap_shape h.1 _ _
  refine ⟨other.withBlock subpool length (UInt32.ofNat (storage.gap length)), ?_, ?_, ?_⟩
  · rw [obtain_eq hwf' hpos (le_runLimit (by omega)) subpool, hgap, if_pos hlimit]
  · have hshape : other.blocks.entries.map extentOf = storage.blocks.entries.map extentOf := h.1
    show (Table.place _ _ _).map extentOf = (Table.place _ _ _).map extentOf
    rw [map_place, map_place, hshape]
  · show note _ _ other.frames = note _ _ storage.frames
    rw [h.2]

-- =============================================================== writing

/-- Replacing an entry of an ordered list by itself changes nothing. -/
theorem place_same {key : Address} {length : Nat} {entries : List (Address × Nat)}
    (hsorted : entries.Pairwise fun a b => a.1 < b.1) (hmem : (key, length) ∈ entries) :
    Table.place key length entries = entries := by
  induction entries with
  | nil => cases hmem
  | cons first rest ih =>
      obtain ⟨hfirst, hrest⟩ := List.pairwise_cons.mp hsorted
      unfold Table.place
      rcases List.mem_cons.mp hmem with rfl | hlater
      · rw [if_neg (UInt32.lt_irrefl _), if_pos rfl]
      · have hlt := hfirst _ hlater
        rw [if_neg (UInt32.lt_asymm hlt), if_neg (UInt32.ne_of_lt hlt).symm, ih hrest hlater]

/-- A write keeps the shape. -/
theorem write_shape {storage after : Storage} {address : Address} {data : Bytes}
    (hwf : storage.WellFormed) (h : storage.write address data = .ok after) :
    SameShape storage after := by
  unfold write at h
  obtain ⟨⟨start, block, offset⟩, hlocate, h⟩ := Outcome.bind_ok h
  obtain ⟨hmem, -, hfit⟩ := locate_ok hlocate
  cases h
  refine ⟨?_, rfl⟩
  show (Table.place _ _ _).map extentOf = storage.blocks.entries.map extentOf
  rw [map_place, Block.length_write hfit]
  apply place_same
  · rw [List.pairwise_map]
    exact hwf.apart.imp_of_mem fun ha _ hab => hab.lt (hwf.placed _ ha).2.2.1
  · exact List.mem_map.mpr ⟨_, hmem, rfl⟩

-- ================================================================== room

/-- Blocks of these lengths can be obtained one after the other. -/
def Room : List Nat → Storage → Prop
  | [], _ => True
  | length :: rest, storage =>
    ∃ address after, storage.obtain engineSubpool length = .ok (address, after) ∧ Room rest after

/-- Storage of the same shape has the same room. -/
theorem Room.sameShape {lengths : List Nat} {storage other : Storage}
    (h : SameShape storage other) (hwf : storage.WellFormed) (hwf' : other.WellFormed)
    (hroom : Room lengths storage) : Room lengths other := by
  induction lengths generalizing storage other with
  | nil => trivial
  | cons length rest ih =>
      obtain ⟨address, after, hobtain, hrest⟩ := hroom
      obtain ⟨after', hobtain', hshape⟩ := obtain_shape h hwf hwf' hobtain
      refine ⟨address, after', hobtain', ?_⟩
      exact ih hshape (obtain_wellFormed hwf hobtain) (obtain_wellFormed hwf' hobtain') hrest

/-- Once the first block is there, the room for the rest is left. -/
theorem room_cons {storage after : Storage} {length : Nat} {rest : List Nat} {address : Address}
    (h : storage.obtain engineSubpool length = .ok (address, after)) :
    Room (length :: rest) storage ↔ Room rest after := by
  constructor
  · rintro ⟨address', after', h', hrest⟩
    rw [h] at h'
    cases h'
    exact hrest
  · exact fun hrest => ⟨address, after, h, hrest⟩

/-- What was written takes no room. -/
theorem room_write {storage after : Storage} {lengths : List Nat} {address : Address}
    {data : Bytes} (hwf : storage.WellFormed) (h : storage.write address data = .ok after) :
    Room lengths storage ↔ Room lengths after := by
  have hwf' := write_wellFormed hwf h
  have hshape := write_shape hwf h
  constructor
  · exact fun hroom => hroom.sameShape hshape hwf hwf'
  · exact fun hroom => hroom.sameShape ⟨hshape.1.symm, hshape.2.symm⟩ hwf' hwf

/-- Storage that cannot be obtained is exhausted. -/
theorem obtain_cases {storage : Storage} {length : Nat} (hwf : storage.WellFormed)
    (hpos : 0 < length) (hlength : length ≤ addressLimit) (subpool : UInt8) :
    (∃ address after, storage.obtain subpool length = .ok (address, after))
      ∨ storage.obtain subpool length = fail (.obtainFailed length .exhausted) := by
  rw [obtain_eq hwf hpos (le_runLimit hlength) subpool]
  split
  · exact .inl ⟨_, _, rfl⟩
  · exact .inr rfl

/-- A block that was obtained takes the data it was obtained for. -/
theorem obtainWith_of_obtain {storage larger : Storage} {subpool : UInt8} {data : Bytes}
    {address : Address} (hwf : storage.WellFormed)
    (h : storage.obtain subpool data.length = .ok (address, larger)) :
    ∃ after, larger.write address data = .ok after
      ∧ storage.obtainWith subpool data = .ok (address, after) := by
  have hpos := (obtain_ok h).1
  obtain ⟨hzeros, -, -⟩ := obtain_contents hwf h
  have hwritten : ∃ after, larger.write (address.shift 0) data = .ok after
      ∧ after.contents address = some (Field.splice (List.replicate data.length 0) 0 data)
      ∧ ∀ other, other ≠ address → after.contents other = larger.contents other :=
    write_contents (obtain_wellFormed hwf h) hzeros (by rwa [List.length_replicate]) (by simp)
  obtain ⟨after, hwrite, -, -⟩ := hwritten
  rw [Address.shift_zero] at hwrite
  refine ⟨after, hwrite, ?_⟩
  unfold obtainWith
  rw [h]
  show (do return (address, ← larger.write address data)) = _
  rw [hwrite]
  rfl

-- ================================================================ frames

/-- Blocks are released by address, so the shape says what is left. -/
theorem foldl_erase_shape {blocks others : Table Address Block}
    (h : others.entries.map extentOf = blocks.entries.map extentOf) (frame : List Address) :
    (frame.foldl Table.erase others).entries.map extentOf
      = (frame.foldl Table.erase blocks).entries.map extentOf := by
  induction frame generalizing blocks others with
  | nil => exact h
  | cons address rest ih =>
      apply ih
      have hfilter : ∀ table : Table Address Block, (table.erase address).entries.map extentOf
          = (table.entries.map extentOf).filter fun entry => decide (entry.1 ≠ address) := by
        intro table
        rw [List.filter_map]
        rfl
      rw [hfilter, hfilter, h]

/-- Equal shapes stay equal when a frame is opened, and when it is closed.
-/
theorem SameShape.openFrame {storage after : Storage} (h : SameShape storage after) :
    SameShape storage.openFrame after.openFrame :=
  ⟨h.1, congrArg (List.cons []) h.2⟩

theorem SameShape.closeFrame {storage after : Storage} (h : SameShape storage after) :
    SameShape storage.closeFrame after.closeFrame := by
  unfold Storage.closeFrame
  rw [h.2]
  split
  · exact h
  · exact ⟨foldl_erase_shape h.1 _, rfl⟩

/-- Two moments inside a frame: closed at either, it leaves one shape. -/
def Inner (storage after : Storage) : Prop :=
  storage.WellFormed → storage.frames ≠ [] →
    after.WellFormed ∧ after.frames ≠ [] ∧ SameShape storage.closeFrame after.closeFrame

instance : IsPreorder Storage Inner where
  refl _ := fun hwf hframes => ⟨hwf, hframes, rfl, rfl⟩
  trans a b c h h' := by
    intro hwf hframes
    obtain ⟨hwf', hframes', hshape⟩ := h hwf hframes
    obtain ⟨hwf'', hframes'', hshape'⟩ := h' hwf' hframes'
    exact ⟨hwf'', hframes'', IsTrans.trans _ _ _ hshape hshape'⟩

/-- A block that was obtained in a frame is noted there. -/
theorem obtain_noted {storage after : Storage} {length : Nat} {address : Address}
    {frame : List Address} {outer : List (List Address)} (hwf : storage.WellFormed)
    (hframes : storage.frames = frame :: outer)
    (h : storage.obtain engineSubpool length = .ok (address, after)) :
    after.frames = (address :: frame) :: outer ∧ after.closeFrame = storage.closeFrame := by
  have hnew : storage.blocks.get? address = none := by
    have hnone := (obtain_contents hwf h).2.1
    unfold contents at hnone
    rwa [Option.map_eq_none_iff] at hnone
  obtain ⟨-, -, -, rfl⟩ := obtain_gap hwf h
  have hnoted : (storage.withBlock engineSubpool length address).frames
      = (address :: frame) :: outer := by
    show note _ _ storage.frames = _
    rw [hframes]
    rfl
  refine ⟨hnoted, ?_⟩
  unfold Storage.closeFrame
  rw [hnoted, hframes]
  show Storage.mk (frame.foldl Table.erase ((storage.blocks.insert address _).erase address)) _
    = _
  rw [Table.erase_insert _ hnew]

/-- A block that was obtained in a frame goes with it. -/
theorem inner_obtain {storage after : Storage} {length : Nat} {address : Address}
    (h : storage.obtain engineSubpool length = .ok (address, after)) : Inner storage after := by
  intro hwf hframes
  obtain ⟨frame, outer, houter⟩ := List.exists_cons_of_ne_nil hframes
  obtain ⟨hnoted, hcloses⟩ := obtain_noted hwf houter h
  refine ⟨obtain_wellFormed hwf h, by simp [hnoted], ?_⟩
  rw [hcloses]
  exact refl _

/-- Within a frame a write keeps what was there before it. -/
theorem inner_write {storage after : Storage} {address : Address} {data : Bytes}
    (h : storage.write address data = .ok after) : Inner storage after := by
  intro hwf hframes
  have hshape := write_shape hwf h
  refine ⟨write_wellFormed hwf h, ?_, hshape.closeFrame⟩
  rw [hshape.2]
  exact hframes

/-- So does a block that is obtained and filled. -/
theorem inner_obtainWith {storage after : Storage} {data : Bytes} {address : Address}
    (h : storage.obtainWith engineSubpool data = .ok (address, after)) : Inner storage after := by
  unfold obtainWith at h
  obtain ⟨⟨base, larger⟩, hobtain, h⟩ := Outcome.bind_ok h
  obtain ⟨written, hwrite, h⟩ := Outcome.bind_ok h
  cases h
  exact IsTrans.trans _ _ _ (inner_obtain hobtain) (inner_write hwrite)

end Storage

-- ================================================================ engine

/-- From a named linkage and well formed storage, `x` leaves such and the
shape of storage, and a value it returns meets `value`. -/
def Op.Keeps {H α : Type} (value : α → Prop) (x : Op (Linkage H) α) : Prop :=
  ∀ link, link.Named → link.storage.WellFormed → x.Ends link fun r after =>
    after.Named ∧ after.storage.WellFormed ∧ Storage.SameShape link.storage after.storage
      ∧ ∀ a, r = .ok a → value a

namespace Linkage

variable {H : Type} {α : Type}

/-- Two moments of a linkage inside a frame. -/
def Inner (link after : Linkage H) : Prop :=
  Storage.Inner link.storage after.storage

instance : IsPreorder (Linkage H) Inner where
  refl link := refl link.storage
  trans _ _ _ h h' := IsTrans.trans (r := Storage.Inner) _ _ _ h h'

/-- The shape of storage is the same, and storage stays well formed. -/
def Steady (link after : Linkage H) : Prop :=
  link.storage.WellFormed →
    after.storage.WellFormed ∧ Storage.SameShape link.storage after.storage

instance : IsPreorder (Linkage H) Steady where
  refl _ := fun hwf => ⟨hwf, rfl, rfl⟩
  trans _ _ _ h h' := fun hwf =>
    ⟨(h' (h hwf).1).1, IsTrans.trans _ _ _ (h hwf).2 (h' (h hwf).1).2⟩

/-- Work on storage that stays within the frame. -/
theorem inner_update {f : Storage → Outcome (α × Storage)}
    (h : ∀ storage a after, f storage = .ok (a, after) → Storage.Inner storage after) :
    (onMachine (Machine.onStorage (Op.update f)) : Op (Linkage H) α).Within Inner := by
  intro link
  show Storage.Inner link.storage (onMachine (Machine.onStorage (Op.update f)) link).2.storage
  unfold onMachine Machine.onStorage Op.on Op.update
  cases hf : f link.storage with
  | ok pair => exact h _ _ _ hf
  | error fault => exact refl link.storage

/-- The engine's own work on storage is of this kind. -/
theorem inner_obtain (length : Nat) : (obtain length : Op (Linkage H) Address).Within Inner :=
  inner_update fun _ _ _ h => Storage.inner_obtain h

theorem inner_obtainWith (data : Bytes) :
    (obtainWith data : Op (Linkage H) Address).Within Inner :=
  inner_update fun _ _ _ h => Storage.inner_obtainWith h

theorem inner_write (address : Address) (data : Bytes) :
    (write address data : Op (Linkage H) Unit).Within Inner := by
  refine inner_update fun storage a after h => ?_
  obtain ⟨written, hwrite, h⟩ := Outcome.bind_ok h
  cases h
  exact Storage.inner_write hwrite

/-- What is done in a frame leaves the shape of storage. -/
theorem steady_framed {x : Op (Linkage H) α} (h : x.Within Inner) : (framed x).Within Steady := by
  intro link hwf
  have hinner := h { link with storage := link.storage.openFrame }
    (Storage.openFrame_wellFormed hwf) (List.cons_ne_nil _ _)
  exact ⟨Storage.closeFrame_wellFormed hinner.1, hinner.2.2⟩

variable [Host H]

/-- A call of a module obtains nothing. -/
def OnlyWrites (H : Type) [Host H] (module : String) : Prop :=
  ∀ (m : Machine H) (entry : EntryPoint) (r1 : Address), entry.module = module →
    Storage.Inner m.storage (Host.call m entry r1).2.storage

/-- And so is the call of a service that only writes. -/
theorem inner_call {entry : EntryPoint} (h : OnlyWrites H entry.module) (parms : ParmList) :
    (call entry parms : Op (Linkage H) Int32).Within Inner := by
  refine Op.Within.bind (inner_update fun storage a after hplace => ?_) fun r1 link => ?_
  · obtain ⟨bytes, _, hplace⟩ := Outcome.bind_ok hplace
    exact Storage.inner_obtainWith hplace
  · show Storage.Inner link.storage (branch entry r1 link).2.toMachine.storage
    rw [(branch_modules entry r1 link).2.2]
    exact h link.toMachine entry r1 rfl

/-- A posted service that only writes leaves the shape of storage. -/
theorem Posted.steady {entry : EntryPoint} {x y : Op (Linkage H) α} (h : Posted entry x y) (hentry : OnlyWrites H entry.module) :
    x.Within Steady := by
  cases h with
  | framed h =>
      refine steady_framed (h.within ?_ (inner_call hentry))
      exact ⟨inner_obtain, inner_obtainWith, inner_write⟩

/-- Moves that keep the shape of storage. -/
def Settled (link after : Linkage H) : Prop :=
  Reach (OnlyWrites H) link after ∧ Steady link after

instance : IsPreorder (Linkage H) Settled where
  refl link := ⟨Reach.refl link, refl_of Steady link⟩
  trans _ _ _ h h' := ⟨h.1.trans h'.1, trans_of Steady h.2 h'.2⟩

variable [Host.LoadsByName H]

/-- The engine keeps the shape of storage if the services it calls only
write. -/
theorem served_settled :
    Served (.keeping Named Settled) (id : H → H) (.byName (OnlyWrites H)) := by
  refine served_keeping (Host.maps_id _) (fun _ _ h => h.1.named) (fun module hmem => ?_)
    (fun entry _ _ _ hcalled hposted => ?_) (fun _ => trivial) (fun ddname link => ?_)
    fun ddname link => ?_
  · intro link hnamed
    have huses : (fetch module : Op (Linkage H) EntryPoint).Uses id (OnlyWrites H)
        fun entry => entry.module = module := uses_fetch_named (upper_sought hmem)
    have hmoves := huses link hnamed
    have hstorage : (fetch module link).2.storage = link.storage := (fetch_ends module link).2.1
    refine Op.Contract.kept_keeping (hmoves.1.named hnamed) ⟨hmoves.1, fun hwf => ?_⟩ hmoves.2
    show (fetch module link).2.storage.WellFormed
      ∧ Storage.SameShape link.storage (fetch module link).2.storage
    rw [hstorage]
    exact ⟨hwf, rfl, rfl⟩
  · exact fun link => ⟨hposted.reach hcalled link, hposted.steady hcalled link⟩
  · exact ⟨(Move.openRecords link ddname).reach, fun hwf => ⟨hwf, rfl, rfl⟩⟩
  · exact ⟨(Move.openStream link ddname).reach, fun hwf => ⟨hwf, rfl, rfl⟩⟩

end Linkage

/-- A captured command leaves the shape of storage, if the services it
calls only write. -/
theorem Session.keeps_captured {H : Type} [Host H] [Host.LoadsByName H]
    (hprepare : ∀ module ∈ Invocation.prepareModules, Linkage.OnlyWrites H module) {route : Route}
    (hexecute : Linkage.OnlyWrites H route.module) (capability : Capability) (text : String)
    (name : DdName) :
    (captured capability route text name : Op (Linkage H) (DdName × CommandReport)).Keeps
      fun _ => True := by
  intro link hnamed hwf
  have hmeets : Linkage.Meets (.keeping Linkage.Named Linkage.Settled) (id : H → H) (fun _ => True)
      (fun _ => True) (captured capability route text name)
      (captured capability route text name) := meets_captured Linkage.served_settled
    (fun module hmem => Linkage.Terms.allows_byName (hprepare module hmem)) .any
    Error.Granting.any.toServing .any (Linkage.Terms.allows_byName hexecute)
    (fun _ _ _ _ _ => trivial) capability name
  refine (hmeets.fulfils link hnamed).mono fun r after h => ?_
  obtain ⟨hwf', hshape⟩ := h.stays.2 hwf
  exact ⟨h.given, hwf', hshape, h.value⟩

end TsoBridge
