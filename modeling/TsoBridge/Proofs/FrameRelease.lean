/-
What a frame gives back. A frame notes the addresses of the blocks that
are obtained in it, and an explicit release leaves the note where it is.
First fit hands the address out again, so when the frame is closed the
block that stands there may be another one.

# The ledger

The ledger is kept beside a history by somebody who numbers the frames.
It says of each block which subpool it came from and which frame was the
innermost one then (`Letting`), and which blocks were released one by one
while the frame that owned them was open (`lapsed`). It knows blocks where
the frames know addresses.

# The invariant

`Observed` ties the two together. A frame notes an address exactly if the
block there is the frame's, or a block of the frame there lapsed (`Noted`).
Where a block lapsed, the block that stands there now was obtained in that
frame or in one further in. So the block at a stale note is no block of an
outer frame; it is one of the frame itself, or one of the host's, and those
are what the frame takes along that it does not own.
-/
import TsoBridge.Proofs.FirstFit

namespace TsoBridge.Storage

-- ============================================================== the ledger

/-- A block that was obtained: where, from which subpool, and the number
of the frame that was the innermost then. -/
structure Letting where
  address : Address
  subpool : UInt8
  frame : Option Nat
deriving DecidableEq

/-- The frame a block belongs to. The host's blocks belong to none. -/
def Letting.owner? (letting : Letting) : Option Nat :=
  if letting.subpool = hostSubpool then none else letting.frame

/-- What was obtained and released, and in which frames. -/
structure Ledger where
  /-- The number of frames that were opened. The next one gets it as its
  number. -/
  opened : Nat := 0
  /-- The open frames, the innermost first. -/
  frames : List Nat := []
  /-- All blocks ever obtained, the newest first. -/
  lettings : List Letting := []
  /-- The blocks of a frame that were released by their address. -/
  lapsed : List (Nat × Address) := []
deriving DecidableEq

namespace Ledger

variable {ledger : Ledger} {address other : Address}

/-- The block last obtained at an address. -/
def tenant (ledger : Ledger) (address : Address) : Option Letting :=
  ledger.lettings.find? fun letting => decide (letting.address = address)

/-- The frame that the block last obtained at an address belongs to. -/
def owner? (ledger : Ledger) (address : Address) : Option Nat :=
  (ledger.tenant address).bind Letting.owner?

/-- A block was obtained. -/
def enter (ledger : Ledger) (subpool : UInt8) (address : Address) : Ledger :=
  { ledger with lettings := ⟨address, subpool, ledger.frames.head?⟩ :: ledger.lettings }

/-- A block was released by its address. -/
def lapse (ledger : Ledger) (address : Address) : Ledger :=
  match ledger.owner? address with
  | none => ledger
  | some frame => { ledger with lapsed := (frame, address) :: ledger.lapsed }

/-- A frame was opened. -/
def openFrame (ledger : Ledger) : Ledger :=
  { ledger with opened := ledger.opened + 1, frames := ledger.opened :: ledger.frames }

/-- The innermost frame was closed. -/
def closeFrame (ledger : Ledger) : Ledger :=
  { ledger with frames := ledger.frames.tail }

/-- A new tenant is in the frame on top. -/
theorem tenant_enter_self (ledger : Ledger) (subpool : UInt8) (address : Address) :
    (ledger.enter subpool address).tenant address
      = some ⟨address, subpool, ledger.frames.head?⟩ := by
  simp [tenant, enter]

/-- Nobody else moves. -/
theorem tenant_enter_ne (ledger : Ledger) (subpool : UInt8) (hne : other ≠ address) :
    (ledger.enter subpool address).tenant other = ledger.tenant other := by
  simp [tenant, enter, hne.symm]

theorem owner_enter_ne (ledger : Ledger) (subpool : UInt8) (hne : other ≠ address) :
    (ledger.enter subpool address).owner? other = ledger.owner? other := by
  unfold owner?
  rw [tenant_enter_ne ledger subpool hne]

/-- A lapse is written down beside the lettings, and changes none of them. -/
@[simp] theorem tenant_lapse (ledger : Ledger) (address other : Address) :
    (ledger.lapse address).tenant other = ledger.tenant other := by
  unfold lapse
  split <;> rfl

@[simp] theorem owner_lapse (ledger : Ledger) (address other : Address) :
    (ledger.lapse address).owner? other = ledger.owner? other := by
  unfold owner?
  rw [tenant_lapse]

@[simp] theorem frames_lapse (ledger : Ledger) (address : Address) :
    (ledger.lapse address).frames = ledger.frames := by
  unfold lapse
  split <;> rfl

@[simp] theorem opened_lapse (ledger : Ledger) (address : Address) :
    (ledger.lapse address).opened = ledger.opened := by
  unfold lapse
  split <;> rfl

/-- What has lapsed after a release. -/
theorem mem_lapse {frame : Nat} :
    (frame, other) ∈ (ledger.lapse address).lapsed
      ↔ (frame, other) ∈ ledger.lapsed
        ∨ other = address ∧ ledger.owner? address = some frame := by
  unfold lapse
  split
  · next hnone => simp [hnone]
  · next owner howner =>
    simp only [List.mem_cons, Prod.mk.injEq, howner, Option.some.injEq]
    constructor
    · rintro (⟨rfl, rfl⟩ | h)
      · exact .inr ⟨rfl, rfl⟩
      · exact .inl h
    · rintro (h | ⟨rfl, rfl⟩)
      · exact .inr h
      · exact .inl ⟨rfl, rfl⟩

/-- A block that belongs to a frame was obtained while it was innermost. -/
theorem frame_of_owner {frame : Nat} {letting : Letting}
    (htenant : ledger.tenant address = some letting)
    (howner : ledger.owner? address = some frame) : letting.frame = some frame := by
  unfold owner? at howner
  rw [htenant, Option.bind_some] at howner
  unfold Letting.owner? at howner
  split at howner
  · cases howner
  · exact howner

end Ledger

namespace Act

/-- The ledger after an act on a storage. -/
def recorded (act : Act) (storage : Storage) (ledger : Ledger) : Ledger :=
  match act with
  | .obtain subpool length =>
    match storage.obtain subpool length with
    | .ok (address, _) => ledger.enter subpool address
    | .error _ => ledger
  | .obtainWith subpool data =>
    match storage.obtainWith subpool data with
    | .ok (address, _) => ledger.enter subpool address
    | .error _ => ledger
  | .release address => if storage.blocks.contains address then ledger.lapse address else ledger
  | .openFrame => ledger.openFrame
  | .closeFrame => ledger.closeFrame
  | .write _ _ => ledger

/-- The ledger after a history. -/
def recordedAll : List Act → Storage → Ledger → Ledger
  | [], _, ledger => ledger
  | act :: rest, storage, ledger => recordedAll rest (act.after storage) (act.recorded storage ledger)

end Act

-- =========================================================== the invariant

/-- The subpool of the block at an address. -/
def subpoolAt (storage : Storage) (address : Address) : Option UInt8 :=
  (storage.blocks.get? address).map Block.subpool

/-- A frame notes the blocks it owns and the places where one lapsed. -/
def Noted (storage : Storage) (ledger : Ledger) (frame : Nat) (notes : List Address) : Prop :=
  ∀ address, address ∈ notes ↔ (frame, address) ∈ ledger.lapsed
    ∨ storage.subpoolAt address ≠ none ∧ ledger.owner? address = some frame

/-- A ledger kept beside a storage. -/
structure Observed (storage : Storage) (ledger : Ledger) : Prop where
  /-- A frame further in has the larger number. -/
  numbered : ledger.frames.Pairwise (· > ·)
  opened : ∀ frame ∈ ledger.frames, frame < ledger.opened
  lapsed : ∀ frame address, (frame, address) ∈ ledger.lapsed → frame < ledger.opened
  tenanted : ∀ address subpool, storage.subpoolAt address = some subpool →
    ∃ letting, ledger.tenant address = some letting ∧ letting.subpool = subpool
  /-- The frame that a live block belongs to is open. -/
  owned : ∀ address frame, storage.subpoolAt address ≠ none →
    ledger.owner? address = some frame → frame ∈ ledger.frames
  noted : List.Forall₂ (Noted storage ledger) ledger.frames storage.frames
  /-- Where a block of an open frame lapsed, later ones were obtained in
  that frame or further in. -/
  later : ∀ frame ∈ ledger.frames, ∀ address, (frame, address) ∈ ledger.lapsed →
    ∀ letting, ledger.tenant address = some letting →
      ∃ inner, letting.frame = some inner ∧ frame ≤ inner

variable {storage after : Storage} {ledger : Ledger} {address : Address} {subpool : UInt8}

/-- Empty storage has an empty ledger. -/
theorem observed_empty : Observed {} {} where
  numbered := List.Pairwise.nil
  opened := by simp
  lapsed := by simp
  tenanted := by simp [subpoolAt, Table.get?]
  owned := by simp [subpoolAt, Table.get?]
  noted := .nil
  later := by simp

/-- Only frames and subpools matter to the ledger. -/
theorem Observed.same (h : Observed storage ledger) (hframes : after.frames = storage.frames)
    (hsubpool : ∀ address, after.subpoolAt address = storage.subpoolAt address) :
    Observed after ledger where
  numbered := h.numbered
  opened := h.opened
  lapsed := h.lapsed
  tenanted := by
    intro address subpool hlive
    rw [hsubpool] at hlive
    exact h.tenanted address subpool hlive
  owned := by
    intro address frame hlive
    rw [hsubpool] at hlive
    exact h.owned address frame hlive
  noted := by
    rw [hframes]
    refine h.noted.imp fun frame notes hnoted address => ?_
    rw [hsubpool]
    exact hnoted address
  later := h.later

-- ============================================================== obtaining

/-- A new block stands in the subpool it was asked from. -/
theorem subpoolAt_withBlock_self (storage : Storage) (subpool : UInt8) (length : Nat)
    (address : Address) : (storage.withBlock subpool length address).subpoolAt address
      = some subpool := by
  unfold subpoolAt withBlock
  rw [Table.get?_insert_self]
  rfl

/-- The others stand where they stood. -/
theorem subpoolAt_withBlock_ne (storage : Storage) (subpool : UInt8) (length : Nat)
    {address other : Address} (hne : other ≠ address) :
    (storage.withBlock subpool length address).subpoolAt other = storage.subpoolAt other := by
  unfold subpoolAt withBlock
  rw [Table.get?_insert_ne _ _ hne]

/-- A frame the new block does not belong to notes what it noted. -/
theorem Noted.enter {frame length : Nat} {notes : List Address}
    (h : Noted storage ledger frame notes) (hnew : storage.subpoolAt address = none)
    (hother : (ledger.enter subpool address).owner? address ≠ some frame) :
    Noted (storage.withBlock subpool length address) (ledger.enter subpool address) frame
      notes := by
  intro other
  by_cases heq : other = address
  · subst heq
    have hlapsed : other ∈ notes ↔ (frame, other) ∈ ledger.lapsed := by
      rw [h other, hnew]
      simp
    rw [hlapsed]
    constructor
    · exact .inl
    · rintro (hold | ⟨-, howner⟩)
      · exact hold
      · exact absurd howner hother
  · rw [subpoolAt_withBlock_ne storage subpool length heq, Ledger.owner_enter_ne ledger subpool heq]
    exact h other

/-- The frame a new block belongs to notes it. -/
theorem Noted.enter_own {frame length : Nat} {notes : List Address}
    (h : Noted storage ledger frame notes)
    (hown : (ledger.enter subpool address).owner? address = some frame) :
    Noted (storage.withBlock subpool length address) (ledger.enter subpool address) frame
      (address :: notes) := by
  intro other
  by_cases heq : other = address
  · subst heq
    rw [subpoolAt_withBlock_self, hown]
    simp
  · rw [subpoolAt_withBlock_ne storage subpool length heq, Ledger.owner_enter_ne ledger subpool heq,
      List.mem_cons, or_iff_right heq]
    exact h other

/-- A new block belongs to the innermost frame, unless it is the host's. -/
theorem Ledger.owner_enter_self (ledger : Ledger) (subpool : UInt8) (address : Address) :
    (ledger.enter subpool address).owner? address
      = if subpool = hostSubpool then none else ledger.frames.head? := by
  unfold Ledger.owner?
  rw [Ledger.tenant_enter_self]
  rfl

/-- The frames after a block was obtained. -/
theorem Observed.noted_enter (h : Observed storage ledger) (length : Nat)
    (hnew : storage.subpoolAt address = none) :
    List.Forall₂ (Noted (storage.withBlock subpool length address) (ledger.enter subpool address))
      ledger.frames (note subpool address storage.frames) := by
  have howner := Ledger.owner_enter_self ledger subpool address
  have hnumbered := h.numbered
  have hnoted := h.noted
  generalize storage.frames = noted at hnoted ⊢
  cases hframes : ledger.frames with
  | nil =>
      rw [hframes] at hnoted
      cases hnoted
      exact .nil
  | cons frame outer =>
      rw [hframes] at hnoted hnumbered howner
      rw [List.head?_cons] at howner
      cases hnoted with
      | @cons _ notes _ rest hfirst hrest =>
          -- an outer frame has another number than the innermost
          have hrest' : List.Forall₂ (Noted (storage.withBlock subpool length address)
              (ledger.enter subpool address)) outer rest := by
            have houter : ∀ other ∈ outer, other < frame := (List.pairwise_cons.mp hnumbered).1
            refine ((List.forall₂_and_left _ _).mpr ⟨houter, hrest⟩).imp ?_
            rintro other notes ⟨hlt, hother⟩
            apply hother.enter hnew
            rw [howner]
            split
            · simp
            · simp only [ne_eq, Option.some.injEq]
              omega
          show List.Forall₂ _ _ (if subpool = hostSubpool then notes :: rest
            else (address :: notes) :: rest)
          by_cases hhost : subpool = hostSubpool
          · rw [if_pos hhost] at howner ⊢
            exact .cons (hfirst.enter hnew (by simp [howner])) hrest'
          · rw [if_neg hhost] at howner ⊢
            exact .cons (hfirst.enter_own howner) hrest'

/-- A block was obtained. -/
theorem Observed.enter (h : Observed storage ledger) (length : Nat)
    (hnew : storage.subpoolAt address = none) :
    Observed (storage.withBlock subpool length address) (ledger.enter subpool address) where
  numbered := h.numbered
  opened := h.opened
  lapsed := h.lapsed
  tenanted := by
    intro other live hlive
    by_cases heq : other = address
    · subst heq
      rw [subpoolAt_withBlock_self] at hlive
      cases hlive
      exact ⟨_, Ledger.tenant_enter_self ledger subpool other, rfl⟩
    · rw [subpoolAt_withBlock_ne storage subpool length heq] at hlive
      rw [Ledger.tenant_enter_ne ledger subpool heq]
      exact h.tenanted other live hlive
  owned := by
    intro other frame hlive howner
    by_cases heq : other = address
    · subst heq
      rw [Ledger.owner_enter_self] at howner
      split at howner
      · cases howner
      · exact List.mem_of_head? howner
    · rw [subpoolAt_withBlock_ne storage subpool length heq] at hlive
      rw [Ledger.owner_enter_ne ledger subpool heq] at howner
      exact h.owned other frame hlive howner
  noted := h.noted_enter length hnew
  later := by
    intro frame hframe other hlapsed letting htenant
    by_cases heq : other = address
    · subst heq
      rw [Ledger.tenant_enter_self] at htenant
      cases htenant
      -- the innermost frame has the largest number
      have hnumbered := h.numbered
      have hmem : frame ∈ ledger.frames := hframe
      cases hframes : ledger.frames with
      | nil => simp [hframes] at hmem
      | cons inner outer =>
          rw [hframes] at hnumbered hmem
          refine ⟨inner, rfl, ?_⟩
          rcases List.mem_cons.mp hmem with rfl | houter
          · exact Nat.le_refl _
          · exact Nat.le_of_lt ((List.pairwise_cons.mp hnumbered).1 frame houter)
    · rw [Ledger.tenant_enter_ne ledger subpool heq] at htenant
      exact h.later frame hframe other hlapsed letting htenant

-- ============================================================== releasing

/-- What is left when blocks were taken away. -/
theorem subpoolAt_without {gone : Address → Prop} [DecidablePred gone]
    (hblocks : ∀ address, after.blocks.get? address
      = if gone address then none else storage.blocks.get? address) (address : Address) :
    after.subpoolAt address = if gone address then none else storage.subpoolAt address := by
  unfold subpoolAt
  rw [hblocks]
  split <;> rfl

/-- What is left was there, and not taken away. -/
theorem subpoolAt_left {gone : Address → Prop} [DecidablePred gone]
    (hblocks : ∀ address, after.blocks.get? address
      = if gone address then none else storage.blocks.get? address)
    (hlive : after.subpoolAt address ≠ none) :
    ¬gone address ∧ storage.subpoolAt address ≠ none := by
  rw [subpoolAt_without hblocks] at hlive
  split at hlive
  · exact absurd rfl hlive
  · next hnot => exact ⟨hnot, hlive⟩

/-- A block was released by its address. -/
theorem Observed.lapse (h : Observed storage ledger) (hlive : storage.subpoolAt address ≠ none) :
    Observed { storage with blocks := storage.blocks.erase address } (ledger.lapse address) := by
  have hblocks : ∀ other, (storage.blocks.erase address).get? other
      = if other = address then none else storage.blocks.get? other := by
    intro other
    split
    · next heq => rw [heq, Table.get?_erase_self]
    · next hne => rw [Table.get?_erase_ne _ hne]
  have hleft : ∀ other, Storage.subpoolAt
      { storage with blocks := storage.blocks.erase address } other
        = if other = address then none else storage.subpoolAt other :=
    subpoolAt_without hblocks
  constructor
  case numbered =>
    rw [Ledger.frames_lapse]
    exact h.numbered
  case opened =>
    rw [Ledger.frames_lapse, Ledger.opened_lapse]
    exact h.opened
  case lapsed =>
    intro frame other hlapsed
    rw [Ledger.opened_lapse]
    rcases Ledger.mem_lapse.mp hlapsed with hold | ⟨rfl, howner⟩
    · exact h.lapsed frame other hold
    · exact h.opened frame (h.owned other frame hlive howner)
  case tenanted =>
    intro other subpool hother
    rw [hleft] at hother
    split at hother
    · cases hother
    · rw [Ledger.tenant_lapse]
      exact h.tenanted other subpool hother
  case owned =>
    intro other frame hother howner
    rw [Ledger.owner_lapse] at howner
    rw [Ledger.frames_lapse]
    exact h.owned other frame (subpoolAt_left hblocks hother).2 howner
  case noted =>
    rw [Ledger.frames_lapse]
    refine h.noted.imp fun frame notes hnoted other => ?_
    rw [hnoted other, Ledger.mem_lapse, Ledger.owner_lapse, hleft]
    by_cases heq : other = address
    · subst heq
      simp [hlive]
    · simp [heq]
  case later =>
    intro frame hframe other hlapsed letting htenant
    rw [Ledger.frames_lapse] at hframe
    rw [Ledger.tenant_lapse] at htenant
    rcases Ledger.mem_lapse.mp hlapsed with hold | ⟨rfl, howner⟩
    · exact h.later frame hframe other hold letting htenant
    · exact ⟨frame, Ledger.frame_of_owner htenant howner, Nat.le_refl _⟩

-- ================================================================= frames

/-- A frame was opened. -/
theorem Observed.openFrame (h : Observed storage ledger) :
    Observed storage.openFrame ledger.openFrame where
  numbered := List.pairwise_cons.mpr ⟨h.opened, h.numbered⟩
  opened := by
    intro frame hframe
    rcases List.mem_cons.mp hframe with rfl | hold
    · exact Nat.lt_succ_self _
    · exact Nat.lt_succ_of_lt (h.opened frame hold)
  lapsed := fun frame address hlapsed => Nat.lt_succ_of_lt (h.lapsed frame address hlapsed)
  tenanted := h.tenanted
  owned := fun address frame hlive howner =>
    List.mem_cons_of_mem _ (h.owned address frame hlive howner)
  noted := by
    refine .cons (fun address => ?_) h.noted
    -- nothing is older than the frame that could be its own
    have hlapsed : (ledger.opened, address) ∉ ledger.lapsed :=
      fun hmem => Nat.lt_irrefl _ (h.lapsed _ _ hmem)
    have howned : ¬(storage.subpoolAt address ≠ none
        ∧ ledger.owner? address = some ledger.opened) :=
      fun ⟨hlive, howner⟩ => Nat.lt_irrefl _ (h.opened _ (h.owned _ _ hlive howner))
    constructor
    · exact fun hmem => absurd hmem List.not_mem_nil
    · rintro (hmem | hown)
      · exact absurd hmem hlapsed
      · exact absurd hown howned
  later := by
    intro frame hframe address hlapsed letting htenant
    rcases List.mem_cons.mp hframe with rfl | hold
    · exact absurd (h.lapsed _ _ hlapsed) (Nat.lt_irrefl _)
    · exact h.later frame hold address hlapsed letting htenant

/-- Of several blocks erased, each is gone and no other. -/
theorem get?_foldl_erase (notes : List Address) (blocks : Table Address Block)
    (address : Address) : (notes.foldl Table.erase blocks).get? address
      = if address ∈ notes then none else blocks.get? address := by
  induction notes generalizing blocks with
  | nil => simp
  | cons first rest ih =>
      rw [List.foldl_cons, ih]
      by_cases hfirst : address = first
      · subst hfirst
        rw [Table.get?_erase_self]
        simp
      · rw [Table.get?_erase_ne _ hfirst]
        simp [hfirst]

/-- The block at a note of the innermost frame belongs to no other frame. -/
theorem Noted.inmost {frame other : Nat} {outer : List Nat} {notes : List Address}
    (hnoted : Noted storage ledger frame notes) (h : Observed storage ledger)
    (hframes : ledger.frames = frame :: outer) (hmem : address ∈ notes)
    (hlive : storage.subpoolAt address ≠ none) (howner : ledger.owner? address = some other) :
    other = frame := by
  rcases (hnoted address).mp hmem with hlapsed | ⟨-, hown⟩
  · have hopen := h.owned address other hlive howner
    have hnumbered := h.numbered
    rw [hframes] at hopen hnumbered
    obtain ⟨subpool, hsubpool⟩ := Option.ne_none_iff_exists'.mp hlive
    obtain ⟨letting, htenant, -⟩ := h.tenanted address subpool hsubpool
    obtain ⟨inner, hinner, hle⟩ := h.later frame (by simp [hframes]) address hlapsed letting htenant
    rw [Ledger.frame_of_owner htenant howner] at hinner
    cases hinner
    rcases List.mem_cons.mp hopen with heq | houter
    · exact heq
    · have hlt : frame > other := (List.pairwise_cons.mp hnumbered).1 other houter
      omega
  · rw [howner] at hown
    exact Option.some.inj hown

/-- Without an open frame there is none to close. -/
theorem Observed.unframed (h : Observed storage ledger) (hframes : ledger.frames = []) :
    storage.closeFrame = storage := by
  have hnoted := h.noted
  rw [hframes] at hnoted
  unfold Storage.closeFrame
  generalize storage.frames = noted at hnoted ⊢
  cases hnoted
  rfl

/-- Closing the innermost frame takes away the blocks at its notes. -/
theorem Observed.framed {frame : Nat} {outer : List Nat} (h : Observed storage ledger)
    (hframes : ledger.frames = frame :: outer) :
    ∃ notes rest, Noted storage ledger frame notes
      ∧ List.Forall₂ (Noted storage ledger) outer rest
      ∧ storage.closeFrame.frames = rest
      ∧ ∀ address, storage.closeFrame.blocks.get? address
          = if address ∈ notes then none else storage.blocks.get? address := by
  have hnoted := h.noted
  rw [hframes] at hnoted
  unfold Storage.closeFrame
  generalize storage.frames = noted at hnoted ⊢
  cases hnoted with
  | @cons _ notes _ rest hfirst hrest =>
      exact ⟨notes, rest, hfirst, hrest, rfl, get?_foldl_erase notes storage.blocks⟩

/-- A frame further out notes what it noted, as none of its blocks is at
a note of the frame that is closed. -/
theorem Noted.closeFrame {frame other : Nat} {outer : List Nat} {notes others : List Address}
    (hother : Noted storage ledger other others) (hfirst : Noted storage ledger frame notes)
    (h : Observed storage ledger) (hframes : ledger.frames = frame :: outer) (hne : other ≠ frame)
    (hblocks : ∀ address, storage.closeFrame.blocks.get? address
      = if address ∈ notes then none else storage.blocks.get? address) :
    Noted storage.closeFrame ledger.closeFrame other others := by
  intro address
  rw [hother address, subpoolAt_without hblocks]
  refine or_congr_right (and_congr_left fun howner => ?_)
  split
  · next hmem =>
    refine ⟨fun hlive => ?_, fun hnone => absurd rfl hnone⟩
    exact absurd (hfirst.inmost h hframes hmem hlive howner) hne
  · rfl

/-- The innermost frame was closed. -/
theorem Observed.closeFrame (h : Observed storage ledger) :
    Observed storage.closeFrame ledger.closeFrame := by
  cases hframes : ledger.frames with
  | nil =>
      have hledger : ledger.closeFrame = ledger := by
        unfold Ledger.closeFrame
        rw [hframes, List.tail_nil, ← hframes]
      rw [h.unframed hframes, hledger]
      exact h
  | cons frame outer =>
      obtain ⟨notes, rest, hfirst, hrest, hrestEq, hblocks⟩ := h.framed hframes
      have houter : ledger.closeFrame.frames = outer := by
        unfold Ledger.closeFrame
        rw [hframes, List.tail_cons]
      have hsub : ∀ other ∈ outer, other ∈ ledger.frames := by
        intro other hmem
        rw [hframes]
        exact List.mem_cons_of_mem _ hmem
      have hnumbered := h.numbered
      rw [hframes, List.pairwise_cons] at hnumbered
      constructor
      case numbered =>
        rw [houter]
        exact hnumbered.2
      case opened =>
        rw [houter]
        exact fun other hmem => h.opened other (hsub other hmem)
      case lapsed => exact h.lapsed
      case tenanted =>
        intro address subpool hlive
        rw [subpoolAt_without hblocks] at hlive
        split at hlive
        · cases hlive
        · exact h.tenanted address subpool hlive
      case owned =>
        intro address other hlive howner
        obtain ⟨hnot, hlive'⟩ := subpoolAt_left hblocks hlive
        have hmem : other ∈ ledger.frames := h.owned address other hlive' howner
        rw [houter]
        rw [hframes] at hmem
        rcases List.mem_cons.mp hmem with rfl | hmem
        · -- its own blocks went with the frame
          exact absurd ((hfirst address).mpr (.inr ⟨hlive', howner⟩)) hnot
        · exact hmem
      case noted =>
        rw [houter, hrestEq]
        refine ((List.forall₂_and_left _ _).mpr ⟨hnumbered.1, hrest⟩).imp ?_
        rintro other others ⟨hlt, hother⟩
        exact hother.closeFrame hfirst h hframes (Nat.ne_of_lt hlt) hblocks
      case later =>
        rw [houter]
        exact fun other hmem => h.later other (hsub other hmem)

-- ============================================================== histories

/-- A write moves no block to another subpool. -/
theorem write_subpoolAt {data : Bytes} (hwf : storage.WellFormed)
    (h : storage.write address data = .ok after) (other : Address) :
    after.subpoolAt other = storage.subpoolAt other := by
  unfold write at h
  obtain ⟨⟨start, block, offset⟩, hlocate, h⟩ := Outcome.bind_ok h
  obtain ⟨hmem, -, -⟩ := locate_ok hlocate
  cases h
  unfold subpoolAt
  by_cases heq : other = start
  · subst heq
    rw [Table.get?_of_mem hwf.distinct hmem]
    show ((storage.blocks.insert other _).get? other).map _ = _
    rw [Table.get?_insert_self]
    rfl
  · show ((storage.blocks.insert start _).get? other).map _ = _
    rw [Table.get?_insert_ne _ _ heq]

/-- A block is obtained where none was. -/
theorem subpoolAt_new {length : Nat} (hwf : storage.WellFormed)
    (h : storage.obtain subpool length = .ok (address, after)) :
    storage.subpoolAt address = none := by
  have hnone := (obtain_contents hwf h).2.1
  unfold contents at hnone
  unfold subpoolAt
  rw [Option.map_eq_none_iff] at hnone ⊢
  exact hnone

/-- An act keeps the ledger. -/
theorem Observed.step (act : Act) (h : Observed storage ledger) (hwf : storage.WellFormed) :
    Observed (act.after storage) (act.recorded storage ledger) := by
  cases act with
  | obtain subpool length =>
      simp only [Act.after, Act.run, Act.recorded, Op.run_map_snd]
      cases hobtain : storage.obtain subpool length with
      | error fault =>
          rw [Op.update_of_fault hobtain]
          exact h
      | ok pair =>
          obtain ⟨address, larger⟩ := pair
          rw [Op.update_of_ok hobtain]
          obtain ⟨-, -, -, rfl⟩ := obtain_gap hwf hobtain
          exact h.enter length (subpoolAt_new hwf hobtain)
  | obtainWith subpool data =>
      simp only [Act.after, Act.run, Act.recorded, Op.run_map_snd]
      cases hobtainWith : storage.obtainWith subpool data with
      | error fault =>
          rw [Op.update_of_fault hobtainWith]
          exact h
      | ok pair =>
          obtain ⟨address, filled⟩ := pair
          rw [Op.update_of_ok hobtainWith]
          unfold Storage.obtainWith at hobtainWith
          obtain ⟨⟨base, larger⟩, hobtain, hobtainWith⟩ := Outcome.bind_ok hobtainWith
          obtain ⟨written, hwrite, hobtainWith⟩ := Outcome.bind_ok hobtainWith
          cases hobtainWith
          have hwf' := obtain_wellFormed hwf hobtain
          have hframes := (write_shape hwf' hwrite).2
          have hsubpool := write_subpoolAt hwf' hwrite
          have hnew := subpoolAt_new hwf hobtain
          obtain ⟨-, -, -, rfl⟩ := obtain_gap hwf hobtain
          exact (h.enter data.length hnew).same hframes hsubpool
  | release address =>
      have hlive : storage.subpoolAt address ≠ none ↔ storage.blocks.contains address = true := by
        unfold subpoolAt Table.contains
        simp [Option.isSome_iff_ne_none]
      simp only [Act.after, Act.run, Act.recorded, Op.update, Storage.release]
      by_cases hcontains : storage.blocks.contains address = true
      · simp only [if_pos hcontains]
        exact h.lapse (hlive.mpr hcontains)
      · simp only [if_neg hcontains]
        exact h
  | openFrame => exact h.openFrame
  | closeFrame => exact h.closeFrame
  | write address data =>
      simp only [Act.after, Act.run, Act.recorded]
      cases hwrite : storage.write address data with
      | error fault =>
          rw [Op.update_of_fault (by rw [hwrite]; rfl)]
          exact h
      | ok written =>
          rw [Op.update_of_ok (by rw [hwrite]; rfl)]
          exact h.same (write_shape hwf hwrite).2 (write_subpoolAt hwf hwrite)

/-- So does a history. -/
theorem Observed.afterAll (acts : List Act) (h : Observed storage ledger)
    (hwf : storage.WellFormed) :
    Observed (Act.afterAll acts storage) (Act.recordedAll acts storage ledger) := by
  induction acts generalizing storage ledger with
  | nil => exact h
  | cons act rest ih => exact ih (h.step act hwf) (act.wellFormed_after hwf)

/-- What lapses in a history was released in it. -/
theorem Act.released_of_lapsed {acts : List Act} {frame : Nat}
    (h : (frame, address) ∈ (Act.recordedAll acts storage ledger).lapsed) :
    (frame, address) ∈ ledger.lapsed ∨ .release address ∈ acts := by
  induction acts generalizing storage ledger with
  | nil => exact .inl h
  | cons act rest ih =>
      rcases ih h with hfirst | hrest
      · unfold Act.recorded at hfirst
        cases act with
        | obtain subpool length =>
            dsimp only at hfirst
            split at hfirst <;> exact .inl hfirst
        | obtainWith subpool data =>
            dsimp only at hfirst
            split at hfirst <;> exact .inl hfirst
        | release released =>
            dsimp only at hfirst
            split at hfirst
            · rcases Ledger.mem_lapse.mp hfirst with hold | ⟨rfl, -⟩
              · exact .inl hold
              · exact .inr List.mem_cons_self
            · exact .inl hfirst
        | openFrame => exact .inl hfirst
        | closeFrame => exact .inl hfirst
        | write _ _ => exact .inl hfirst
      · exact .inr (List.mem_cons_of_mem _ hrest)

-- ======================================================== what is noted

/-- Of the engine's blocks the innermost frame notes those that were
obtained in it. -/
theorem Noted.mem_iff_frame {frame : Nat} {outer : List Nat} {notes : List Address}
    {letting : Letting} (hnoted : Noted storage ledger frame notes) (h : Observed storage ledger)
    (hframes : ledger.frames = frame :: outer) (hlive : storage.subpoolAt address ≠ none)
    (htenant : ledger.tenant address = some letting) (hother : letting.subpool ≠ hostSubpool) :
    address ∈ notes ↔ letting.frame = some frame := by
  have howner : ledger.owner? address = letting.frame := by
    unfold Ledger.owner?
    rw [htenant]
    exact if_neg hother
  constructor
  · intro hnote
    rcases (hnoted address).mp hnote with hlapsed | ⟨-, hown⟩
    · obtain ⟨inner, hinner, -⟩ :=
        h.later frame (by simp [hframes]) address hlapsed letting htenant
      rw [hinner] at howner
      rw [hinner, hnoted.inmost h hframes hnote hlive howner]
    · rw [← howner, hown]
  · intro hown
    exact (hnoted address).mpr (.inr ⟨hlive, howner.trans hown⟩)

/-- Of the host's blocks it notes those at places where a block of its own
lapsed. -/
theorem Noted.mem_iff_lapsed {frame : Nat} {notes : List Address} {letting : Letting}
    (hnoted : Noted storage ledger frame notes) (htenant : ledger.tenant address = some letting)
    (hhost : letting.subpool = hostSubpool) :
    address ∈ notes ↔ (frame, address) ∈ ledger.lapsed := by
  have howner : ledger.owner? address = none := by
    unfold Ledger.owner?
    rw [htenant]
    exact if_pos hhost
  rw [hnoted address, howner]
  simp

-- ================================================================ theorem

/-- After any history a frame takes along the blocks it owns, and of all
others only blocks of the host's subpool, where a block it owned had been
released by its address. -/
theorem frame_releases_owned (acts : List Act) :
    let storage := Act.afterAll acts {}
    let ledger := Act.recordedAll acts {} {}
    (ledger.frames = [] → storage.closeFrame = storage)
      ∧ ∀ frame outer, ledger.frames = frame :: outer → ∀ address,
        (storage.blocks.get? address = none → storage.closeFrame.blocks.get? address = none)
        ∧ ∀ block, storage.blocks.get? address = some block →
          ∃ letting, ledger.tenant address = some letting ∧ letting.subpool = block.subpool
            ∧ (block.subpool ≠ hostSubpool → storage.closeFrame.blocks.get? address
                = if letting.frame = some frame then none else some block)
            ∧ (block.subpool = hostSubpool → storage.closeFrame.blocks.get? address
                = if (frame, address) ∈ ledger.lapsed then none else some block)
            ∧ ((frame, address) ∈ ledger.lapsed → .release address ∈ acts) := by
  intro storage ledger
  have hobserved : Observed storage ledger := observed_empty.afterAll acts wellFormed_empty
  refine ⟨hobserved.unframed, fun frame outer hframes address => ?_⟩
  obtain ⟨notes, rest, hnoted, -, -, hblocks⟩ := hobserved.framed hframes
  rw [hblocks]
  constructor
  · intro hnone
    rw [hnone, ite_self]
  · intro block hblock
    have hlive : storage.subpoolAt address = some block.subpool := by
      unfold subpoolAt
      rw [hblock]
      rfl
    obtain ⟨letting, htenant, hsubpool⟩ := hobserved.tenanted address _ hlive
    refine ⟨letting, htenant, hsubpool, fun hother => ?_, fun hhost => ?_, fun hlapsed => ?_⟩
    · have hown := hnoted.mem_iff_frame hobserved hframes (by simp [hlive]) htenant
        (by rwa [hsubpool])
      simp only [hown, hblock]
    · have hlapsed := hnoted.mem_iff_lapsed htenant (hsubpool.trans hhost)
      simp only [hlapsed, hblock]
    · exact (Act.released_of_lapsed hlapsed).resolve_left (by simp)

/-- An outer frame is left with a stale note: its second block is released
and the host's block goes there from within the inner frame. Closing the
inner frame leaves both blocks of the outer one and the host's. -/
theorem frame_releases_owned_nested :
    let acts : List Act := [.obtain 0 8, .openFrame, .obtain 0 8, .obtain 3 8, .release 0x10010,
      .openFrame, .obtain hostSubpool 8, .obtain 0 20]
    let storage := Act.afterAll acts {}
    (Act.recordedAll acts {} {}).frames = [1, 0]
      ∧ storage.closeFrame.blocks.keys = [0x10000, 0x10008, 0x10010]
      ∧ storage.closeFrame.blocks.get? 0x10010 = some (.zeros hostSubpool 8)
      ∧ storage.closeFrame.blocks.get? 0x10018 = none := by
  intro acts storage
  have hframes : (Act.recordedAll acts {} {}).frames = [1, 0] := by decide +kernel
  have hhost : storage.blocks.get? 0x10010 = some (.zeros hostSubpool 8) := by decide +kernel
  have hlast : storage.blocks.get? 0x10018 = some (.zeros 0 20) := by decide +kernel
  have hlapsed : (1, 0x10010) ∉ (Act.recordedAll acts {} {}).lapsed := by decide +kernel
  have htenant : (Act.recordedAll acts {} {}).tenant 0x10018 = some ⟨0x10018, 0, some 1⟩ := by
    decide +kernel
  have hclosed := (frame_releases_owned acts).2 1 [0] hframes
  obtain ⟨-, -, -, -, hkept, -⟩ := (hclosed 0x10010).2 _ hhost
  obtain ⟨letting, hletting, -, hgone, -, -⟩ := (hclosed 0x10018).2 _ hlast
  rw [htenant] at hletting
  cases hletting
  refine ⟨hframes, by decide +kernel, ?_, ?_⟩
  · exact (hkept rfl).trans (if_neg hlapsed)
  · exact (hgone (by decide)).trans (if_pos rfl)

/-- A block of the host's subpool goes with a frame that never owned it. -/
theorem frame_releases_host_block :
    let acts : List Act := [.openFrame, .obtain 0 8, .release 0x10000, .obtain hostSubpool 8]
    let storage := Act.afterAll acts {}
    storage.blocks.get? 0x10000 = some (.zeros hostSubpool 8)
      ∧ (Act.recordedAll acts {} {}).tenant 0x10000 = some ⟨0x10000, hostSubpool, some 0⟩
      ∧ storage.subpoolCount hostSubpool = 1
      ∧ storage.closeFrame.blocks.get? 0x10000 = none
      ∧ storage.closeFrame.subpoolCount hostSubpool = 0 := by
  decide +kernel

end TsoBridge.Storage
