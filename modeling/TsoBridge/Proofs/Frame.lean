/-
What a frame protects. While a frame is open, whoever was handed an address
writes there, and what lies in the blocks of the frame goes with it. So as
long as every write begins inside a block that was obtained in the
innermost frame (`Lent`), closing the frame gives back the storage it was
opened in, byte for byte: the writes of the engine and of the services it
calls leave nothing behind.

`Opened start spots` is storage with a frame open that closes to `start`,
together with the stretches somebody may write to. Obtaining adds a
stretch, writing keeps them all, and nothing is asked of what is written.

# Running inside a frame

`Op.Guarded` is the reading of an operation that goes with it: however it
ends, the state meets an invariant, it traps only where it may, and a value
it returns meets the postcondition.
-/
import TsoBridge.Proofs.Handover
import TsoBridge.Proofs.Safety

namespace TsoBridge

-- ============================================================== operations

namespace Op

variable {σ τ α β : Type} {inv spent : σ → Prop} {s : σ}

/-- From `s` the operation ends in a state that meets `inv`, it traps at
most in one that is spent, and the value it returns meets `post`. -/
def Guarded (inv spent : σ → Prop) (x : Op σ α) (s : σ) (post : α → σ → Prop) : Prop :=
  x.Ends s fun r t => inv t ∧ (r = .error .trap → spent t) ∧ ∀ a, r = .ok a → post a t

/-- Less may be guarded, and less known of the value. -/
theorem Guarded.mono {x : Op σ α} {inv' : σ → Prop} {post post' : α → σ → Prop}
    (h : x.Guarded inv spent s post) (hinv : ∀ t, inv t → inv' t)
    (hpost : ∀ a t, post a t → post' a t) : x.Guarded inv' spent s post' :=
  ⟨hinv _ h.1, h.2.1, fun a ha => hpost a _ (h.2.2 a ha)⟩

/-- What allows a trap may be weakened too. -/
theorem Guarded.weaken {x : Op σ α} {spent' : σ → Prop} {post : α → σ → Prop}
    (h : x.Guarded inv spent s post) (hspent : ∀ t, spent t → spent' t) :
    x.Guarded inv spent' s post :=
  ⟨h.1, fun htrap => hspent _ (h.2.1 htrap), h.2.2⟩

/-- A sequence is guarded if its parts are. -/
theorem Guarded.bind {x : Op σ α} {f : α → Op σ β} {mid : α → σ → Prop} {post : β → σ → Prop}
    (hx : x.Guarded inv spent s mid)
    (hf : ∀ a t, inv t → mid a t → (f a).Guarded inv spent t post) :
    (x >>= f).Guarded inv spent s post := by
  refine Ends.bind hx (fun a t h => hf a t h.1 (h.2.2 a rfl)) fun fault t h =>
    ⟨h.1, fun htrap => ?_, fun a ha => ?_⟩
  · cases htrap
    exact h.2.1 rfl
  · cases ha

/-- Values, failures and computations leave the state alone. -/
theorem guarded_pure {a : α} {post : α → σ → Prop} (hinv : inv s) (h : post a s) :
    (pure a : Op σ α).Guarded inv spent s post := by
  refine ⟨hinv, fun htrap => ?_, fun b hb => ?_⟩
  · cases htrap
  · cases hb
    exact h

theorem guarded_fail (cause : Error) (hinv : inv s) (post : α → σ → Prop) :
    (fail cause : Op σ α).Guarded inv spent s post := by
  refine ⟨hinv, fun htrap => ?_, fun b hb => ?_⟩
  · cases htrap
  · cases hb

/-- A look at the state that does not trap. -/
theorem guarded_examine {f : σ → Outcome α} (hinv : inv s) (hsafe : f s ≠ .error .trap) :
    (examine f).Guarded inv spent s fun a t => f s = .ok a ∧ t = s :=
  ⟨hinv, fun htrap => absurd htrap hsafe, fun _ ha => ⟨ha, rfl⟩⟩

/-- A computation that does not trap, with its value. -/
theorem guarded_lift {result : Outcome α} (hinv : inv s) (hsafe : result ≠ .error .trap) :
    (liftM result : Op σ α).Guarded inv spent s fun a t => result = .ok a ∧ t = s :=
  guarded_examine (f := fun _ => result) hinv hsafe

theorem guarded_lift_except {result : Except Error α} (hinv : inv s) :
    (liftM result : Op σ α).Guarded inv spent s fun a t => result = .ok a ∧ t = s := by
  have hlift : (liftM result : Op σ α).Guarded inv spent s fun a t =>
      Outcome.ofExcept result = .ok a ∧ t = s :=
    guarded_lift hinv (Outcome.ofExcept_untrapped result)
  refine hlift.mono (fun _ h => h) fun a t h => ⟨?_, h.2⟩
  cases result with
  | ok b =>
      cases h.1
      rfl
  | error cause => cases h.1

/-- An operation on a part. -/
theorem Guarded.on {part : σ → τ} {put : σ → τ → σ} {x : Op τ α} {inv' spent' : τ → Prop}
    {post : α → τ → Prop} {post' : α → σ → Prop} (h : x.Guarded inv' spent' (part s) post)
    (hinv : ∀ t, inv' t → inv (put s t)) (hspent : ∀ t, spent' t → spent (put s t))
    (hpost : ∀ a t, post a t → post' a (put s t)) :
    (x.on part put).Guarded inv spent s post' :=
  Ends.on h fun _ t ht =>
    ⟨hinv t ht.1, fun htrap => hspent t (ht.2.1 htrap), fun a ha => hpost a t (ht.2.2 a ha)⟩

end Op

-- ================================================================= storage

namespace Storage

variable {start storage after : Storage} {address target : Address} {width length : Nat}
  {data : Bytes} {spots : List (Address × Nat)}

/-- `width` bytes at an address lie in a block of the innermost frame. -/
def Lent (storage : Storage) (address : Address) (width : Nat) : Prop :=
  ∃ frame outer, storage.frames = frame :: outer ∧ ∃ entry ∈ storage.shape, entry.1 ∈ frame
    ∧ entry.1.toNat ≤ address.toNat ∧ address.toNat + width ≤ entry.1.toNat + entry.2

/-- More blocks and more notes take nothing away. -/
theorem Lent.mono {outer : List (List Address)} {frame frame' : List Address}
    (h : storage.Lent address width) (hframes : storage.frames = frame :: outer)
    (hframes' : after.frames = frame' :: outer) (hframe : frame ⊆ frame')
    (hshape : storage.shape ⊆ after.shape) : after.Lent address width := by
  obtain ⟨notes, rest, hnotes, entry, hentry, hnoted, hrange⟩ := h
  rw [hframes] at hnotes
  cases hnotes
  exact ⟨frame', outer, hframes', entry, hshape hentry, hframe hnoted, hrange⟩

/-- A part of the stretch. -/
theorem Lent.part {width' : Nat} (h : storage.Lent address width)
    (hlow : address.toNat ≤ target.toNat) (hhigh : target.toNat + width' ≤ address.toNat + width) :
    storage.Lent target width' := by
  obtain ⟨frame, outer, hframes, entry, hentry, hnoted, hstart, hend⟩ := h
  exact ⟨frame, outer, hframes, entry, hentry, hnoted, by omega, by omega⟩

/-- What a frame lends is covered. -/
theorem Lent.covers (h : storage.Lent address width) : storage.Covers address width := by
  obtain ⟨-, -, -, entry, hentry, -, hrange⟩ := h
  exact ⟨entry, hentry, hrange⟩

/-- A write that begins in a block of the innermost frame is forgotten when
the frame is closed. -/
theorem Lent.write (h : storage.Lent address width) (hwf : storage.WellFormed)
    (hlow : address.toNat ≤ target.toNat) (hhigh : target.toNat < address.toNat + width)
    (hwrite : storage.write target data = .ok after) : after.closeFrame = storage.closeFrame := by
  obtain ⟨frame, outer, hframes, entry, hentry, hnoted, hstart, hend⟩ := h
  obtain ⟨⟨base, block⟩, hblock, rfl⟩ := List.mem_map.mp hentry
  obtain ⟨⟨found, held, offset⟩, hlocate, hwritten⟩ := Outcome.bind_ok hwrite
  cases hwritten
  have hextent := le_extent block.length
  unfold extentOf at hstart hend hnoted
  dsimp only at hstart hend hnoted
  have hnearest : storage.nearest target = some (base, block) :=
    nearest_within hwf hblock (by omega) (by omega)
  have hbase : found = base := by
    unfold locate at hlocate
    rw [hnearest] at hlocate
    obtain ⟨stop, -, hlocate⟩ := Outcome.bind_ok hlocate
    split at hlocate
    · cases hlocate
      rfl
    · cases hlocate
  subst hbase
  unfold closeFrame
  rw [hframes]
  exact congrArg (fun blocks => Storage.mk blocks outer)
    (Table.foldl_erase_insert hnoted storage.blocks _)

/-- Storage with an open frame that closes to `start`, and the stretches in
it that may be written to. -/
structure Opened (start : Storage) (spots : List (Address × Nat)) (storage : Storage) : Prop where
  wellFormed : storage.WellFormed
  frames : storage.frames ≠ []
  closes : storage.closeFrame = start
  lent : ∀ spot ∈ spots, storage.Lent spot.1 spot.2

/-- Opening a frame lends nothing yet. -/
theorem opened_openFrame (hwf : storage.WellFormed) : Opened storage [] storage.openFrame :=
  ⟨openFrame_wellFormed hwf, List.cons_ne_nil _ _, rfl, fun _ h => absurd h List.not_mem_nil⟩

/-- Fewer stretches may be looked at. -/
theorem Opened.drop {fewer : List (Address × Nat)} (h : Opened start spots storage)
    (hfewer : ∀ spot ∈ fewer, storage.Lent spot.1 spot.2) : Opened start fewer storage :=
  ⟨h.wellFormed, h.frames, h.closes, hfewer⟩

/-- A frame may be taken for less than it lends. -/
theorem Opened.bare (h : Opened start spots storage) : Opened start [] storage :=
  h.drop fun _ hspot => absurd hspot List.not_mem_nil

/-- A block that is obtained may be written to. -/
theorem Opened.obtain (h : Opened start spots storage)
    (hobtain : storage.obtain engineSubpool length = .ok (address, after)) :
    Opened start ((address, length) :: spots) after := by
  obtain ⟨frame, outer, hframes⟩ := List.exists_cons_of_ne_nil h.frames
  obtain ⟨hgrown, hcovers⟩ := obtain_extends h.wellFormed hobtain
  obtain ⟨hnoted, hcloses⟩ := obtain_noted h.wellFormed hframes hobtain
  refine ⟨hgrown.wellFormed, by simp [hnoted], hcloses.trans h.closes, fun spot hspot => ?_⟩
  rcases List.mem_cons.mp hspot with rfl | hold
  · refine ⟨_, _, hnoted, (address, length), ?_, List.mem_cons_self, Nat.le_refl _, Nat.le_refl _⟩
    have hget : after.blocks.get? address = some (.zeros engineSubpool length) := by
      rw [(obtain_ok hobtain).2.2.2]
      exact Table.get?_insert_self _ _ _
    have hentry : (address, (Block.zeros engineSubpool length).length) ∈ after.shape :=
      List.mem_map.mpr ⟨_, Table.mem_of_get? hget, rfl⟩
    rwa [Block.length_zeros] at hentry
  · exact (h.lent spot hold).mono hframes hnoted (List.subset_cons_self _ _) hgrown.shape

/-- A write that begins in one of the stretches. -/
theorem Opened.write (h : Opened start spots storage) (hspot : (address, width) ∈ spots)
    (hlow : address.toNat ≤ target.toNat) (hhigh : target.toNat < address.toNat + width)
    (hwrite : storage.write target data = .ok after) : Opened start spots after := by
  obtain ⟨frame, outer, hframes⟩ := List.exists_cons_of_ne_nil h.frames
  obtain ⟨hshape, hsame⟩ := write_shape h.wellFormed hwrite
  have hframes' : after.frames = frame :: outer := hsame.trans hframes
  have hcloses := (h.lent _ hspot).write h.wellFormed hlow hhigh hwrite
  refine ⟨write_wellFormed h.wellFormed hwrite, by simp [hframes'], hcloses.trans h.closes,
    fun spot hspot => ?_⟩
  refine (h.lent spot hspot).mono hframes hframes' (List.Subset.refl _) fun entry hentry => ?_
  rwa [hshape]

/-- A block obtained and filled is lent too. -/
theorem Opened.obtainWith (h : Opened start spots storage)
    (hobtain : storage.obtainWith engineSubpool data = .ok (address, after)) :
    Opened start ((address, data.length) :: spots) after := by
  obtain ⟨⟨base, larger⟩, hlarger, hwritten⟩ := Outcome.bind_ok hobtain
  obtain ⟨written, hwrite, hwritten⟩ := Outcome.bind_ok hwritten
  cases hwritten
  have hpos := (obtain_ok hlarger).1
  exact (h.obtain hlarger).write List.mem_cons_self (Nat.le_refl _) (by omega) hwrite

/-- A parameter list is placed beside the blocks it points to. -/
theorem Opened.place {parms : ParmList} (h : Opened start spots storage)
    (hplace : parms.place storage = .ok (address, after)) : Opened start spots after := by
  obtain ⟨words, -, hplace⟩ := Outcome.bind_ok hplace
  have hopened := h.obtainWith hplace
  exact hopened.drop fun spot hspot => hopened.lent spot (List.mem_cons_of_mem _ hspot)

/-- A stretch within one of the stretches. -/
theorem Opened.spot {width' : Nat} (h : Opened start spots storage)
    (hspot : (address, width) ∈ spots) (hlow : address.toNat ≤ target.toNat)
    (hhigh : target.toNat + width' ≤ address.toNat + width) :
    Opened start ((target, width') :: spots) storage := by
  refine h.drop fun spot hmem => ?_
  rcases List.mem_cons.mp hmem with rfl | hold
  · exact (h.lent _ hspot).part hlow hhigh
  · exact h.lent spot hold

end Storage
end TsoBridge
