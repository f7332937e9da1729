/-
Operations that do not trap. A trap is where a sum would leave its machine
word, and nobody handles it, so of an operation one wants to know that it
ends with a value or an error. `Op.Safe` says so of a run from one state:
it traps at most where `spent` allows, and a value it returns meets the
postcondition together with the state.

# Why sums are safe

An address is added to in two situations. A parameter comes out of a list
and has thirty-one bits, so any displacement within a block leaves it a
fullword. A pointer that was read from storage may be any fullword, but
then it has been used before it is added to, and what was read or written
there ends below the limit of the address space (`Storage.Covers`). What
one may not do is to add to a pointer nobody has looked behind.
-/
import TsoBridge.Proofs.ParmList
import TsoBridge.Proofs.Shape

namespace TsoBridge

-- ============================================================ operations

namespace Op

variable {σ α β : Type} {spent : σ → Prop}

/-- From `s` the operation traps at most in a state that is spent, and the
value it returns meets `post`. -/
def Safe (spent : σ → Prop) (x : Op σ α) (s : σ) (post : α → σ → Prop) : Prop :=
  x.Ends s fun r t => (r = .error .trap → spent t) ∧ ∀ a, r = .ok a → post a t

/-- What is known of a value may be less. -/
theorem Safe.mono {x : Op σ α} {s : σ} {post post' : α → σ → Prop} (h : x.Safe spent s post)
    (hpost : ∀ a t, post a t → post' a t) : x.Safe spent s post' :=
  ⟨h.1, fun a ha => hpost a _ (h.2 a ha)⟩

/-- What allows a trap may be weakened too. -/
theorem Safe.weaken {spent' : σ → Prop} {x : Op σ α} {s : σ} {post : α → σ → Prop}
    (h : x.Safe spent s post) (hspent : ∀ t, spent t → spent' t) : x.Safe spent' s post :=
  ⟨fun htrap => hspent _ (h.1 htrap), h.2⟩

/-- A sequence is safe if its parts are, the second from what is known of
the first. -/
theorem Safe.bind {x : Op σ α} {f : α → Op σ β} {s : σ} {mid : α → σ → Prop}
    {post : β → σ → Prop} (hx : x.Safe spent s mid)
    (hf : ∀ a t, mid a t → (f a).Safe spent t post) : (x >>= f).Safe spent s post := by
  refine Ends.bind hx (fun a t h => hf a t (h.2 a rfl)) fun fault t h => ⟨?_, fun a ha => ?_⟩
  · intro htrap
    cases htrap
    exact h.1 rfl
  · cases ha

/-- Values, failures and looks at the state do not trap. -/
theorem safe_pure {a : α} {s : σ} {post : α → σ → Prop} (h : post a s) :
    (pure a : Op σ α).Safe spent s post := by
  refine ⟨fun htrap => ?_, fun b hb => ?_⟩
  · cases htrap
  · cases hb
    exact h

theorem safe_fail (cause : Error) (s : σ) (post : α → σ → Prop) :
    (fail cause : Op σ α).Safe spent s post := by
  refine ⟨fun htrap => ?_, fun b hb => ?_⟩
  · cases htrap
  · cases hb

/-- A look at the state first. -/
theorem safe_gets_bind {f : σ → α} {g : α → Op σ β} {s : σ} {post : β → σ → Prop}
    (h : (g (f s)).Safe spent s post) : (gets f >>= g).Safe spent s post :=
  h

/-- A look at the state that does not trap. -/
theorem safe_examine_bind {f : σ → Outcome α} {g : α → Op σ β} {s : σ} {post : β → σ → Prop}
    (hsafe : f s ≠ .error .trap) (hok : ∀ a, f s = .ok a → (g a).Safe spent s post) :
    (examine f >>= g).Safe spent s post := by
  have hlook : (examine f).Safe spent s fun a t => f s = .ok a ∧ t = s :=
    ⟨fun htrap => absurd htrap hsafe, fun a ha => ⟨ha, rfl⟩⟩
  refine hlook.bind fun a t ht => ?_
  obtain ⟨ha, rfl⟩ := ht
  exact hok a ha

/-- A computation that does not trap first. -/
theorem safe_lift_bind {result : Outcome α} {g : α → Op σ β} {s : σ} {post : β → σ → Prop}
    (hsafe : result ≠ .error .trap) (hok : ∀ a, result = .ok a → (g a).Safe spent s post) :
    ((liftM result : Op σ α) >>= g).Safe spent s post :=
  safe_examine_bind (f := fun _ => result) hsafe hok

/-- A sum that stays within its word. -/
theorem safe_lift_of_ok {result : Outcome α} {g : α → Op σ β} {s : σ} {a : α}
    {post : β → σ → Prop} (h : result = .ok a) (hg : (g a).Safe spent s post) :
    ((liftM result : Op σ α) >>= g).Safe spent s post :=
  ends_lift_of_ok h hg

/-- A sum that leaves its word. -/
theorem safe_lift_of_trap {result : Outcome α} {g : α → Op σ β} {s : σ} {post : β → σ → Prop}
    (h : result = trap) (hspent : spent s) :
    ((liftM result : Op σ α) >>= g).Safe spent s post := by
  subst h
  refine ⟨fun _ => hspent, fun _ hvalue => ?_⟩
  cases hvalue

end Op

namespace Outcome

variable {α β : Type}

/-- A chain of computations does not trap if none of them does. -/
theorem ofExcept_untrapped (result : Except Error α) : ofExcept result ≠ .error .trap := by
  cases result with
  | ok a => exact nofun
  | error cause => exact nofun

/-- A sequence of computations does not trap if neither part does. -/
theorem bind_untrapped {x : Outcome α} {f : α → Outcome β} (hx : x ≠ .error .trap)
    (hf : ∀ a, x = .ok a → f a ≠ .error .trap) : (x >>= f) ≠ .error .trap := by
  cases x with
  | ok a => exact hf a rfl
  | error fault =>
      intro htrap
      cases htrap
      exact hx rfl

end Outcome

-- ================================================================ fields

namespace Field

/-- A field whose end is an index. -/
theorem check_untrapped (buffer : Bytes) {offset width : Nat}
    (h : offset + width < Word.indexLimit) : check buffer offset width ≠ .error .trap := by
  rw [check_eq, if_pos h]
  split
  · intro htrap
    cases htrap
  · intro htrap
    cases htrap

/-- A field that begins far enough below the limit of indices is read
without a trap. -/
theorem read_untrapped (buffer : Bytes) {offset width : Nat}
    (h : offset + width < Word.indexLimit) : read buffer offset width ≠ .error .trap := by
  refine Outcome.bind_untrapped (check_untrapped buffer h) fun _ _ htrap => ?_
  cases htrap

theorem readHalf_untrapped (buffer : Bytes) {offset : Nat} (h : offset + 2 < Word.indexLimit) :
    readHalf buffer offset ≠ .error .trap := by
  refine Outcome.bind_untrapped (read_untrapped buffer h) fun _ _ htrap => ?_
  cases htrap

theorem readFull_untrapped (buffer : Bytes) {offset : Nat} (h : offset + 4 < Word.indexLimit) :
    readFull buffer offset ≠ .error .trap := by
  refine Outcome.bind_untrapped (read_untrapped buffer h) fun _ _ htrap => ?_
  cases htrap

theorem readSigned_untrapped (buffer : Bytes) {offset : Nat} (h : offset + 4 < Word.indexLimit) :
    readSigned buffer offset ≠ .error .trap := by
  refine Outcome.bind_untrapped (read_untrapped buffer h) fun _ _ htrap => ?_
  cases htrap

/-- Fields below that limit are written without one. -/
theorem writeAll_untrapped {fields : List (Nat × Bytes)} {buffer : Bytes}
    (h : ∀ field ∈ fields, field.1 + field.2.length < Word.indexLimit) :
    writeAll buffer fields ≠ .error .trap := by
  induction fields generalizing buffer with
  | nil =>
      intro htrap
      cases htrap
  | cons field rest ih =>
      refine Outcome.bind_untrapped ?_ fun next _ => ih fun field hfield =>
        h field (List.mem_cons_of_mem _ hfield)
      refine Outcome.bind_untrapped (check_untrapped _ (h _ List.mem_cons_self)) fun _ _ htrap => ?_
      cases htrap

end Field

-- =============================================================== storage

namespace Storage

variable {storage after : Storage} {address : Address}

/-- `width` bytes at an address lie in one block. -/
def Covers (storage : Storage) (address : Address) (width : Nat) : Prop :=
  ∃ entry ∈ storage.shape, entry.1.toNat ≤ address.toNat
    ∧ address.toNat + width ≤ entry.1.toNat + entry.2

/-- What lies in a block ends below the limit. -/
theorem Covers.le {width : Nat} (h : storage.Covers address width) (hwf : storage.WellFormed) :
    address.toNat + width ≤ addressLimit := by
  obtain ⟨entry, hmem, -, hend⟩ := h
  obtain ⟨⟨start, block⟩, hblock, rfl⟩ := List.mem_map.mp hmem
  have hlimit := hwf.block_le hblock
  have hextent := le_extent block.length
  unfold extentOf at hend
  dsimp only at hend
  omega

/-- Storage that still has every block. -/
structure Extends (storage after : Storage) : Prop where
  wellFormed : after.WellFormed
  shape : storage.shape ⊆ after.shape

/-- Storage extends itself. -/
theorem Extends.refl (hwf : storage.WellFormed) : Extends storage storage :=
  ⟨hwf, fun _ h => h⟩

/-- What extends an extension extends the original. -/
theorem Extends.trans {last : Storage} (h : Extends storage after) (h' : Extends after last) :
    Extends storage last :=
  ⟨h'.wellFormed, fun _ hentry => h'.shape (h.shape hentry)⟩

/-- A stretch that was there is still there. -/
theorem Extends.covers {width : Nat} (h : Extends storage after)
    (hcovers : storage.Covers address width) : after.Covers address width := by
  obtain ⟨entry, hmem, hrange⟩ := hcovers
  exact ⟨entry, h.shape hmem, hrange⟩

/-- A place that was located is covered by a block. -/
theorem locate_covers {length offset : Nat} {start : Address} {block : Block}
    (h : storage.locate address length = .ok (start, block, offset)) :
    storage.Covers address length := by
  obtain ⟨hmem, haddress, hfit⟩ := locate_ok h
  refine ⟨(start, block.length), List.mem_map.mpr ⟨_, hmem, rfl⟩, ?_, ?_⟩
  · show start.toNat ≤ address.toNat
    omega
  · show address.toNat + length ≤ start.toNat + block.length
    omega

/-- Finding a place does not trap, unless the length is no index. -/
theorem locate_untrapped (storage : Storage) (address : Address) {length : Nat}
    (hlength : length ≤ Word.runLimit) : storage.locate address length ≠ .error .trap := by
  cases hnearest : storage.nearest address with
  | none =>
      unfold locate
      rw [hnearest]
      intro htrap
      cases htrap
  | some found =>
      rw [locate_eq hlength hnearest]
      split
      · intro htrap
        cases htrap
      · intro htrap
        cases htrap

/-- Whatever the address: a run that a machine can hold is read, or refused.
-/
theorem read_untrapped (storage : Storage) (address : Address) {length : Nat}
    (hlength : length ≤ Word.runLimit) : storage.read address length ≠ .error .trap := by
  refine Outcome.bind_untrapped (locate_untrapped storage address hlength) fun found _ htrap => ?_
  cases htrap

theorem readFull_untrapped (storage : Storage) (address : Address) :
    storage.readFull address ≠ .error .trap := by
  refine Outcome.bind_untrapped (read_untrapped storage address (by decide)) fun _ _ htrap => ?_
  cases htrap

theorem readHalf_untrapped (storage : Storage) (address : Address) :
    storage.readHalf address ≠ .error .trap := by
  refine Outcome.bind_untrapped (read_untrapped storage address (by decide)) fun _ _ htrap => ?_
  cases htrap

/-- The same for a run that is written. -/
theorem write_untrapped (storage : Storage) (address : Address) {data : Bytes}
    (hdata : data.length ≤ Word.runLimit) : storage.write address data ≠ .error .trap := by
  refine Outcome.bind_untrapped (locate_untrapped storage address hdata) fun found _ htrap => ?_
  cases htrap

/-- What was read lies in a block. -/
theorem read_covers {length : Nat} {bytes : Bytes} (h : storage.read address length = .ok bytes) :
    storage.Covers address length := by
  obtain ⟨⟨start, block, offset⟩, hlocate, -⟩ := Outcome.bind_ok h
  exact locate_covers hlocate

/-- A word that was read was there to be read. -/
theorem readFull_covers {word : UInt32} (h : storage.readFull address = .ok word) :
    storage.Covers address 4 := by
  obtain ⟨bytes, hread, -⟩ := Outcome.bind_ok h
  exact read_covers hread

theorem readHalf_covers {half : UInt16} (h : storage.readHalf address = .ok half) :
    storage.Covers address 2 := by
  obtain ⟨bytes, hread, -⟩ := Outcome.bind_ok h
  exact read_covers hread

/-- What was written lies in a block, and every block is still there. -/
theorem write_extends {data : Bytes} (hwf : storage.WellFormed)
    (h : storage.write address data = .ok after) :
    Extends storage after ∧ storage.Covers address data.length := by
  have hshape := (write_shape hwf h).1
  refine ⟨⟨write_wellFormed hwf h, fun entry hentry => by rwa [hshape]⟩, ?_⟩
  obtain ⟨⟨start, block, offset⟩, hlocate, -⟩ := Outcome.bind_ok h
  exact locate_covers hlocate

/-- In well-formed storage a block is obtained, or there is no room for it.
-/
theorem obtain_untrapped {length : Nat} (hwf : storage.WellFormed) (subpool : UInt8)
    (hlength : length ≤ Word.runLimit) : storage.obtain subpool length ≠ .error .trap := by
  intro htrap
  by_cases hzero : length = 0
  · unfold obtain at htrap
    rw [if_pos hzero] at htrap
    cases htrap
  · rw [obtain_eq hwf (Nat.pos_of_ne_zero hzero) hlength] at htrap
    split at htrap
    · cases htrap
    · cases htrap

/-- The same for a block with what it is to hold. -/
theorem obtainWith_untrapped {data : Bytes} (hwf : storage.WellFormed) (subpool : UInt8)
    (hdata : data.length ≤ addressLimit) : storage.obtainWith subpool data ≠ .error .trap := by
  refine Outcome.bind_untrapped (obtain_untrapped hwf subpool (le_runLimit hdata)) fun found _ => ?_
  refine Outcome.bind_untrapped (write_untrapped _ _ (le_runLimit hdata)) fun _ _ htrap => ?_
  cases htrap

/-- A block that was obtained is one more. -/
theorem obtain_extends {length : Nat} {subpool : UInt8} (hwf : storage.WellFormed)
    (h : storage.obtain subpool length = .ok (address, after)) :
    Extends storage after ∧ after.Covers address length := by
  have hwf' := obtain_wellFormed hwf h
  obtain ⟨-, hnew, hothers⟩ := obtain_contents hwf h
  obtain ⟨-, -, -, hblocks⟩ := obtain_ok h
  have hmem : ∀ {base : Address} {block : Block}, after.blocks.get? base = some block →
      (base, block.length) ∈ after.shape := by
    intro base block hget
    exact List.mem_map.mpr ⟨(base, block), Table.mem_of_get? hget, rfl⟩
  refine ⟨⟨hwf', fun entry hentry => ?_⟩, (address, length), ?_, Nat.le_refl _, Nat.le_refl _⟩
  · obtain ⟨⟨base, block⟩, hblock, rfl⟩ := List.mem_map.mp hentry
    have hget : storage.blocks.get? base = some block := Table.get?_of_mem hwf.distinct hblock
    have hne : base ≠ address := by
      rintro rfl
      unfold contents at hnew
      rw [hget] at hnew
      cases hnew
    apply hmem
    rw [hblocks, Table.get?_insert_ne _ _ hne]
    exact hget
  · have hget : after.blocks.get? address = some (.zeros subpool length) := by
      rw [hblocks]
      exact Table.get?_insert_self _ _ _
    have hlength := hmem hget
    rwa [Block.length_zeros] at hlength

end Storage

-- ======================================================= parameter lists

namespace ParmList

variable {storage : Storage} {r1 : Address}

/-- An address without its mark lies within the address space. -/
theorem address_le (word : UInt32) : (address word).toNat ≤ Storage.addressLimit := by
  rw [address_toNat]
  unfold Storage.addressLimit
  omega

/-- Following a list never forms an address that is none: each word lies
behind one that was read. -/
theorem follow_untrapped {index : Nat} (hwf : storage.WellFormed)
    (hfirst : r1.toNat + 4 * index < UInt32.size) (fuel : Nat) :
    follow storage r1 index fuel ≠ .error .trap := by
  induction fuel generalizing index with
  | zero =>
      intro htrap
      cases htrap
  | succ fuel ih =>
      have hat : r1.plus (4 * index) = .ok (r1.shift (4 * index)) := Address.plus_eq hfirst
      unfold follow
      rw [hat]
      show (storage.readFull (r1.shift (4 * index)) >>= _) ≠ _
      refine Outcome.bind_untrapped (Storage.readFull_untrapped storage _) fun word hword => ?_
      split
      · intro htrap
        cases htrap
      · have hle := (Storage.readFull_covers hword).le hwf
        rw [Address.toNat_shift hfirst] at hle
        unfold Storage.addressLimit at hle
        refine Outcome.bind_untrapped (ih ?_) fun rest _ htrap => ?_
        · show r1.toNat + 4 * (index + 1) < 4294967296
          omega
        · cases htrap

/-- Reading a parameter list ends, whatever register 1 points to. -/
theorem decode_untrapped (hwf : storage.WellFormed) (r1 : Address) :
    decode storage r1 ≠ .error .trap :=
  follow_untrapped hwf (by rw [Nat.mul_zero, Nat.add_zero]; exact r1.toNat_lt) maxParms

/-- The addresses in a list have thirty-one bits. -/
theorem follow_le {index fuel : Nat} {words : List Address}
    (h : follow storage r1 index fuel = .ok words) :
    ∀ word ∈ words, word.toNat ≤ Storage.addressLimit := by
  induction fuel generalizing index words with
  | zero => cases h
  | succ fuel ih =>
      unfold follow at h
      obtain ⟨place, -, h⟩ := Outcome.bind_ok h
      obtain ⟨found, -, h⟩ := Outcome.bind_ok h
      split at h
      · cases h
        intro word hword
        rw [List.mem_singleton.mp hword]
        exact address_le found
      · obtain ⟨rest, hrest, h⟩ := Outcome.bind_ok h
        cases h
        intro word hword
        rcases List.mem_cons.mp hword with rfl | hlater
        · exact address_le found
        · exact ih hrest word hlater

/-- A parameter list is encoded, or refused. -/
theorem encode_untrapped (parms : ParmList) : parms.encode ≠ .error .trap := by
  rw [encode_eq]
  split
  · intro htrap
    cases htrap
  · intro htrap
    cases htrap

/-- So it can be placed, if it is not too long. -/
theorem place_untrapped {parms : ParmList} (hwf : storage.WellFormed)
    (hcount : parms.leading.length < maxParms) : parms.place storage ≠ .error .trap := by
  refine Outcome.bind_untrapped (encode_untrapped parms) fun bytes hbytes => ?_
  refine Storage.obtainWith_untrapped hwf _ ?_
  unfold maxParms at hcount
  unfold Storage.addressLimit
  rw [(encode_ok hbytes).2.2, length_words]
  omega

/-- The same for a list of a known length. -/
theorem decodeExact_untrapped (hwf : storage.WellFormed) (r1 : Address) (expected : Nat) :
    decodeExact storage r1 expected ≠ .error .trap := by
  refine Outcome.bind_untrapped (decode_untrapped hwf r1) fun found _ => ?_
  split
  · intro htrap
    cases htrap
  · intro htrap
    cases htrap

/-- A list of the right length. -/
theorem decodeExact_decode {expected : Nat} {p : Vector Address expected}
    (h : decodeExact storage r1 expected = .ok p) :
    decode storage r1 = .ok p.toList ∧ ∀ word ∈ p.toList, word.toNat ≤ Storage.addressLimit := by
  obtain ⟨found, hfound, h⟩ := Outcome.bind_ok h
  split at h
  · cases h
    have hlist : (⟨found.toArray, by simpa⟩ : Vector Address expected).toList = found := by simp
    rw [hlist]
    exact ⟨hfound, follow_le hfound⟩
  · cases h

end ParmList
end TsoBridge
