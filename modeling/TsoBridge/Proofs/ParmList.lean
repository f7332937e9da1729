/-
Parameter lists survive storage: what a caller places and register 1
points to is what the callee's look at the list gives back, word by word.
Only the high-order bit stands between the two, so this file first says
what the bit is as a number.
-/
import Mathlib.Data.Nat.Bitwise
import TsoBridge.ParmList
import TsoBridge.Proofs.Storage

namespace TsoBridge.ParmList

-- ========================================================= the end bit

/-- The bit is on from the middle of the range of a word on. -/
theorem marked_iff (word : UInt32) : marked word = true ↔ 0x80000000 ≤ word.toNat := by
  have hlt := word.toNat_lt
  have hand : (word &&& endBit).toNat = (word.toNat.testBit 31).toNat * 0x80000000 := by
    rw [UInt32.toNat_and]
    exact Nat.and_two_pow word.toNat 31
  have hbit : word.toNat.testBit 31 = decide (0x80000000 ≤ word.toNat) := by
    rw [Nat.testBit_eq_decide_div_mod_eq]
    apply decide_eq_decide.mpr
    show word.toNat / 0x80000000 % 2 = 1 ↔ _
    omega
  unfold marked
  rw [bne_iff_ne, ne_eq, ← UInt32.toNat_inj, hand, hbit]
  by_cases h : 0x80000000 ≤ word.toNat <;> simp [h]

theorem toNat_lt_of_unmarked {word : UInt32} (h : marked word = false) :
    word.toNat < 0x80000000 := by
  have := marked_iff word
  rw [h] at this
  simpa using this

theorem unmarked_of_le {word : UInt32} (h : word.toNat ≤ Storage.addressLimit) :
    marked word = false := by
  have := marked_iff word
  unfold Storage.addressLimit at h
  rw [← Bool.not_eq_true, this]
  omega

theorem address_toNat (word : UInt32) : (address word).toNat = word.toNat % 0x80000000 := by
  unfold address
  rw [UInt32.toNat_and]
  exact Nat.and_two_pow_sub_one_eq_mod word.toNat 31

theorem address_of_unmarked {word : UInt32} (h : marked word = false) :
    address word = word := by
  apply UInt32.toNat_inj.mp
  rw [address_toNat]
  have := toNat_lt_of_unmarked h
  omega

theorem toNat_or_endBit {word : UInt32} (h : marked word = false) :
    (word ||| endBit).toNat = word.toNat + 0x80000000 := by
  have hor : 0x80000000 + word.toNat = 0x80000000 ||| word.toNat :=
    Nat.two_pow_add_eq_or_of_lt (i := 31) (toNat_lt_of_unmarked h) 1
  rw [UInt32.toNat_or, Nat.or_comm, Nat.add_comm, hor]
  rfl

theorem marked_or_endBit {word : UInt32} (h : marked word = false) :
    marked (word ||| endBit) = true := by
  rw [marked_iff, toNat_or_endBit h]
  omega

theorem address_or_endBit {word : UInt32} (h : marked word = false) :
    address (word ||| endBit) = word := by
  apply UInt32.toNat_inj.mp
  rw [address_toNat, toNat_or_endBit h]
  have := toNat_lt_of_unmarked h
  omega

-- ======================================================== the encoding

/-- The words of a list, as the caller places them. -/
def words (leading : List Address) (last : Address) : Bytes :=
  leading.flatMap Word.ofFull ++ Word.ofFull (last ||| endBit)

theorem encodeLeading_eq (leading : List Address) :
    encodeLeading leading = match leading.find? marked with
      | some wide => fail (.invalidParmList (.wide wide))
      | none => .ok (leading.flatMap Word.ofFull) := by
  induction leading with
  | nil => rfl
  | cons first rest ih =>
      unfold encodeLeading
      cases hfirst : marked first with
      | true =>
          rw [List.find?_cons_of_pos hfirst]
          rfl
      | false =>
          rw [List.find?_cons_of_neg (by simp [hfirst]), ih]
          cases rest.find? marked with
          | some wide => rfl
          | none => rfl

/-- The first wide address of a list is refused. A list without any is
encoded. -/
theorem encode_eq (parms : ParmList) :
    parms.encode = match (parms.leading ++ [parms.last]).find? marked with
      | some wide => fail (.invalidParmList (.wide wide))
      | none => .ok (words parms.leading parms.last) := by
  unfold encode
  rw [encodeLeading_eq, List.find?_append]
  cases parms.leading.find? marked with
  | some wide => rfl
  | none =>
      cases hlast : marked parms.last with
      | true =>
          rw [List.find?_cons_of_pos hlast]
          rfl
      | false =>
          rw [List.find?_cons_of_neg (by simp [hlast])]
          rfl

/-- A list that was encoded has no wide address. -/
theorem encode_ok {parms : ParmList} {bytes : Bytes} (h : parms.encode = .ok bytes) :
    (∀ address ∈ parms.leading, marked address = false) ∧ marked parms.last = false
      ∧ bytes = words parms.leading parms.last := by
  rw [encode_eq] at h
  cases hfind : (parms.leading ++ [parms.last]).find? marked with
  | some wide =>
      rw [hfind] at h
      cases h
  | none =>
      rw [hfind] at h
      cases h
      have hnone : ∀ address ∈ parms.leading ++ [parms.last], marked address = false := by
        simpa using List.find?_eq_none.mp hfind
      exact ⟨fun address haddress => hnone address (List.mem_append_left _ haddress),
        hnone _ (List.mem_append_right _ List.mem_cons_self), rfl⟩

/-- A list without a wide address is encoded. -/
theorem encode_unmarked {parms : ParmList}
    (h : ∀ address ∈ parms.leading, marked address = false) (hlast : marked parms.last = false) :
    parms.encode = .ok (words parms.leading parms.last) := by
  have hnone : (parms.leading ++ [parms.last]).find? marked = none := by
    rw [List.find?_append, List.find?_eq_none.mpr (by simpa using h),
      List.find?_cons_of_neg (by simp [hlast])]
    rfl
  rw [encode_eq, hnone]

/-- A list whose first address is wide is refused. -/
theorem encode_wide {first last : Address} {rest : List Address} (h : marked first = true) :
    encode { leading := first :: rest, last } = fail (.invalidParmList (.wide first)) := by
  rw [encode_eq, List.cons_append, List.find?_cons_of_pos h]

theorem length_words (leading : List Address) (last : Address) :
    (words leading last).length = 4 * leading.length + 4 := by
  have hleading : (leading.flatMap Word.ofFull).length = 4 * leading.length := by
    induction leading with
    | nil => rfl
    | cons first rest ih =>
        rw [List.flatMap_cons, List.length_append, Word.length_ofFull, ih, List.length_cons]
        omega
  unfold words
  rw [List.length_append, Word.length_ofFull, hleading]

-- ======================================================== the decoding

/-- The middle of three runs of bytes. -/
theorem slice_middle (before middle after : Bytes) :
    Field.slice (before ++ middle ++ after) before.length middle.length = middle := by
  unfold Field.slice
  rw [List.append_assoc, List.drop_left, List.take_left]

/-- A word inside a block is read as the word. -/
theorem readFull_middle {storage : Storage} (hwf : storage.WellFormed) {base : Address}
    {before after : Bytes} {word : UInt32}
    (h : storage.contents base = some (before ++ Word.ofFull word ++ after)) :
    storage.readFull (base.shift before.length) = .ok word := by
  have hread : storage.read (base.shift before.length) 4
      = .ok (Field.slice (before ++ Word.ofFull word ++ after) before.length 4) :=
    Storage.read_contents hwf h (by simp only [List.length_append, Word.length_ofFull]; omega)
  have hslice := slice_middle before (Word.ofFull word) after
  rw [Word.length_ofFull] at hslice
  unfold Storage.readFull
  rw [hread, hslice]
  show Except.ok (Word.toFull (Word.ofFull word)) = _
  rw [Word.toFull_ofFull]

/-- Following a list from any of its words on. It is followed to its end if
there is fuel for all of them. -/
theorem follow_words {storage : Storage} (hwf : storage.WellFormed) {r1 last : Address}
    (hlast : marked last = false) {rest : List Address}
    (hrest : ∀ address ∈ rest, marked address = false) {before : Bytes} {index : Nat}
    (hbefore : before.length = 4 * index) (fuel : Nat)
    (h : storage.contents r1 = some (before ++ words rest last)) :
    follow storage r1 index fuel
      = if rest.length < fuel then .ok (rest ++ [last])
        else fail (.invalidParmList (.unterminated maxParms)) := by
  induction fuel generalizing rest before index with
  | zero =>
      rw [if_neg (Nat.not_lt_zero _)]
      rfl
  | succ fuel ih =>
      have hplus : r1.plus (4 * index) = .ok (r1.shift (4 * index)) :=
        Address.plus_eq (hwf.contents_lt h (by simp [hbefore]))
      cases rest with
      | nil =>
          have hcontents : storage.contents r1
              = some (before ++ Word.ofFull (last ||| endBit) ++ []) := by
            rw [h]
            simp [words]
          have hread := readFull_middle hwf hcontents
          rw [hbefore] at hread
          unfold follow
          rw [hplus]
          show (storage.readFull (r1.shift (4 * index)) >>= _) = _
          rw [hread]
          show (if marked (last ||| endBit) = true then _ else _) = _
          rw [if_pos (marked_or_endBit hlast), address_or_endBit hlast, if_pos (by simp)]
          rfl
      | cons first rest =>
          have hfirst := hrest first List.mem_cons_self
          have hcontents : storage.contents r1
              = some (before ++ Word.ofFull first ++ words rest last) := by
            rw [h]
            simp [words]
          have hread := readFull_middle hwf hcontents
          rw [hbefore] at hread
          have hlength : (before ++ Word.ofFull first).length = 4 * (index + 1) := by
            simp [hbefore]
            omega
          have htail := ih (fun address haddress => hrest address (List.mem_cons_of_mem _ haddress))
            hlength hcontents
          unfold follow
          rw [hplus]
          show (storage.readFull (r1.shift (4 * index)) >>= _) = _
          rw [hread]
          show (if marked first = true then _ else _) = _
          rw [if_neg (by simp [hfirst]), htail, address_of_unmarked hfirst]
          by_cases hroom : rest.length < fuel
          · rw [if_pos hroom, if_pos (by simpa using hroom)]
            rfl
          · rw [if_neg hroom, if_neg (by simpa using hroom)]
            rfl

/-- The callee finds the addresses that were placed, unless they are more
than it looks at. -/
theorem decode_words {storage : Storage} (hwf : storage.WellFormed) {r1 last : Address}
    {leading : List Address} (hleading : ∀ address ∈ leading, marked address = false)
    (hlast : marked last = false) (h : storage.contents r1 = some (words leading last)) :
    decode storage r1
      = if leading.length < maxParms then .ok (leading ++ [last])
        else fail (.invalidParmList (.unterminated maxParms)) := by
  have hnone : ([] : Bytes).length = 4 * 0 := rfl
  exact follow_words hwf hlast hleading hnone maxParms h

theorem decodeExact_ok {storage : Storage} {r1 : Address} {expected : Nat}
    {parms : Vector Address expected} (h : decodeExact storage r1 expected = .ok parms) :
    decode storage r1 = .ok parms.toList := by
  unfold decodeExact at h
  obtain ⟨found, hfound, h⟩ := Outcome.bind_ok h
  split at h
  · cases h
    exact hfound
  · cases h

end TsoBridge.ParmList
