/-
The DD table of the simulated host: how an allocation and its opposite
change it, and which names it makes up.

# Searching

Two searches of the table are shorter than they look. Names ascend, so a
name that is not in use is missed at the first name behind it
(`enterNew_eq`); and a name that was tried in vain is made by no other
number, so striking it off changes nothing (`generateFrom_succ`). Nothing
after these two looks at how the table searches.

# Names that are made up

The table tries one number after the other until a name is free. A name
made of six digits or more is too long to have been asked for, and one made
of a number not yet passed has not been made up, so no number beyond five
digits is tried in vain (`contains_systemName`). Numbers make different
names, and of one name more than there are DDs not all are taken
(`free_systemName`); so the search ends, and it ends with a number to spare
unless the next number was the last (`generate_ok`).
-/
import Mathlib.Data.Finset.Card
import Mathlib.Data.Nat.Digits.Lemmas
import TsoBridge.Proofs.AllocationCall
import TsoBridge.Sim.DdTable

namespace TsoBridge

-- =============================================================== numerals

namespace Text

/-- The digits of a number still read as the number behind leading zeros. -/
theorem ofDigitChars_padLeft (width n : Nat) :
    Nat.ofDigitChars 10 (padLeft width '0' (Nat.toDigits 10 n)) 0 = n := by
  unfold padLeft
  rw [Nat.ofDigitChars_append]
  have hzeros : ∀ count, Nat.ofDigitChars 10 (List.replicate count '0') 0 = 0 := by
    intro count
    induction count with
    | zero => rfl
    | succ count ih =>
        rw [List.replicate_succ, Nat.ofDigitChars_cons]
        exact ih
  rw [hzeros, Nat.ofDigitChars_toDigits (by decide) (by decide)]

/-- Different numbers are written differently. -/
theorem decimalOf_inj {width n n' : Nat} (h : decimalOf width n = decimalOf width n') : n = n' := by
  have hlist := congrArg String.toList h
  unfold decimalOf at hlist
  rw [String.toList_ofList, String.toList_ofList] at hlist
  rw [← ofDigitChars_padLeft width n, hlist, ofDigitChars_padLeft]

/-- A number has as many digits as it needs, or as many as are wanted. -/
theorem length_decimalOf_le_iff {width n : Nat} (hpos : 0 < width) :
    (decimalOf width n).toList.length ≤ width ↔ n < 10 ^ width := by
  rw [← Nat.length_toDigits_le_iff (by decide : 1 < 10) hpos]
  unfold decimalOf padLeft
  rw [String.toList_ofList, List.length_append, List.length_replicate]
  omega

/-- A number is written in digits only. -/
theorem isDigit_decimalOf {width n : Nat} {c : Char} (h : c ∈ (decimalOf width n).toList) :
    c.isDigit = true := by
  unfold decimalOf padLeft at h
  rw [String.toList_ofList] at h
  rcases List.mem_append.mp h with hzero | hdigit
  · rw [List.eq_of_mem_replicate hzero]
    decide
  · exact Nat.isDigit_of_mem_toDigits (by decide) (by decide) hdigit

end Text

namespace Sim

-- ================================================================ numbers

/-- A number has a successor, or there is none left. -/
theorem successor_cases (number : UInt32) :
    (∃ next, Word.successor number = .ok next) ∨ Word.successor number = trap := by
  unfold Word.successor
  split
  · exact .inl ⟨_, rfl⟩
  · exact .inr rfl

/-- The successor of a number is one more. -/
theorem successor_ok {number next : UInt32} (h : Word.successor number = .ok next) :
    next.toNat = number.toNat + 1 := by
  unfold Word.successor at h
  split at h
  · next hlt =>
    cases h
    rw [UInt32.toNat_add]
    exact Nat.mod_eq_of_lt hlt
  · cases h

/-- Only the last number has no successor. -/
theorem successor_trap {number : UInt32} (h : Word.successor number = trap) :
    number.toNat + 1 = UInt32.size := by
  unfold Word.successor at h
  split at h
  · cases h
  · have := number.toNat_lt_size
    omega

-- ============================================================ the table

namespace DdTable

variable {table after : DdTable} {ddname other : String}

/-- The table without a DD. -/
def without (table : DdTable) (ddname : String) : DdTable :=
  table.erase (Text.upper ddname)

/-- Without a DD that is not there the table is what it is. -/
theorem without_absent (h : table.lookup ddname = none) : table.without ddname = table :=
  DdTable.ext (Table.erase_absent h) rfl

/-- One table is the other with a new DD. -/
structure Entered (ddname : String) (table after : DdTable) : Prop where
  flawless : Name.ddnameFlaw? ddname = none
  new : table.lookup ddname = none
  entered : ∃ entry, entry.ddname = Text.upper ddname ∧ after = table.enter entry

/-- The new DD is found under its name. -/
theorem Entered.lookup_self (h : Entered ddname table after) :
    (after.lookup ddname).isSome = true := by
  obtain ⟨entry, hname, rfl⟩ := h.entered
  unfold lookup enter
  rw [← hname, Table.get?_insert_self]
  rfl

/-- Every other DD is there as before. -/
theorem Entered.lookup_ne (h : Entered ddname table after)
    (hne : Text.upper other ≠ Text.upper ddname) : after.lookup other = table.lookup other := by
  obtain ⟨entry, hname, rfl⟩ := h.entered
  unfold lookup enter
  exact Table.get?_insert_ne _ _ (by rw [hname]; exact hne)

/-- Freeing the new DD gives back the table. -/
theorem Entered.undone (h : Entered ddname table after) : after.without ddname = table := by
  obtain ⟨entry, hname, rfl⟩ := h.entered
  have hnew := h.new
  unfold lookup at hnew
  refine DdTable.ext ?_ rfl
  unfold without erase enter
  rw [← hname] at hnew ⊢
  exact Table.erase_insert _ hnew

/-- A table has the names it had, and the name of the DD entered. -/
theorem contains_enter (table : DdTable) (entry : DdEntry) (name : String) :
    (table.enter entry).entries.contains name
      = (decide (name = entry.ddname) || table.entries.contains name) :=
  Table.contains_insert _ _ _ _

/-- Every other DD is there as before. -/
theorem lookup_without_ne (table : DdTable) (hne : Text.upper other ≠ Text.upper ddname) :
    (table.without ddname).lookup other = table.lookup other :=
  Table.get?_erase_ne _ hne

/-- A DD is entered under a name that is not in use. -/
theorem enterNew_eq (table : DdTable) (ddname dsname : String) (status : DatasetStatus)
    (temporary : Bool) :
    table.enterNew ddname dsname status temporary
      = if table.entries.contains ddname then .error .inUse
        else .ok (ddname, table.enter { ddname, dsname := Text.upper dsname, status, temporary }) := by
  unfold enterNew
  rw [Table.holds_eq_contains table.ordered]

/-- A DD is entered under the name asked for, or the table refuses. -/
theorem allocate_cases (table : DdTable) (ddname dsname : String) (status : DatasetStatus)
    (temporary : Bool) :
    (∃ refusal, table.allocate (some ddname) dsname status temporary = .ok (.error refusal))
      ∨ ∃ after, table.allocate (some ddname) dsname status temporary
          = .ok (.ok (Text.upper ddname, after))
        ∧ Entered ddname table after
        ∧ after.lookup ddname = some { ddname := Text.upper ddname, dsname := Text.upper dsname,
                                       status, temporary } := by
  unfold allocate
  cases hflaw : Name.ddnameFlaw? ddname with
  | some flaw =>
      simp only [hflaw]
      exact .inl ⟨.invalidName, rfl⟩
  | none =>
      simp only [hflaw, enterNew_eq]
      split
      · exact .inl ⟨.inUse, rfl⟩
      · next hcontains =>
        refine .inr ⟨_, rfl, ⟨hflaw, ?_, ⟨Text.upper ddname, Text.upper dsname, status, temporary⟩,
          rfl, rfl⟩, Table.get?_insert_self _ _ _⟩
        unfold Table.contains at hcontains
        unfold lookup
        simpa using hcontains

-- ============================================================== made-up names

variable {number : UInt32} {used : List String}

/-- The name made of a number of any size. -/
def nameOf (n : Nat) : String :=
  "SYS" ++ Text.decimalOf 5 n

/-- Different numbers make different names. -/
theorem nameOf_inj {n n' : Nat} (h : nameOf n = nameOf n') : n = n' := by
  have hlist := congrArg String.toList h
  unfold nameOf at hlist
  rw [String.toList_append, String.toList_append] at hlist
  exact Text.decimalOf_inj (String.toList_inj.mp (List.append_cancel_left hlist))

/-- Five digits fit behind the letters in a name. -/
theorem length_nameOf_le_iff {n : Nat} : (nameOf n).toList.length ≤ 8 ↔ n < 100000 := by
  have hdigits : (Text.decimalOf 5 n).toList.length ≤ 5 ↔ n < 100000 :=
    Text.length_decimalOf_le_iff (by decide)
  have hfront : "SYS".toList.length = 3 := rfl
  unfold nameOf
  rw [← hdigits, String.toList_append, List.length_append]
  omega

/-- A name made up has characters of names only, all in upper case. -/
theorem isPart_nameOf {n : Nat} {c : Char} (h : c ∈ (nameOf n).toList) :
    Name.isPart c = true ∧ c.toUpper = c := by
  have hfront : ("SYS".toList.all fun c => Name.isPart c && c.toUpper == c) = true := by
    decide +kernel
  simp only [List.all_eq_true, Bool.and_eq_true, beq_iff_eq] at hfront
  have hdigits : ∀ d < 128, (Char.ofNat d).isDigit = true →
      Name.isPart (Char.ofNat d) = true ∧ (Char.ofNat d).toUpper = Char.ofNat d := by
    decide +kernel
  unfold nameOf at h
  rw [String.toList_append] at h
  rcases List.mem_append.mp h with hletter | hdigit
  · exact hfront c hletter
  · have hisDigit := Text.isDigit_decimalOf hdigit
    have hpart : Name.isPart c = true := by simp [Name.isPart, Char.isAlphanum, hisDigit]
    have := hdigits c.toNat (Name.isPart_lt hpart)
    rw [Char.ofNat_toNat] at this
    exact this hisDigit

/-- A name made up is as it is in upper case. -/
theorem upper_nameOf (n : Nat) : Text.upper (nameOf n) = nameOf n :=
  Text.upper_of_fixed fun _ hc => (isPart_nameOf hc).2

/-- A name that was made up could have been asked for unless it is too
long. -/
theorem ddnameFlaw?_nameOf_iff {n : Nat} : Name.ddnameFlaw? (nameOf n) = none ↔ n < 100000 := by
  rw [← length_nameOf_le_iff, Name.ddnameFlaw?_eq_none_iff]
  refine ⟨fun h => h.1, fun h => ⟨h, fun c hc => (isPart_nameOf hc).1, 'S', ?_, by decide⟩⟩
  unfold nameOf
  rw [String.toList_append]
  rfl

/-- A name is one a caller may ask for, or it was made up. -/
def Named (table : DdTable) : Prop :=
  ∀ name, table.entries.contains name = true →
    Name.ddnameFlaw? name = none ∨ ∃ n, n < table.nextNumber.toNat ∧ name = nameOf n

/-- A number not yet passed whose name is taken has five digits at
most. -/
theorem contains_systemName (h : table.Named) {n : Nat} (hn : table.nextNumber.toNat ≤ n)
    (hcontains : table.entries.contains (nameOf n) = true) : n < 100000 := by
  rcases h _ hcontains with hflaw | ⟨passed, hpassed, hname⟩
  · exact ddnameFlaw?_nameOf_iff.mp hflaw
  · have heq := nameOf_inj hname
    omega

/-- Of one name more than there are DDs one is free. -/
theorem free_systemName (table : DdTable) (start : Nat) :
    ∃ i, i ≤ table.size ∧ table.entries.contains (nameOf (start + i)) = false := by
  by_contra hnone
  have htaken : ∀ i, i ≤ table.size → table.entries.contains (nameOf (start + i)) = true := by
    intro i hi
    by_contra hfree
    exact hnone ⟨i, hi, by simpa using hfree⟩
  have hsubset : (Finset.range (table.size + 1)).image (fun i => nameOf (start + i))
      ⊆ table.entries.keys.toFinset := by
    intro name hname
    obtain ⟨i, hi, rfl⟩ := Finset.mem_image.mp hname
    have hle : i ≤ table.size := Nat.lt_succ_iff.mp (Finset.mem_range.mp hi)
    exact List.mem_toFinset.mpr (Table.mem_keys.mpr (htaken i hle))
  have hcard := Finset.card_le_card hsubset
  rw [Finset.card_image_of_injective _ fun i j h => Nat.add_left_cancel (nameOf_inj h),
    Finset.card_range] at hcard
  have hkeys : table.entries.keys.toFinset.card ≤ table.size := by
    refine Nat.le_trans (List.toFinset_card_le _) ?_
    unfold Table.keys
    rw [List.length_map]
    exact Nat.le_refl _
  omega

/-- Of the names in use only those count that numbers still to be tried
make. -/
theorem generateFrom_congr {others : List String} {fuel : Nat}
    (h : ∀ n, number.toNat ≤ n → (nameOf n ∈ used ↔ nameOf n ∈ others)) :
    generateFrom used number fuel = generateFrom others number fuel := by
  induction fuel generalizing number used others with
  | zero => rfl
  | succ fuel ih =>
      have hhere : used.contains (systemName number) = others.contains (systemName number) := by
        rw [Bool.eq_iff_iff, List.contains_iff_mem, List.contains_iff_mem]
        exact h number.toNat (Nat.le_refl _)
      unfold generateFrom
      refine Outcome.bind_congr fun next hnext => ?_
      rw [hhere]
      split
      · refine ih fun n hn => ?_
        have hne : nameOf n ≠ systemName number := by
          intro heq
          have := nameOf_inj heq
          rw [successor_ok hnext] at hn
          omega
        rw [List.mem_erase_of_ne hne, List.mem_erase_of_ne hne]
        exact h n (by rw [successor_ok hnext] at hn; omega)
      · rfl

/-- The search is the one that strikes nothing off. -/
theorem generateFrom_succ (used : List String) (number : UInt32) (fuel : Nat) :
    generateFrom used number (fuel + 1) = (Word.successor number >>= fun next =>
      if used.contains (systemName number) then generateFrom used next fuel
      else pure (systemName number, next)) := by
  show (Word.successor number >>= _) = _
  refine Outcome.bind_congr fun next hnext => ?_
  split
  · refine generateFrom_congr fun n hn => List.mem_erase_of_ne fun heq => ?_
    have := nameOf_inj heq
    rw [successor_ok hnext] at hn
    omega
  · rfl

/-- A name that was found is free, and was made of a number that is passed
now; the names of the numbers before it are in use. -/
theorem generateFrom_made {fuel : Nat} {name : String} {next : UInt32}
    (h : generateFrom used number fuel = .ok (name, next)) :
    name ∉ used ∧ ∃ n, number.toNat ≤ n ∧ next.toNat = n + 1 ∧ name = nameOf n
      ∧ ∀ passed, number.toNat ≤ passed → passed < n → nameOf passed ∈ used := by
  induction fuel generalizing number with
  | zero => cases h
  | succ fuel ih =>
      rw [generateFrom_succ] at h
      obtain ⟨after, hafter, h⟩ := Outcome.bind_ok h
      have hvalue := successor_ok hafter
      split at h
      · next hused =>
        obtain ⟨hnew, n, hle, hn, hname, hbetween⟩ := ih h
        refine ⟨hnew, n, by omega, hn, hname, fun passed hpassed hlt => ?_⟩
        by_cases hhere : passed = number.toNat
        · rw [hhere]
          exact List.contains_iff_mem.mp hused
        · exact hbetween passed (by omega) hlt
      · next hfree =>
        cases h
        exact ⟨by simpa using hfree, number.toNat, Nat.le_refl _, hvalue, rfl,
          fun passed hpassed hlt => by omega⟩

/-- The search stops at a free name before the numbers run out. -/
theorem generateFrom_ok {fuel i : Nat} (hi : i < fuel)
    (hfree : nameOf (number.toNat + i) ∉ used)
    (hlast : number.toNat + i + 1 < UInt32.size) :
    ∃ found, generateFrom used number fuel = .ok found := by
  induction fuel generalizing number i with
  | zero => omega
  | succ fuel ih =>
      have hnext : Word.successor number = .ok (number + 1) := by
        unfold Word.successor
        exact if_pos (by omega)
      have hvalue := successor_ok hnext
      rw [generateFrom_succ, hnext]
      by_cases hmem : nameOf number.toNat ∈ used
      · -- the number at hand is not the free one
        cases i with
        | zero => exact absurd hmem hfree
        | succ i =>
            have hstep : (number + 1).toNat + i = number.toNat + (i + 1) := by omega
            show ∃ found, (if used.contains (nameOf number.toNat) = true then _ else _) = _
            rw [if_pos (List.contains_iff_mem.mpr hmem)]
            apply ih (Nat.lt_of_succ_lt_succ hi)
            · rw [hstep]
              exact hfree
            · omega
      · refine ⟨(systemName number, number + 1), ?_⟩
        show (if used.contains (nameOf number.toNat) = true then _ else _) = _
        rw [if_neg (by simpa using hmem)]
        rfl

/-- A name for a DD is made of a number that was not passed before and is
passed now. It is not in use, and the ones that were passed over are. -/
theorem generate_made {name : String} (h : table.generate = .ok (name, after)) :
    ∃ n, name = nameOf n ∧ table.nextNumber.toNat ≤ n ∧ after.nextNumber.toNat = n + 1
      ∧ table.entries.contains name = false
      ∧ (∀ passed, table.nextNumber.toNat ≤ passed → passed < n →
        table.entries.contains (nameOf passed) = true)
      ∧ after.entries = table.entries := by
  unfold generate at h
  obtain ⟨⟨found, next⟩, hfound, h⟩ := Outcome.bind_ok h
  cases h
  obtain ⟨hfree, n, hle, hnext, rfl, hbetween⟩ := generateFrom_made hfound
  refine ⟨n, rfl, hle, hnext, ?_, fun passed hpassed hlt => ?_, rfl⟩
  · rwa [Table.mem_keys, Bool.not_eq_true] at hfree
  · exact Table.mem_keys.mp (hbetween passed hpassed hlt)

/-- Where the next number is not the last one, there is a name. -/
theorem generate_ok (h : table.Named) (hnext : table.nextNumber.toNat + 1 < UInt32.size) :
    ∃ made, table.generate = .ok made := by
  have hsome : ∃ i, table.entries.contains (nameOf (table.nextNumber.toNat + i)) = false := by
    obtain ⟨i, -, hfree⟩ := free_systemName table table.nextNumber.toNat
    exact ⟨i, hfree⟩
  have hfirst : Nat.find hsome ≤ table.size := by
    obtain ⟨i, hi, hfree⟩ := free_systemName table table.nextNumber.toNat
    exact Nat.le_trans (Nat.find_min' hsome hfree) hi
  have hlast : table.nextNumber.toNat + Nat.find hsome + 1 < UInt32.size := by
    by_cases hzero : Nat.find hsome = 0
    · omega
    · -- the name in front of the first free one is taken
      have htaken := Nat.find_min hsome (show Nat.find hsome - 1 < Nat.find hsome by omega)
      rw [Bool.not_eq_false] at htaken
      have hsmall := contains_systemName h (Nat.le_add_right _ _) htaken
      have hsize : UInt32.size = 4294967296 := rfl
      omega
  have hfree : nameOf (table.nextNumber.toNat + Nat.find hsome) ∉ table.entries.keys := by
    rw [Table.mem_keys, Nat.find_spec hsome]
    exact Bool.false_ne_true
  obtain ⟨found, hfound⟩ := generateFrom_ok (Nat.lt_succ_of_le hfirst) hfree hlast
  refine ⟨(found.1, { table with nextNumber := found.2 }), ?_⟩
  unfold generate
  rw [hfound]
  rfl

/-- A name made up is not in use, so the DD is entered under it; there is
none if the numbers have run out. -/
theorem allocate_madeUp (table : DdTable) (dsname : String) (status : DatasetStatus)
    (temporary : Bool) :
    table.allocate none dsname status temporary = trap
      ∨ ∃ ddname numbered, table.generate = .ok (ddname, numbered)
        ∧ table.allocate none dsname status temporary = .ok (.ok (ddname, numbered.enter
            { ddname, dsname := Text.upper dsname, status, temporary })) := by
  have hends : ∀ fuel number, generateFrom table.entries.keys number fuel = trap
      ∨ ∃ found, generateFrom table.entries.keys number fuel = .ok found := by
    intro fuel
    induction fuel with
    | zero => exact fun _ => .inl rfl
    | succ fuel ih =>
        intro number
        rw [generateFrom_succ]
        rcases successor_cases number with ⟨next, hnext⟩ | hfull
        · rw [hnext]
          by_cases hused : table.entries.keys.contains (systemName number) = true
          · simp only [hused]
            exact ih next
          · simp only [hused]
            exact .inr ⟨_, rfl⟩
        · rw [hfull]
          exact .inl rfl
  unfold allocate
  rcases hends (table.size + 1) table.nextNumber with htrap | ⟨⟨ddname, next⟩, hfound⟩
  · left
    unfold generate
    rw [htrap]
    rfl
  · right
    have hgenerate : table.generate = .ok (ddname, { table with nextNumber := next }) := by
      unfold generate
      rw [hfound]
      rfl
    obtain ⟨-, -, -, -, hnew, -, hsame⟩ := generate_made hgenerate
    refine ⟨ddname, _, hgenerate, ?_⟩
    rw [hgenerate]
    show Except.ok (enterNew _ _ _ _ _) = _
    rw [enterNew_eq, if_neg (by rw [hsame, hnew]; exact Bool.false_ne_true)]

/-- Entering a name that may be asked for, or that was made up, keeps the
names in order. -/
theorem Named.enter {entry : DdEntry} (h : table.Named)
    (hname : Name.ddnameFlaw? entry.ddname = none
      ∨ ∃ n, n < table.nextNumber.toNat ∧ entry.ddname = nameOf n) :
    (table.enter entry).Named := by
  intro name hcontains
  rw [contains_enter, Bool.or_eq_true, decide_eq_true_eq] at hcontains
  rcases hcontains with rfl | hold
  · exact hname
  · exact h name hold

/-- Taking a name out keeps the others in order. -/
theorem Named.erase (h : table.Named) (name : String) : (table.erase name).Named := by
  intro other hcontains
  unfold DdTable.erase at hcontains
  rw [Table.contains_erase, Bool.and_eq_true] at hcontains
  exact h other hcontains.1

/-- So a DD that was taken out leaves them in order. -/
theorem Named.unallocate {name : String} {entry : DdEntry} {after : DdTable} (h : table.Named)
    (hfreed : table.unallocate name = .ok (entry, after)) : after.Named := by
  unfold DdTable.unallocate at hfreed
  split at hfreed
  · cases hfreed
  · cases hfreed
    exact h.erase _

/-- An allocation keeps the names in order. -/
theorem Named.allocate {ddname : Option String} {dsname name : String} {status : DatasetStatus}
    {temporary : Bool} {after : DdTable} (h : table.Named)
    (hallocate : table.allocate ddname dsname status temporary = .ok (.ok (name, after))) :
    after.Named := by
  have hentered : ∀ {start : DdTable} {key : String}, start.Named →
      (Name.ddnameFlaw? key = none ∨ ∃ n, n < start.nextNumber.toNat ∧ key = nameOf n) →
      start.enterNew key dsname status temporary = .ok (name, after) → after.Named := by
    intro start key hstart hkey henter
    rw [enterNew_eq] at henter
    split at henter
    · cases henter
    · cases henter
      exact hstart.enter hkey
  unfold DdTable.allocate at hallocate
  cases ddname with
  | some requested =>
      cases hflaw : Name.ddnameFlaw? requested with
      | some flaw =>
          simp only [hflaw] at hallocate
          cases hallocate
      | none =>
          simp only [hflaw] at hallocate
          exact hentered h (.inl (Name.ddnameFlaw?_upper hflaw)) (Except.ok.inj hallocate)
  | none =>
      obtain ⟨⟨made, numbered⟩, hgenerate, hallocate⟩ := Outcome.bind_ok hallocate
      obtain ⟨n, rfl, hle, hnext, -, -, hsame⟩ := generate_made hgenerate
      -- the numbers passed before are passed still
      have hnumbered : numbered.Named := by
        intro other hother
        rw [hsame] at hother
        rcases h other hother with hflaw | ⟨passed, hpassed, hname⟩
        · exact .inl hflaw
        · exact .inr ⟨passed, by omega, hname⟩
      exact hentered hnumbered (.inr ⟨n, by omega, rfl⟩) (Except.ok.inj hallocate)

end DdTable

end Sim
end TsoBridge
