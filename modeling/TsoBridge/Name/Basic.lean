/-
Names. A DD name has one to eight characters, letters, digits and the
national characters, and starts with no digit; a dataset name has one to
forty-four and is a row of such names with dots between them. Names are
given in any case and held in upper case.

A `DdName` can only be built with the proofs that it is accepted and in
upper case. What the flaws leave over is said once, by
`ddnameFlaw?_eq_none_iff`, and neither side of that depends on the case of
letters, which is why a name may be put in upper case after it was checked.
-/
import TsoBridge.Error
import TsoBridge.Text.Case
import TsoBridge.Text.Line

namespace TsoBridge

-- ======================================================== sizes of texts

namespace Text

/-- The size of a text is counted character by character. -/
theorem utf8ByteSize_cons (c : Char) (rest : List Char) :
    (String.ofList (c :: rest)).utf8ByteSize
      = c.utf8Size + (String.ofList rest).utf8ByteSize := by
  have hcons : String.ofList (c :: rest) = String.singleton c ++ String.ofList rest := by
    apply String.toList_inj.mp
    simp
  rw [hcons, String.utf8ByteSize_append, String.utf8ByteSize_singleton]

/-- A text has at least as many bytes as characters. -/
theorem length_le_utf8ByteSize (s : String) : s.toList.length ≤ s.utf8ByteSize := by
  obtain ⟨cs, rfl⟩ : ∃ cs, s = String.ofList cs := ⟨s.toList, String.ofList_toList.symm⟩
  rw [String.toList_ofList]
  induction cs with
  | nil => exact Nat.zero_le _
  | cons c rest ih =>
      have := c.utf8Size_pos
      rw [utf8ByteSize_cons, List.length_cons]
      omega

end Text

namespace Name

-- ============================================================ characters

/-- The characters that count as letters in names. -/
def isNational (c : Char) : Bool :=
  c == '@' || c == '#' || c == '$'

/-- Whether a name may start with `c`. -/
def isStart (c : Char) : Bool :=
  c.isAlpha || isNational c

/-- Whether a name may hold `c`. -/
def isPart (c : Char) : Bool :=
  c.isAlphanum || isNational c

/-- The characters of a name are ASCII. -/
theorem isPart_lt {c : Char} (h : isPart c = true) : c.toNat < 128 := by
  unfold isPart isNational Char.isAlphanum Char.isAlpha Char.isUpper Char.isLower
    Char.isDigit at h
  simp only [Bool.or_eq_true, Bool.and_eq_true, decide_eq_true_eq, beq_iff_eq] at h
  have hval : c.toNat = c.val.toNat := rfl
  rcases h with ((⟨_, h⟩ | ⟨_, h⟩) | ⟨_, h⟩) | (rfl | rfl) | rfl
  · have := UInt32.le_iff_toNat_le.mp h
    simp at this
    omega
  · have := UInt32.le_iff_toNat_le.mp h
    simp at this
    omega
  · have := UInt32.le_iff_toNat_le.mp h
    simp at this
    omega
  · decide
  · decide
  · decide

/-- What counts in names counts in either case. -/
theorem isPart_toUpper (c : Char) : isPart c.toUpper = isPart c :=
  Text.toUpper_cases (P := fun c d => isPart d = isPart c) (by decide +kernel) (fun _ _ => rfl) c

/-- Case does not matter for the first character. -/
theorem isStart_toUpper (c : Char) : isStart c.toUpper = isStart c :=
  Text.toUpper_cases (P := fun c d => isStart d = isStart c) (by decide +kernel)
    (fun _ _ => rfl) c

/-- Characters of names have one byte each. -/
theorem utf8ByteSize_of_parts {chars : List Char} (h : ∀ c ∈ chars, isPart c = true) :
    (String.ofList chars).utf8ByteSize = chars.length := by
  induction chars with
  | nil => rfl
  | cons c rest ih =>
      have hsize : c.utf8Size = 1 := by
        have := isPart_lt (h c List.mem_cons_self)
        refine Char.utf8Size_eq_one_iff.mpr ?_
        rw [UInt32.le_iff_toNat_le]
        show c.toNat ≤ 127
        omega
      rw [Text.utf8ByteSize_cons, List.length_cons, hsize,
        ih fun d hd => h d (List.mem_cons_of_mem _ hd), Nat.add_comm]

-- ================================================================= flaws

/-- The flaw of a DD name, if it has one. -/
def ddnameFlaw? (name : String) : Option NameFlaw :=
  match name.toList with
  | [] => some (.length 8)
  | first :: rest =>
    if 8 < name.utf8ByteSize then some (.length 8)
    else if !isStart first then some .start
    else ((first :: rest).find? (!isPart ·)).map .character

/-- The flaw of a dataset name, if it has one. -/
def dsnameFlaw? (name : String) : Option NameFlaw :=
  if name.utf8ByteSize = 0 || 44 < name.utf8ByteSize then some (.length 44)
  else ((Text.split (· == '.') name.toList).map String.ofList).findSome? fun qualifier =>
    (ddnameFlaw? qualifier).map (.qualifier qualifier)

/-- Accepts a name without a DD name's flaws. -/
def checkDdname (name : String) : Except Error Unit :=
  match ddnameFlaw? name with
  | none => .ok ()
  | some flaw => .error (.invalidName name flaw)

/-- Accepts a name without a dataset name's flaws. -/
def checkDsname (name : String) : Except Error Unit :=
  match dsnameFlaw? name with
  | none => .ok ()
  | some flaw => .error (.invalidName name flaw)

/-- What passes the check has no flaw. -/
theorem checkDdname_ok {name : String} {u : Unit} (h : checkDdname name = .ok u) :
    ddnameFlaw? name = none := by
  unfold checkDdname at h
  split at h
  · next hflaw => exact hflaw
  · cases h

/-- The DD names without a flaw: one to eight characters of names, the
first of which may start one. -/
theorem ddnameFlaw?_eq_none_iff {name : String} :
    ddnameFlaw? name = none ↔ name.toList.length ≤ 8 ∧ (∀ c ∈ name.toList, isPart c = true)
      ∧ ∃ c, name.toList.head? = some c ∧ isStart c = true := by
  unfold ddnameFlaw?
  cases hlist : name.toList with
  | nil => simp
  | cons first rest =>
      have hlength := Text.length_le_utf8ByteSize name
      -- the bytes are counted, and characters of names have one byte each
      have hsize : (∀ c ∈ first :: rest, isPart c = true) →
          name.utf8ByteSize = (first :: rest).length := by
        intro hparts
        rw [← utf8ByteSize_of_parts hparts, ← hlist, String.ofList_toList]
      rw [hlist] at hlength
      simp only [List.head?_cons, Option.some.injEq, exists_eq_left']
      constructor
      · intro h
        split at h
        · cases h
        · split at h
          · cases h
          · next hshort hstart =>
            have hfind := List.find?_eq_none.mp (Option.map_eq_none_iff.mp h)
            exact ⟨by omega, fun c hc => by simpa using hfind c hc, by simpa using hstart⟩
      · rintro ⟨hshort, hparts, hstart⟩
        rw [← hsize hparts] at hshort
        rw [if_neg (by omega), hstart]
        simp only [Bool.not_true, Bool.false_eq_true, if_false, Option.map_eq_none_iff,
          List.find?_eq_none]
        intro c hc
        simp [hparts c hc]

/-- A DD name without a flaw: one to eight characters of names. -/
theorem ddname_of_no_flaw {name : String} (h : ddnameFlaw? name = none) :
    name ≠ "" ∧ name.toList.length ≤ 8 ∧ ∀ c ∈ name.toList, isPart c = true := by
  obtain ⟨hlength, hparts, first, hfirst, -⟩ := ddnameFlaw?_eq_none_iff.mp h
  refine ⟨?_, hlength, hparts⟩
  rintro rfl
  simp at hfirst

/-- A DD name is accepted in upper case if it is accepted. -/
theorem ddnameFlaw?_upper_iff {name : String} :
    ddnameFlaw? (Text.upper name) = none ↔ ddnameFlaw? name = none := by
  rw [ddnameFlaw?_eq_none_iff, ddnameFlaw?_eq_none_iff, Text.toList_upper]
  cases name.toList with
  | nil => simp
  | cons first rest => simp [isPart_toUpper, isStart_toUpper]

/-- A flawless name is flawless in upper case. -/
theorem ddnameFlaw?_upper {name : String} (h : ddnameFlaw? name = none) :
    ddnameFlaw? (Text.upper name) = none :=
  ddnameFlaw?_upper_iff.mpr h

end Name

-- ============================================================== DD names

/-- A text in upper case of which the check finds nothing wrong. -/
def Name.isDdname (text : String) : Bool :=
  (Name.ddnameFlaw? text).isNone && Text.upper text == text

/-- A name that passes the test has no flaw. -/
theorem Name.flawless_of_isDdname {text : String} (h : Name.isDdname text = true) :
    Name.ddnameFlaw? text = none :=
  Option.isNone_iff_eq_none.mp (Bool.and_eq_true_iff.mp h).1

/-- And it is in upper case. -/
theorem Name.upper_of_isDdname {text : String} (h : Name.isDdname text = true) :
    Text.upper text = text :=
  eq_of_beq (Bool.and_eq_true_iff.mp h).2

/-- The name of a DD as a session holds it: checked, in upper case. -/
structure DdName where
  text : String
  flawless : Name.ddnameFlaw? text = none := by
    exact Name.flawless_of_isDdname (by decide)
  upper : Text.upper text = text := by
    exact Name.upper_of_isDdname (by decide)
deriving DecidableEq

namespace DdName

/-- A name is its text. -/
@[ext] theorem ext {a b : DdName} (h : a.text = b.text) : a = b := by
  cases a
  cases b
  cases h
  rfl

/-- A DD name from text in any case. -/
def ofString (name : String) : Except Error DdName :=
  match h : Name.checkDdname name with
  | .ok () => .ok
    { text := Text.upper name
      flawless := Name.ddnameFlaw?_upper (Name.checkDdname_ok h)
      upper := Text.upper_upper name }
  | .error cause => .error cause

instance : LT DdName where
  lt a b := a.text < b.text

instance : DecidableLT DdName := fun a b =>
  inferInstanceAs (Decidable (a.text < b.text))

/-- The names that are accepted, and what they become. -/
theorem ofString_eq_ok_iff {given : String} {name : DdName} :
    ofString given = .ok name ↔ Name.ddnameFlaw? given = none ∧ Text.upper given = name.text := by
  unfold ofString
  constructor
  · intro h
    split at h
    · next hcheck =>
      cases h
      exact ⟨Name.checkDdname_ok hcheck, rfl⟩
    · cases h
  · rintro ⟨hflaw, hupper⟩
    have hcheck : Name.checkDdname given = .ok () := by
      unfold Name.checkDdname
      rw [hflaw]
    split
    · exact congrArg Except.ok (DdName.ext hupper)
    · next hrefused =>
      rw [hcheck] at hrefused
      cases hrefused

/-- Every flawless text makes a name. -/
theorem ofString_of_no_flaw {given : String} (h : Name.ddnameFlaw? given = none) :
    ∃ name, ofString given = .ok name :=
  ⟨{ text := Text.upper given
     flawless := Name.ddnameFlaw?_upper h
     upper := Text.upper_upper given }, ofString_eq_ok_iff.mpr ⟨h, rfl⟩⟩

/-- A name that is held is accepted as it stands. -/
theorem ofString_text (name : DdName) : ofString name.text = .ok name :=
  ofString_eq_ok_iff.mpr ⟨name.flawless, name.upper⟩

/-- What is refused is refused for its flaw. -/
theorem ofString_error {given : String} {cause : Error} (h : ofString given = .error cause) :
    ∃ flaw, cause = .invalidName given flaw := by
  unfold ofString at h
  split at h
  · cases h
  · next hcheck =>
    cases h
    unfold Name.checkDdname at hcheck
    split at hcheck
    · cases hcheck
    · next flaw _ =>
      cases hcheck
      exact ⟨flaw, rfl⟩

/-- A name is never empty. -/
theorem nonempty (name : DdName) : name.text ≠ "" :=
  (Name.ddname_of_no_flaw name.flawless).1

/-- A name has at most eight characters. -/
theorem length_le (name : DdName) : name.text.toList.length ≤ 8 :=
  (Name.ddname_of_no_flaw name.flawless).2.1

/-- A name has no other characters than names may have. -/
theorem isPart_of_mem (name : DdName) : ∀ c ∈ name.text.toList, Name.isPart c = true :=
  (Name.ddname_of_no_flaw name.flawless).2.2

end DdName
end TsoBridge
