/-
Which bytes are the result of an exec. The number in an evaluation block is
a decimal one, a sign in front of it or none, and the reader takes all of
these and nothing else (`evalNumber_accepts_numbers`).

# One digit at a time

Both directions rest on one equation for the accumulating loop: it returns
exactly where every byte is a digit and the number the digits stand for
does not leave the signed fullword (`accumulate_eq_ok_iff`). The induction
is on the last digit, since that is how the loop builds the number up; what
the digits before it stand for is a tenth of the whole at most, so a number
that ends in range was in range on the way.

The loop allows one more than the largest fullword, which only a number
with a minus sign may reach; the check for that comes after the loop.
-/
import Mathlib.Data.List.Induction
import Mathlib.Data.Nat.Digits.Defs
import TsoBridge.Capture
import TsoBridge.Proofs.ExecResult
import TsoBridge.Sim.Service.Exec

namespace TsoBridge.ExecArea

variable {text : String} {digits value data : Bytes} {length v : Int32}

-- ============================================================== numbers

/-- The number a run of digits stands for, the first digit the most
significant. -/
def digitsValue (digits : Bytes) : Nat :=
  Nat.ofDigits 10 (digits.reverse.map fun byte => byte.toNat - 0xF0)

/-- How a number may be written: digits, and a minus sign in front of them
if it is negative. Zeros may lead, and zero may have a sign. -/
def Denotes (value : Bytes) (i : Int) : Prop :=
  ∃ (negative : Bool) (digits : Bytes), digits ≠ []
    ∧ (∀ byte ∈ digits, 0xF0 ≤ byte ∧ byte ≤ 0xF9)
    ∧ value = (if negative then [0x60] else []) ++ digits
    ∧ i = if negative then -(digitsValue digits : Int) else digitsValue digits

theorem digitsValue_append (first : Bytes) (byte : UInt8) :
    digitsValue (first ++ [byte]) = digitsValue first * 10 + (byte.toNat - 0xF0) := by
  unfold digitsValue
  rw [List.reverse_append, List.reverse_singleton, List.singleton_append, List.map_cons,
    Nat.ofDigits_cons]
  omega

theorem isDigit_iff {byte : UInt8} : isDigit byte = true ↔ 0xF0 ≤ byte ∧ byte ≤ 0xF9 := by
  unfold isDigit
  rw [Bool.and_eq_true, decide_eq_true_eq, decide_eq_true_eq]
  rfl

-- ============================================================= the loop

/-- The last digit of a run. -/
theorem accumulate_singleton {total n : Nat} {byte : UInt8} :
    accumulate text total [byte] = .ok n ↔
      isDigit byte = true ∧ total * 10 + (byte.toNat - 0xF0) = n ∧ n ≤ 0x80000000 := by
  have hzero : CodePage.zero.toNat = 0xF0 := rfl
  unfold accumulate
  rw [hzero]
  cases isDigit byte with
  | false => simp
  | true =>
      simp only [Bool.not_true, Bool.false_eq_true, if_false, true_and]
      split
      · simp only [reduceCtorEq, false_iff]
        omega
      · unfold accumulate
        rw [Except.ok.injEq]
        omega

/-- The loop returns the number the digits stand for, and returns only
where they are digits and that number is in range. -/
theorem accumulate_eq_ok_iff {n : Nat} :
    accumulate text 0 digits = .ok n ↔
      (∀ byte ∈ digits, isDigit byte = true) ∧ digitsValue digits = n ∧ n ≤ 0x80000000 := by
  induction digits using List.reverseRecOn generalizing n with
  | nil =>
      have hnil : digitsValue [] = 0 := rfl
      unfold accumulate
      rw [Except.ok.injEq, hnil]
      simp only [List.not_mem_nil, false_imp_iff, implies_true, true_and]
      omega
  | append_singleton first byte ih =>
      have hsplit : accumulate text 0 (first ++ [byte]) = .ok n ↔
          ∃ total, accumulate text 0 first = .ok total ∧ accumulate text total [byte] = .ok n := by
        rw [accumulate_append]
        cases accumulate text 0 first with
        | ok total => simp [bind, Except.bind]
        | error flaw => simp [bind, Except.bind]
      rw [hsplit, digitsValue_append, List.forall_mem_append, List.forall_mem_singleton]
      constructor
      · rintro ⟨total, hfirst, hlast⟩
        obtain ⟨hall, rfl, -⟩ := ih.mp hfirst
        obtain ⟨hdigit, hvalue, hrange⟩ := accumulate_singleton.mp hlast
        exact ⟨⟨hall, hdigit⟩, hvalue, hrange⟩
      · rintro ⟨⟨hall, hdigit⟩, hvalue, hrange⟩
        -- the digits in front stand for a tenth of the number at most
        have hfront : digitsValue first ≤ 0x80000000 := by omega
        exact ⟨digitsValue first, ih.mpr ⟨hall, rfl, hfront⟩,
          accumulate_singleton.mpr ⟨hdigit, hvalue, hrange⟩⟩

/-- What the loop holds at a digit leaves room for the step. -/
theorem accumulate_room {first : Bytes} {total : Nat} {byte : UInt8}
    (hfirst : accumulate text 0 first = .ok total) (hdigit : isDigit byte = true) :
    total * 10 + (byte.toNat - 0xF0) < 0x8000000000000000 := by
  obtain ⟨-, -, hrange⟩ := accumulate_eq_ok_iff.mp hfirst
  have hbyte := UInt8.le_iff_toNat_le.mp (isDigit_iff.mp hdigit).2
  have hnine : (0xF9 : UInt8).toNat = 0xF9 := rfl
  omega

-- =========================================================== the reader

/-- The sign of a number and the digits after it. -/
def signed (value : Bytes) : Bool × Bytes :=
  if value.head? == some CodePage.minus then (true, value.drop 1) else (false, value)

/-- The number of a fullword, from its sign and the sum of its digits. -/
def finish (text : String) (negative : Bool) (magnitude : Nat) : Except EvalFlaw Int32 :=
  if !negative && magnitude == 0x80000000 then .error (.overflow text)
  else .ok (Int32.ofInt (if negative then -(magnitude : Int) else magnitude))

/-- Reading a number, for a length that is neither too small nor too
large. -/
theorem evalNumber_within (hpos : 1 ≤ length.toInt)
    (hfits : length.toInt ≤ min EvalBlock.dataSize data.length) :
    evalNumber length data =
      let value := data.take length.toInt.toNat
      if (signed value).2 = [] then .error .signOnly
      else accumulate (CodePage.decode value) 0 (signed value).2 >>=
        finish (CodePage.decode value) (signed value).1 := by
  have hsign : ¬ length ≤ 0 := by
    rw [Int32.le_iff_toInt_le, Int32.toInt_zero]
    omega
  have hroom : ¬ (decide (EvalBlock.dataSize < length.toInt.toNat)
      || decide (data.length < length.toInt.toNat)) = true := by
    rw [Bool.or_eq_true, decide_eq_true_eq, decide_eq_true_eq]
    omega
  unfold evalNumber
  simp only [if_neg hsign, if_neg hroom, List.isEmpty_iff]
  unfold signed finish
  cases (data.take length.toInt.toNat).head? == some CodePage.minus with
  | true => rfl
  | false => rfl

/-- A length that is too small or too large is refused. -/
theorem evalNumber_beyond
    (h : ¬ (1 ≤ length.toInt ∧ length.toInt ≤ min EvalBlock.dataSize data.length)) :
    evalNumber length data ≠ .ok v := by
  unfold evalNumber
  split
  · exact fun heq => by cases heq
  · next hsign =>
    rw [Int32.le_iff_toInt_le, Int32.toInt_zero] at hsign
    have hover : (decide (EvalBlock.dataSize < length.toInt.toNat)
        || decide (data.length < length.toInt.toNat)) = true := by
      rw [Bool.or_eq_true, decide_eq_true_eq, decide_eq_true_eq]
      omega
    simp only [if_pos hover]
    exact fun heq => by cases heq

/-- The number at the end of the loop is the signed fullword it is. -/
theorem finish_eq_ok_iff {negative : Bool} {magnitude : Nat} (h : magnitude ≤ 0x80000000) :
    finish text negative magnitude = .ok v ↔
      v.toInt = if negative then -(magnitude : Int) else magnitude := by
  have hmin := Int32.le_toInt v
  have hmax := Int32.toInt_lt v
  unfold finish
  cases negative with
  | true =>
      simp only [Bool.not_true, Bool.false_and, Bool.false_eq_true, if_false, if_true,
        Except.ok.injEq]
      rw [← Int32.toInt_inj, Int32.toInt_ofInt_of_le (by omega) (by omega)]
      exact eq_comm
  | false =>
      simp only [Bool.not_false, Bool.true_and, beq_iff_eq, Bool.false_eq_true, if_false]
      split
      · simp only [reduceCtorEq, false_iff]
        omega
      · rw [Except.ok.injEq, ← Int32.toInt_inj, Int32.toInt_ofInt_of_le (by omega) (by omega)]
        exact eq_comm

/-- A written number is its sign and its digits. -/
theorem signed_eq_iff {negative : Bool} (hdigits : ∀ byte ∈ digits, isDigit byte = true) :
    value = (if negative then [0x60] else []) ++ digits ↔ signed value = (negative, digits) := by
  have hminus : CodePage.minus = 0x60 := rfl
  have hhead : digits.head? ≠ some 0x60 := by
    intro hhead
    exact absurd (hdigits _ (List.mem_of_mem_head? hhead)) (by decide)
  unfold signed
  rw [hminus]
  cases negative with
  | true =>
      simp only [if_true, List.singleton_append, beq_iff_eq]
      constructor
      · rintro rfl
        simp
      · intro h
        split at h
        · next hfirst =>
          obtain ⟨rest, rfl⟩ := List.head?_eq_some_iff.mp hfirst
          simpa using h
        · simp at h
  | false =>
      simp only [Bool.false_eq_true, if_false, List.nil_append, beq_iff_eq]
      constructor
      · rintro rfl
        rw [if_neg hhead]
      · intro h
        split at h
        · simp at h
        · simpa using h

/-- What stands for a number, in the words of the reader. -/
theorem denotes_iff (text : String) : Denotes value v.toInt ↔
    (signed value).2 ≠ [] ∧ ∃ n, accumulate text 0 (signed value).2 = .ok n
      ∧ finish text (signed value).1 n = .ok v := by
  have hmin := Int32.le_toInt v
  have hmax := Int32.toInt_lt v
  constructor
  · rintro ⟨negative, digits, hne, hall, hvalue, hv⟩
    have hdigits : ∀ byte ∈ digits, isDigit byte = true :=
      fun byte hbyte => isDigit_iff.mpr (hall byte hbyte)
    rw [signed_eq_iff hdigits] at hvalue
    have hrange : digitsValue digits ≤ 0x80000000 := by
      cases negative with
      | true => simp only [if_true] at hv; omega
      | false => simp only [Bool.false_eq_true, if_false] at hv; omega
    rw [hvalue]
    exact ⟨hne, _, accumulate_eq_ok_iff.mpr ⟨hdigits, rfl, hrange⟩, (finish_eq_ok_iff hrange).mpr hv⟩
  · rintro ⟨hne, n, hsum, hfinish⟩
    obtain ⟨hdigits, rfl, hrange⟩ := accumulate_eq_ok_iff.mp hsum
    exact ⟨_, _, hne, fun byte hbyte => isDigit_iff.mp (hdigits byte hbyte),
      (signed_eq_iff hdigits).mpr rfl, (finish_eq_ok_iff hrange).mp hfinish⟩

/-- The number that is read is the number that is written, in the bytes the
length gives. -/
theorem evalNumber_eq_ok_iff : evalNumber length data = .ok v ↔
    1 ≤ length.toInt ∧ length.toInt ≤ min EvalBlock.dataSize data.length
      ∧ Denotes (data.take length.toInt.toNat) v.toInt := by
  by_cases hlength : 1 ≤ length.toInt ∧ length.toInt ≤ min EvalBlock.dataSize data.length
  · rw [evalNumber_within hlength.1 hlength.2,
      denotes_iff (CodePage.decode (data.take length.toInt.toNat))]
    simp only [hlength.1, hlength.2, true_and]
    generalize data.take length.toInt.toNat = value
    by_cases hempty : (signed value).2 = []
    · simp [hempty]
    · cases accumulate (CodePage.decode value) 0 (signed value).2 with
      | ok n => simp [bind, Except.bind, hempty]
      | error flaw => simp [bind, Except.bind, hempty]
  · constructor
    · exact fun h => absurd h (evalNumber_beyond hlength)
    · rintro ⟨hpos, hfits, -⟩
      exact absurd ⟨hpos, hfits⟩ hlength

-- ============================================================== results

/-- What an exec leaves for a return code is read as that code. -/
theorem evalNumber_resultOf (rc : Int32) :
    evalNumber (leftBy (Sim.Service.resultOf none rc)).length
      (leftBy (Sim.Service.resultOf none rc)).data = .ok rc := by
  have hread : evalNumber (leftBy (Sim.Service.resultOf none rc)).length
      (leftBy (Sim.Service.resultOf none rc)).data = .ok (Int32.ofInt rc.toInt) :=
    evalNumber_leftBy (Int32.le_toInt rc) (Int32.toInt_lt rc) rfl
  rw [hread, Int32.ofInt_toInt]

/-- An exec's result is read exactly where it is a number: as many bytes as
the length gives, which is from one to 256 and no more than there are, hold
an optional minus sign and digits that stand for a signed fullword. What
stands there otherwise is a failure of its own kind. No sum on the way
leaves a signed doubleword, and every return code is read back from what
the interpreter leaves of it. -/
theorem evalNumber_accepts_numbers :
    (∀ (length : Int32) (data : Bytes) (v : Int32), evalNumber length data = .ok v ↔
      1 ≤ length.toInt ∧ length.toInt ≤ min 256 data.length
        ∧ Denotes (data.take length.toInt.toNat) v.toInt)
    ∧ (∀ {H : Type} [Host H] (length : Int32) (data : Bytes) (outDd : String) (rexxRc : Int32)
        (s : Linkage H × ExecCapture),
      (¬ ∃ v : Int32, 1 ≤ length.toInt ∧ length.toInt ≤ min 256 data.length
        ∧ Denotes (data.take length.toInt.toNat) v.toInt) →
      ∃ flaw, evalNumber length data = .error flaw
        ∧ ExecCapture.collect outDd 0 { length, data } rexxRc s
          = (fail (.evalParseFailed flaw), s))
    ∧ (∀ (text : String) (first : Bytes) (total : Nat), accumulate text 0 first = .ok total →
      ∀ byte, isDigit byte = true → total * 10 + (byte.toNat - 0xF0) < 0x8000000000000000)
    ∧ ∀ rc : Int32, let left := leftBy (Sim.Service.resultOf none rc)
      evalNumber left.length left.data = .ok rc := by
  refine ⟨fun length data v => evalNumber_eq_ok_iff, ?_, ?_, fun rc => evalNumber_resultOf rc⟩
  · intro H _ length data outDd rexxRc s hnone
    cases hread : evalNumber length data with
    | ok v => exact absurd ⟨v, evalNumber_eq_ok_iff.mp hread⟩ hnone
    | error flaw =>
        refine ⟨flaw, rfl, ?_⟩
        unfold ExecCapture.collect
        rw [if_neg (by decide), hread]
        rfl
  · exact fun text first total hfirst byte hdigit => accumulate_room hfirst hdigit

/-- The least fullword with a zero in front; the same digits without the
sign are one too many. -/
theorem evalNumber_accepts_numbers_least :
    let least : Bytes :=
      [0x60, 0xF0, 0xF2, 0xF1, 0xF4, 0xF7, 0xF4, 0xF8, 0xF3, 0xF6, 0xF4, 0xF8, 0x00]
    evalNumber 12 least = .ok (-0x80000000)
      ∧ evalNumber 11 (least.drop 1) = .error (.overflow "02147483648") := by
  intro least
  refine ⟨?_, by decide +kernel⟩
  refine (evalNumber_accepts_numbers.1 12 least (-0x80000000)).mpr ⟨by decide, by decide, ?_⟩
  have hdigits : ((least.drop 1).dropLast.all fun byte => decide (0xF0 ≤ byte ∧ byte ≤ 0xF9))
      = true := by decide
  simp only [List.all_eq_true, decide_eq_true_eq] at hdigits
  exact ⟨true, (least.drop 1).dropLast, by decide, hdigits, by decide, by decide⟩

end TsoBridge.ExecArea
