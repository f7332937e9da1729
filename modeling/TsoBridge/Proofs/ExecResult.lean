/-
The result of an exec on its way through the evaluation block. An exec
leaves its return code as a decimal number in the host's code, at the
front of a block of zeros, with the number of its bytes. Whatever the code
is, the engine reads it back (`evalNumber_leftBy`): a number of a signed
fullword has at most eleven bytes, and adding up the digits of `n` stays
at or below `n`, so never leaves the fullword on the way.
-/
import Mathlib.Data.List.Basic
import TsoBridge.Proofs.CodePage
import TsoBridge.ControlBlock.Exec

namespace TsoBridge.ExecArea

-- =============================================================== digits

theorem digit_code : ∀ d < 10, isDigit (CodePage.ofChar d.digitChar) = true
    ∧ (CodePage.ofChar d.digitChar).toNat - CodePage.zero.toNat = d
    ∧ CodePage.ofChar d.digitChar ≠ CodePage.minus := by
  decide +kernel

theorem accumulate_append (text : String) (magnitude : Nat) (first second : Bytes) :
    accumulate text magnitude (first ++ second)
      = accumulate text magnitude first >>= fun total => accumulate text total second := by
  induction first generalizing magnitude with
  | nil => rfl
  | cons byte rest ih =>
      rw [List.cons_append, accumulate, accumulate]
      split
      · rfl
      · simp only
        split
        · rfl
        · exact ih _

/-- One more digit. -/
theorem accumulate_digit (text : String) {magnitude d : Nat} (hd : d < 10)
    (hlimit : magnitude * 10 + d ≤ 0x80000000) :
    accumulate text magnitude [CodePage.ofChar d.digitChar] = .ok (magnitude * 10 + d) := by
  obtain ⟨hdigit, hvalue, -⟩ := digit_code d hd
  unfold accumulate
  rw [hdigit, hvalue]
  simp only [Bool.not_true, Bool.false_eq_true, if_false]
  rw [if_neg (by omega)]
  rfl

/-- The digits of a number add up to it. -/
theorem accumulate_toDigits (text : String) {n : Nat} (hlimit : n ≤ 0x80000000) :
    accumulate text 0 ((Nat.toDigits 10 n).map CodePage.ofChar) = .ok n := by
  induction n using Nat.strongRecOn with
  | ind n ih =>
      rcases Nat.lt_or_ge n 10 with hsmall | hlarge
      · rw [Nat.toDigits_of_lt_base hsmall]
        exact (accumulate_digit text hsmall (by omega)).trans (by rw [Nat.zero_mul, Nat.zero_add])
      · have hsplit : n / 10 * 10 + n % 10 = n := by omega
        rw [Nat.toDigits_of_base_le (by decide) hlarge, List.map_append, accumulate_append,
          ih (n / 10) (by omega) (by omega)]
        show accumulate text (n / 10) [CodePage.ofChar (n % 10).digitChar] = _
        rw [accumulate_digit text (by omega) (by omega), hsplit]

theorem encode_decimal (n : Nat) :
    CodePage.encode (Text.decimal n) = (Nat.toDigits 10 n).map CodePage.ofChar := by
  have hpad : Text.padLeft 1 '0' (Nat.toDigits 10 n) = Nat.toDigits 10 n := by
    have hpos : 0 < (Nat.toDigits 10 n).length := Nat.length_toDigits_pos
    unfold Text.padLeft
    rw [Nat.sub_eq_zero_of_le hpos]
    rfl
  unfold Text.decimal Text.decimalOf CodePage.encode
  rw [hpad, String.toList_ofList]

/-- A number starts with a digit. -/
theorem head_toDigits (n : Nat) :
    ((Nat.toDigits 10 n).map CodePage.ofChar).head? ≠ some CodePage.minus := by
  induction n using Nat.strongRecOn with
  | ind n ih =>
      rcases Nat.lt_or_ge n 10 with hsmall | hlarge
      · rw [Nat.toDigits_of_lt_base hsmall]
        exact fun h => (digit_code n hsmall).2.2 (Option.some.inj h)
      · have hne : (Nat.toDigits 10 (n / 10)).map CodePage.ofChar ≠ [] := by
          rw [Ne, List.map_eq_nil_iff]
          exact Nat.toDigits_ne_nil
        rw [Nat.toDigits_of_base_le (by decide) hlarge, List.map_append,
          List.head?_append_of_ne_nil _ hne]
        exact ih (n / 10) (by omega)

-- =============================================================== result

/-- Reading a number that was left, from its sign and its digits. -/
theorem evalNumber_left (negative : Bool) {digits value : Bytes} (rest : Bytes) {n : Nat}
    (hvalue : value = if negative then CodePage.minus :: digits else digits)
    (hdigits : digits ≠ []) (hhead : digits.head? ≠ some CodePage.minus)
    (hsum : ∀ text, accumulate text 0 digits = .ok n)
    (hrange : negative = false → n ≠ 0x80000000) (hshort : value.length ≤ EvalBlock.dataSize) :
    evalNumber (Int32.ofNat value.length) (value ++ rest)
      = .ok (Int32.ofInt (if negative then -(n : Int) else n)) := by
  have hpos : 0 < value.length := by
    rw [List.length_pos_iff, hvalue]
    cases negative <;> simp [hdigits]
  have hcount : (Int32.ofNat value.length).toInt = value.length := by
    unfold EvalBlock.dataSize at hshort
    exact Int32.toInt_ofNat_of_lt (by omega)
  have hsign : ¬ Int32.ofNat value.length ≤ 0 := by
    rw [Int32.le_iff_toInt_le, hcount, Int32.toInt_zero]
    omega
  have hnegative : (value.head? == some CodePage.minus) = negative := by
    rw [hvalue]
    cases negative with
    | true => rfl
    | false => exact beq_eq_false_iff_ne.mpr hhead
  have hrest : (if negative then value.drop 1 else value) = digits := by
    rw [hvalue]
    cases negative <;> rfl
  have hfits : ¬ ((decide (EvalBlock.dataSize < value.length)
      || decide ((value ++ rest).length < value.length)) = true) := by
    simp
    omega
  unfold evalNumber
  simp only [if_neg hsign, hcount, Int.toNat_natCast, if_neg hfits, List.take_left, hnegative,
    hrest, List.isEmpty_iff, if_neg hdigits, hsum]
  show (if _ then _ else _) = _
  rw [if_neg]
  cases negative with
  | true => simp
  | false => simpa using hrange rfl

theorem digits_ne_nil (n : Nat) : (Nat.toDigits 10 n).map CodePage.ofChar ≠ [] :=
  fun hnil => Nat.toDigits_ne_nil (List.map_eq_nil_iff.mp hnil)

/-- A number of a fullword has ten digits at most. -/
theorem length_digits_le {n : Nat} (h : n ≤ 0x80000000) :
    ((Nat.toDigits 10 n).map CodePage.ofChar).length ≤ 10 := by
  rw [List.length_map, Nat.length_toDigits_le_iff (by decide) (by decide)]
  omega

theorem encode_minus (s : String) :
    CodePage.encode ("-" ++ s) = CodePage.minus :: CodePage.encode s := by
  have hcode : CodePage.ofChar '-' = CodePage.minus := by decide +kernel
  unfold CodePage.encode
  rw [String.toList_append, show "-".toList = ['-'] from rfl, List.singleton_append, List.map_cons,
    hcode]

/-- A number of a fullword, as it is left by an exec. -/
theorem encode_signedDecimal {i : Int} (hmin : -0x80000000 ≤ i) (hmax : i < 0x80000000) :
    ∃ negative n, i = (if negative then -(n : Int) else n) ∧ n ≤ 0x80000000
      ∧ (negative = false → n ≠ 0x80000000)
      ∧ CodePage.encode (Text.signedDecimal i)
        = if negative then CodePage.minus :: (Nat.toDigits 10 n).map CodePage.ofChar
          else (Nat.toDigits 10 n).map CodePage.ofChar := by
  cases i with
  | ofNat n =>
      rw [Int.ofNat_eq_natCast] at hmax
      exact ⟨false, n, rfl, by omega, fun _ => by omega, encode_decimal n⟩
  | negSucc n =>
      refine ⟨true, n + 1, ?_, by omega, (fun h => by cases h), ?_⟩
      · rw [if_pos rfl, Int.negSucc_eq, Int.natCast_succ]
      · rw [if_pos rfl, ← encode_decimal]
        exact encode_minus _

/-- What the evaluation block holds after a length and bytes were left in
it: as many of the bytes as fit, and the zeros behind them. -/
def leftBy (left : Int32 × Bytes) : EvalResult :=
  { length := left.1
    data := left.2.take EvalBlock.dataSize
      ++ List.replicate (EvalBlock.dataSize - (left.2.take EvalBlock.dataSize).length) 0 }

/-- The return code of an exec is read back from the digits it left. -/
theorem evalNumber_leftBy {i : Int} (hmin : -0x80000000 ≤ i) (hmax : i < 0x80000000) {left : Int32 × Bytes}
    (hleft : left = (Int32.ofNat (CodePage.encode (Text.signedDecimal i)).length,
      CodePage.encode (Text.signedDecimal i))) :
    evalNumber (leftBy left).length (leftBy left).data = .ok (Int32.ofInt i) := by
  obtain ⟨negative, n, rfl, hlimit, hrange, hvalue⟩ := encode_signedDecimal hmin hmax
  have hshort : left.2.length ≤ EvalBlock.dataSize := by
    have hdigits := length_digits_le hlimit
    rw [hleft, hvalue]
    cases negative with
    | true => exact Nat.le_trans (Nat.succ_le_succ hdigits) (by decide)
    | false => exact Nat.le_trans hdigits (by decide)
  unfold leftBy
  rw [List.take_of_length_le hshort]
  subst hleft
  exact evalNumber_left negative _ hvalue (digits_ne_nil n) (head_toDigits n)
    (fun text => accumulate_toDigits text hlimit) hrange hshort

end TsoBridge.ExecArea
