/-
Generated DD names: `LUZ` and a counter in five digits to the base 36.
The counter runs from 1 to the largest value of five digits and starts
again at 1, so the name with all digits zero is never used.
-/
import TsoBridge.Name.Basic

namespace TsoBridge

/-- The next value of the counter. -/
structure NameGenerator where
  counter : Nat := 1
deriving DecidableEq

namespace NameGenerator

/-- The digits to the base 36. -/
def alphabet : List Char :=
  "0123456789ABCDEFGHIJKLMNOPQRSTUVWXYZ".toList

/-- The number of values of five digits. -/
def space : Nat := 36 * 36 * 36 * 36 * 36

/-- The `width` low-order digits of a number. -/
def digits : Nat → Nat → List Char
  | 0, _ => []
  | width + 1, n => digits width (n / 36) ++ [alphabet.getD (n % 36) '0']

/-- A number is written in exactly `width` digits. -/
theorem length_digits (width n : Nat) : (digits width n).length = width := by
  induction width generalizing n with
  | zero => rfl
  | succ width ih =>
      unfold digits
      rw [List.length_append, ih, List.length_singleton]

/-- The digits are characters of names, in upper case. -/
theorem digits_part {width n : Nat} :
    ∀ c ∈ digits width n, Name.isPart c = true ∧ c.toUpper = c := by
  have hdigit : ∀ i < 36, Name.isPart (alphabet.getD i '0') = true
      ∧ (alphabet.getD i '0').toUpper = alphabet.getD i '0' := by
    decide +kernel
  induction width generalizing n with
  | zero => simp [digits]
  | succ width ih =>
      intro c hc
      unfold digits at hc
      rcases List.mem_append.mp hc with hfront | hlast
      · exact ih c hfront
      · rw [List.mem_singleton.mp hlast]
        exact hdigit (n % 36) (Nat.mod_lt n (by decide))

/-- The characters of the name of a counter value. -/
def letters (value : Nat) : List Char :=
  ['L', 'U', 'Z'] ++ digits 5 value

/-- The letters of a generated name are those of a name in upper case. -/
theorem letters_part {value : Nat} :
    ∀ c ∈ letters value, Name.isPart c = true ∧ c.toUpper = c := by
  have hfront : ∀ c ∈ ['L', 'U', 'Z'], Name.isPart c = true ∧ c.toUpper = c := by
    simp only [List.forall_mem_cons, List.not_mem_nil, false_implies, implies_true, and_true]
    decide
  intro c hc
  rcases List.mem_append.mp hc with h | h
  · exact hfront c h
  · exact digits_part c h

/-- The name of a counter value. -/
def nameOf (value : Nat) : DdName where
  text := String.ofList (letters value)
  flawless := by
    rw [Name.ddnameFlaw?_eq_none_iff, String.toList_ofList]
    refine ⟨?_, fun c hc => (letters_part c hc).1, 'L', rfl, by decide⟩
    unfold letters
    rw [List.length_append, length_digits]
    decide
  upper := Text.upper_of_fixed fun c hc =>
    (letters_part c (String.toList_ofList ▸ hc)).2

/-- A generator that starts with the given value, or with 1 if that is no
counter value. -/
def startingAt (counter : Nat) : NameGenerator :=
  if counter = 0 || space ≤ counter then { counter := 1 } else { counter }

/-- The next name. -/
def next (names : NameGenerator) : DdName × NameGenerator :=
  (nameOf names.counter,
   { counter := if space ≤ names.counter + 1 then 1 else names.counter + 1 })

end NameGenerator
end TsoBridge
