/-
Letter case. Names, verbs and keywords are compared in one case; only the
letters A to Z have one here, every other character stands for itself.
-/

namespace TsoBridge.Text

/-- `s` with the letters a to z in upper case. -/
def upper (s : String) : String :=
  String.ofList (s.toList.map Char.toUpper)

/-- `s` with the letters A to Z in lower case. -/
def lower (s : String) : String :=
  String.ofList (s.toList.map Char.toLower)

/-- Whether two texts differ at most in the case of their letters. -/
def sameLetters (s t : String) : Bool :=
  upper s == upper t

theorem toList_upper (s : String) : (upper s).toList = s.toList.map Char.toUpper :=
  String.toList_ofList

/-- Only letters of the first 128 code points have another case. -/
theorem toUpper_of_ge {c : Char} (h : 128 ≤ c.toNat) : c.toUpper = c := by
  unfold Char.toUpper
  rw [dif_neg]
  rintro ⟨-, hz⟩
  have hnat : c.toNat ≤ 122 := UInt32.le_iff_toNat_le.mp hz
  omega

/-- What holds of the first 128 code points and their upper case, and of
every later one and itself, holds of every character and its upper case. -/
theorem toUpper_cases {P : Char → Char → Prop}
    (hlow : ∀ n < 128, P (Char.ofNat n) (Char.ofNat n).toUpper)
    (hhigh : ∀ c : Char, 128 ≤ c.toNat → P c c) (c : Char) : P c c.toUpper := by
  by_cases h : c.toNat < 128
  · have := hlow c.toNat h
    rwa [Char.ofNat_toNat] at this
  · rw [toUpper_of_ge (Nat.not_lt.mp h)]
    exact hhigh c (Nat.not_lt.mp h)

theorem toUpper_toUpper (c : Char) : c.toUpper.toUpper = c.toUpper :=
  toUpper_cases (P := fun _ d => d.toUpper = d) (by decide +kernel) (fun _ => toUpper_of_ge) c

/-- A text without letters in lower case stays as it is. -/
theorem upper_of_fixed {s : String} (h : ∀ c ∈ s.toList, c.toUpper = c) : upper s = s := by
  apply String.toList_inj.mp
  rw [toList_upper, List.map_congr_left h, List.map_id']

/-- A text is put in upper case once. -/
theorem upper_upper (s : String) : upper (upper s) = upper s := by
  apply String.toList_inj.mp
  rw [toList_upper, toList_upper, List.map_map]
  exact List.map_congr_left fun c _ => toUpper_toUpper c

end TsoBridge.Text
