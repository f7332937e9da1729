/-
Generated names over a whole run of the generator. A name stands for one
value of the counter and every name of the right form for some value
(`generated_iff`), so what there is to say about names is said about the
counter.

The counter goes round: from any value it runs up to the largest, starts
again at 1 and comes back (`counter_advance`). A round has one name for
every value, which is why names repeat no sooner than a round later, and
why a search of one round passes every name there is
(`exists_nth_of_generated`). The search for a name that is not live is such
a search, and fails only if all of them are live (`freshFrom_eq`).
-/
import Mathlib.Data.List.Induction
import Mathlib.Logic.Function.Iterate
import TsoBridge.Proofs.AllocationCall

namespace TsoBridge
namespace NameGenerator

variable {names : NameGenerator} {name : DdName} {n m : Nat}

-- ================================================================== digits

/-- The digits of base 36 are distinct. -/
theorem alphabet_injective :
    ∀ i < 36, ∀ j < 36, alphabet.getD i '0' = alphabet.getD j '0' → i = j := by
  decide +kernel

theorem alphabet_index {c : Char} (h : c ∈ alphabet) : ∃ i < 36, alphabet.getD i '0' = c := by
  obtain ⟨i, hi, rfl⟩ := List.getElem_of_mem h
  exact ⟨i, hi, List.getD_eq_getElem alphabet '0' hi⟩

/-- A number is written in these digits. -/
theorem digits_alphabet {width : Nat} : ∀ c ∈ digits width n, c ∈ alphabet := by
  induction width generalizing n with
  | zero => simp [digits]
  | succ width ih =>
      intro c hc
      unfold digits at hc
      rcases List.mem_append.mp hc with hfront | hlast
      · exact ih c hfront
      · have hindex : n % 36 < alphabet.length := Nat.mod_lt n (by decide)
        rw [List.mem_singleton.mp hlast, List.getD_eq_getElem alphabet '0' hindex]
        exact List.getElem_mem hindex

/-- Numbers with the same digits are the same. -/
theorem digits_injective {width : Nat} (hn : n < 36 ^ width) (hm : m < 36 ^ width)
    (h : digits width n = digits width m) : n = m := by
  induction width generalizing n m with
  | zero =>
      rw [Nat.pow_zero] at hn hm
      omega
  | succ width ih =>
      unfold digits at h
      rw [Nat.pow_succ'] at hn hm
      obtain ⟨hfront, hlast⟩ := List.append_inj h (by rw [length_digits, length_digits])
      have hhigh : n / 36 = m / 36 :=
        ih (Nat.div_lt_of_lt_mul hn) (Nat.div_lt_of_lt_mul hm) hfront
      have hlow : n % 36 = m % 36 :=
        alphabet_injective _ (Nat.mod_lt n (by decide)) _ (Nat.mod_lt m (by decide))
          (List.cons.inj hlast).1
      omega

/-- All digits are those of a number. -/
theorem digits_surjective (ds : List Char) (h : ∀ d ∈ ds, d ∈ alphabet) :
    ∃ n < 36 ^ ds.length, digits ds.length n = ds := by
  induction ds using List.reverseRecOn with
  | nil => exact ⟨0, Nat.one_pos, rfl⟩
  | append_singleton front last ih =>
      obtain ⟨high, hhigh, hfront⟩ := ih fun d hd => h d (List.mem_append_left _ hd)
      obtain ⟨low, hlow, hlast⟩ :=
        alphabet_index (h last (List.mem_append_right _ (List.mem_singleton_self last)))
      refine ⟨36 * high + low, ?_, ?_⟩
      · rw [List.length_append, List.length_singleton, Nat.pow_succ']
        omega
      · rw [List.length_append, List.length_singleton]
        unfold digits
        rw [show (36 * high + low) / 36 = high by omega, show (36 * high + low) % 36 = low by omega,
          hfront, hlast]

-- =================================================================== names

/-- `LUZ` and five digits to the base 36 that are not all zero. -/
structure Generated (name : DdName) : Prop where
  form : ∃ ds : List Char, ds.length = 5 ∧ (∀ d ∈ ds, d ∈ alphabet)
    ∧ name.text = "LUZ" ++ String.ofList ds
  nonzero : name.text ≠ "LUZ00000"

theorem text_nameOf (value : Nat) :
    (nameOf value).text = "LUZ" ++ String.ofList (digits 5 value) := by
  have hletters : "LUZ".toList = ['L', 'U', 'Z'] := by decide
  apply String.toList_inj.mp
  unfold nameOf letters
  simp only [String.toList_append, String.toList_ofList, hletters]

/-- Different counter values have different names. -/
theorem nameOf_injective (hn : n < space) (hm : m < space) (h : nameOf n = nameOf m) : n = m := by
  have htext := congrArg DdName.text h
  rw [text_nameOf, text_nameOf, String.append_right_inj] at htext
  exact digits_injective hn hm (String.ofList_injective htext)

/-- The names of the right form are those of the values of the counter. -/
theorem generated_iff :
    Generated name ↔ ∃ value, 0 < value ∧ value < space ∧ nameOf value = name := by
  have hzero : (nameOf 0).text = "LUZ00000" := by decide +kernel
  constructor
  · rintro ⟨⟨ds, hlength, halphabet, htext⟩, hnonzero⟩
    obtain ⟨value, hvalue, hdigits⟩ := digits_surjective ds halphabet
    rw [hlength] at hvalue hdigits
    have hname : nameOf value = name := by
      rw [← hdigits, ← text_nameOf] at htext
      exact DdName.ext htext.symm
    refine ⟨value, Nat.pos_of_ne_zero fun hvalue0 => hnonzero ?_, hvalue, hname⟩
    rw [← hname, hvalue0, hzero]
  · rintro ⟨value, hpos, hvalue, rfl⟩
    refine ⟨⟨digits 5 value, length_digits 5 value, digits_alphabet, text_nameOf value⟩, ?_⟩
    intro htext
    have hsame : nameOf value = nameOf 0 := by
      rw [← hzero] at htext
      exact DdName.ext htext
    have := nameOf_injective hvalue (by decide) hsame
    omega

-- ================================================================== rounds

/-- The generator after a number of names. -/
def advance (count : Nat) (names : NameGenerator) : NameGenerator :=
  (fun names => names.next.2)^[count] names

/-- The name that is given out after a number of names. -/
def nth (count : Nat) (names : NameGenerator) : DdName :=
  (names.advance count).next.1

theorem advance_succ (count : Nat) (names : NameGenerator) :
    names.advance (count + 1) = (names.advance count).next.2 :=
  Function.iterate_succ_apply' _ count names

/-- Advancing twice is advancing by the sum. -/
theorem advance_add (first second : Nat) (names : NameGenerator) :
    names.advance (first + second) = (names.advance second).advance first :=
  Function.iterate_add_apply _ first second names

/-- The names of an advanced generator are later names of the first. -/
theorem nth_add (first second : Nat) (names : NameGenerator) :
    names.nth (first + second) = (names.advance second).nth first := by
  unfold nth
  rw [advance_add]

/-- A counter with one of its values. -/
def InRange (names : NameGenerator) : Prop :=
  0 < names.counter ∧ names.counter < space

/-- A generator starts within its range, wherever it is told to start. -/
theorem inRange_startingAt (start : Nat) : (startingAt start).InRange := by
  unfold startingAt InRange
  split
  · exact ⟨Nat.one_pos, by decide⟩
  · next h =>
    simp only [Bool.or_eq_true, decide_eq_true_eq, not_or] at h
    exact ⟨Nat.pos_of_ne_zero h.1, Nat.lt_of_not_le h.2⟩

/-- Whatever the counter was, it has one of its values after a name. -/
theorem inRange_next (names : NameGenerator) : names.next.2.InRange := by
  unfold next InRange
  dsimp only
  split
  · exact ⟨Nat.one_pos, by decide⟩
  · omega

/-- It stays there. -/
theorem InRange.advance (h : names.InRange) (count : Nat) : (names.advance count).InRange := by
  cases count with
  | zero => exact h
  | succ count =>
      rw [advance_succ]
      exact inRange_next _

/-- The counter over one round. -/
theorem counter_advance (h : names.InRange) {count : Nat} (hcount : count < space) :
    (names.advance count).counter
      = if names.counter + count < space then names.counter + count
        else names.counter + count - (space - 1) := by
  obtain ⟨hpos, hlt⟩ := h
  induction count with
  | zero =>
      rw [Nat.add_zero, if_pos hlt]
      rfl
  | succ count ih =>
      rw [advance_succ]
      unfold next
      dsimp only
      rw [ih (by omega)]
      split_ifs <;> omega

/-- So every name it gives is generated from such a value. -/
theorem nth_generated (h : names.InRange) (count : Nat) : Generated (names.nth count) := by
  obtain ⟨hpos, hlt⟩ := h.advance count
  exact generated_iff.mpr ⟨_, hpos, hlt, rfl⟩

/-- No name comes twice in a round. -/
theorem nth_ne (h : names.InRange) {i j : Nat} (hlt : i < j) (hround : j < i + (space - 1)) :
    names.nth i ≠ names.nth j := by
  intro heq
  have hi := h.advance i
  have hj := h.advance j
  have hcounter := nameOf_injective hi.2 hj.2 heq
  obtain ⟨gap, rfl⟩ : ∃ gap, j = gap + i := ⟨j - i, by omega⟩
  rw [advance_add, counter_advance hi (by omega)] at hcounter
  split_ifs at hcounter <;> omega

/-- Every name comes in a round. -/
theorem exists_nth_of_generated (h : names.InRange) (hname : Generated name) :
    ∃ count < space - 1, names.nth count = name := by
  obtain ⟨hpos, hlt⟩ := h
  obtain ⟨value, hvalue, hbelow, rfl⟩ := generated_iff.mp hname
  by_cases hle : names.counter ≤ value
  · refine ⟨value - names.counter, by omega, congrArg nameOf ?_⟩
    rw [counter_advance ⟨hpos, hlt⟩ (by omega), if_pos (by omega)]
    omega
  · refine ⟨value + (space - 1) - names.counter, by omega, congrArg nameOf ?_⟩
    rw [counter_advance ⟨hpos, hlt⟩ (by omega), if_neg (by omega)]
    omega

end NameGenerator

-- ============================================================= live names

namespace Bindings

open NameGenerator

/-- The search ends at a name that is not live, or every name it tried
is live. -/
theorem freshFrom_eq (live : Table DdName Unit) (fuel : Nat) (names : NameGenerator) :
    ∃ count, freshFrom live fuel names = (names.nth count, names.advance (count + 1))
      ∧ (live.contains (names.nth count) = true →
        ∀ tried < fuel, live.contains (names.nth tried) = true) := by
  induction fuel generalizing names with
  | zero => exact ⟨0, rfl, fun _ tried htried => absurd htried (Nat.not_lt_zero tried)⟩
  | succ fuel ih =>
      unfold freshFrom
      simp only
      split
      · next hlive =>
        obtain ⟨count, hfresh, htried⟩ := ih names.next.2
        refine ⟨count + 1, hfresh, fun h tried hlt => ?_⟩
        cases tried with
        | zero => exact hlive
        | succ tried => exact htried h tried (Nat.lt_of_succ_lt_succ hlt)
      · next hlive => exact ⟨0, rfl, fun h => absurd h hlive⟩

/-- Whatever state the search starts in, it tries every generated name. -/
theorem fresh_ends (bindings : Bindings) :
    ∃ count, fresh bindings
        = (.ok (bindings.names.nth count),
          { bindings with names := bindings.names.advance (count + 1) })
      ∧ (bindings.isLive (bindings.names.nth count) = true →
        ∀ name, Generated name → bindings.isLive name = true) := by
  obtain ⟨count, hfresh, htried⟩ := freshFrom_eq bindings.live NameGenerator.space bindings.names
  refine ⟨count, ?_, fun hlive name hname => ?_⟩
  · unfold fresh
    rw [hfresh]
  · -- the first name may be of no counter value; the round starts behind it
    obtain ⟨behind, hbehind, rfl⟩ :=
      exists_nth_of_generated (inRange_next bindings.names) hname
    exact htried hlive (behind + 1) (by omega)

/-- Generated names have their form and are accepted, and any 36^5 - 1 of
them in a row are all there are, each once; behind the largest comes the
first. A name is taken from the generator for a new binding, and it is not
live unless all of them are. -/
theorem generated_names (start : Nat) :
    (∀ i, Generated ((startingAt start).nth i)
        ∧ Name.checkDdname ((startingAt start).nth i).text = .ok ())
    ∧ (∀ i j, i < j → j < i + (36 ^ 5 - 1) →
        (startingAt start).nth i ≠ (startingAt start).nth j)
    ∧ (∀ i name, Generated name →
        ∃ count < 36 ^ 5 - 1, (startingAt start).nth (i + count) = name)
    ∧ (∀ i, ((startingAt start).nth i).text = "LUZZZZZZ" →
        ((startingAt start).nth (i + 1)).text = "LUZ00001")
    ∧ ∀ bindings : Bindings, ∃ count,
        fresh bindings = (.ok (bindings.names.nth count),
          { bindings with names := bindings.names.advance (count + 1) })
        ∧ (bindings.isLive (bindings.names.nth count) = true →
          ∀ name, Generated name → bindings.isLive name = true) := by
  have hrange := inRange_startingAt start
  refine ⟨fun i => ?_, fun i j hlt hround => ?_, fun i name hname => ?_, fun i hlast => ?_,
    fresh_ends⟩
  · have hname := nth_generated hrange i
    refine ⟨hname, ?_⟩
    unfold Name.checkDdname
    rw [DdName.flawless]
  · exact nth_ne hrange hlt hround
  · obtain ⟨count, hcount, rfl⟩ := exists_nth_of_generated (hrange.advance i) hname
    refine ⟨count, hcount, ?_⟩
    rw [Nat.add_comm, nth_add]
  · have hlargest : (nameOf (space - 1)).text = "LUZZZZZZ" := by decide +kernel
    have hcounter : ((startingAt start).advance i).counter = space - 1 := by
      refine nameOf_injective (hrange.advance i).2 (by decide) (DdName.ext ?_)
      exact hlast.trans hlargest.symm
    have hfirst : ((startingAt start).advance (i + 1)).counter = 1 := by
      rw [advance_succ]
      unfold next
      rw [hcounter]
      rfl
    show (nameOf ((startingAt start).advance (i + 1)).counter).text = _
    rw [hfirst]
    decide +kernel

theorem generated_names_wrap :
    ((startingAt 60466175).nth 0).text = "LUZZZZZZ"
      ∧ ((startingAt 60466175).nth 1).text = "LUZ00001" := by
  have hlast : ((startingAt 60466175).nth 0).text = "LUZZZZZZ" := by decide +kernel
  exact ⟨hlast, (generated_names 60466175).2.2.2.1 0 hlast⟩

end Bindings
end TsoBridge
