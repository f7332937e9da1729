/-
What sequences are cut into. `split` cuts at every separator: a separator
ends a part (`split_append_sep`), no part holds one (`free_of_mem_split`),
and there is one part more than there are separators (`length_split`).
`cut` cuts at the first.

Lines are such parts, so any lines without a line feed in them are the
lines of some text (`lines_joined`), and the lines of a text are of that
kind (`feedless_of_mem_lines`).
-/
import Mathlib.Data.List.Infix
import Mathlib.Data.List.TakeWhile
import TsoBridge.Text.Line

namespace TsoBridge.Text

variable {α : Type} {sep : α → Bool}

-- ================================================================= parts

theorem split_ne_nil (xs : List α) : split sep xs ≠ [] := by
  cases xs with
  | nil => exact List.cons_ne_nil _ _
  | cons x rest =>
      unfold split
      split
      · exact List.cons_ne_nil _ _
      · split
        · exact List.cons_ne_nil _ _
        · exact List.cons_ne_nil _ _

/-- A separator ends the part in front of it. -/
theorem split_cons_sep {x : α} (xs : List α) (h : sep x = true) :
    split sep (x :: xs) = [] :: split sep xs :=
  if_pos h

/-- Any other element belongs to the first part. -/
theorem split_cons_part {x : α} (xs : List α) (h : sep x = false) :
    ∃ part parts, split sep xs = part :: parts ∧ split sep (x :: xs) = (x :: part) :: parts := by
  cases hxs : split sep xs with
  | nil => exact absurd hxs (split_ne_nil xs)
  | cons part parts =>
      refine ⟨part, parts, rfl, ?_⟩
      rw [split, h, hxs]
      rfl

theorem split_eq_splitOnP (xs : List α) : split sep xs = xs.splitOnP sep := by
  induction xs with
  | nil => rfl
  | cons x rest ih =>
      rw [List.splitOnP_cons_eq_if_modifyHead, ← ih]
      cases hx : sep x with
      | true => exact split_cons_sep rest hx
      | false =>
          obtain ⟨part, parts, hrest, hcons⟩ := split_cons_part rest hx
          rw [hcons, hrest]
          rfl

/-- A separator ends a part. -/
theorem split_append_sep (xs : List α) {x : α} (rest : List α) (h : sep x = true) :
    split sep (xs ++ x :: rest) = split sep xs ++ split sep rest := by
  induction xs with
  | nil => exact split_cons_sep rest h
  | cons y ys ih =>
      rw [List.cons_append]
      cases hy : sep y with
      | true => rw [split_cons_sep _ hy, split_cons_sep _ hy, ih, List.cons_append]
      | false =>
          obtain ⟨part, parts, hys, hcons⟩ := split_cons_part ys hy
          obtain ⟨part', parts', hboth, hcons'⟩ := split_cons_part (ys ++ x :: rest) hy
          rw [hboth, hys, List.cons_append] at ih
          obtain ⟨rfl, rfl⟩ := List.cons.inj ih
          rw [hcons, hcons', List.cons_append]

/-- Where nothing separates there is one part. -/
theorem split_of_free {xs : List α} (h : ∀ x ∈ xs, sep x = false) : split sep xs = [xs] := by
  induction xs with
  | nil => rfl
  | cons x rest ih =>
      have hrest := ih fun y hy => h y (List.mem_cons_of_mem _ hy)
      obtain ⟨part, parts, hparts, hcons⟩ := split_cons_part rest (h x List.mem_cons_self)
      rw [hrest] at hparts
      obtain ⟨rfl, rfl⟩ := List.cons.inj hparts
      exact hcons

/-- There is one part more than there are separators. -/
theorem length_split (xs : List α) : (split sep xs).length = xs.countP sep + 1 := by
  induction xs with
  | nil => rfl
  | cons x rest ih =>
      cases hx : sep x with
      | true => rw [split_cons_sep rest hx, List.length_cons, ih, List.countP_cons_of_pos hx]
      | false =>
          obtain ⟨part, parts, hrest, hcons⟩ := split_cons_part rest hx
          rw [hrest] at ih
          rw [hcons, List.countP_cons_of_neg (Bool.not_eq_true _ ▸ hx), ← ih]
          rfl

theorem split_map {f : α → α} (h : ∀ x, sep (f x) = sep x) (xs : List α) :
    split sep (xs.map f) = (split sep xs).map (List.map f) := by
  induction xs with
  | nil => rfl
  | cons x xs ih =>
      rw [List.map_cons]
      cases hx : sep x with
      | true =>
          rw [split_cons_sep _ ((h x).trans hx), split_cons_sep _ hx, ih]
          rfl
      | false =>
          obtain ⟨part, parts, hxs, hcons⟩ := split_cons_part xs hx
          obtain ⟨part', parts', hmap, hcons'⟩ := split_cons_part (xs.map f) ((h x).trans hx)
          rw [hmap, hxs, List.map_cons] at ih
          obtain ⟨rfl, rfl⟩ := List.cons.inj ih
          rw [hcons, hcons']
          rfl

/-- What is between separators is part of some piece. -/
theorem mem_split (sep : α → Bool) {x : α} {xs : List α} (h : x ∈ xs) :
    sep x = true ∨ ∃ part ∈ split sep xs, x ∈ part := by
  induction xs with
  | nil => exact absurd h List.not_mem_nil
  | cons first rest ih =>
      cases hfirst : sep first with
      | true =>
          rcases List.mem_cons.mp h with rfl | hrest
          · exact .inl hfirst
          · rw [split_cons_sep rest hfirst]
            exact (ih hrest).imp_right fun ⟨part, hpart, hx⟩ =>
              ⟨part, List.mem_cons_of_mem _ hpart, hx⟩
      | false =>
          obtain ⟨front, parts, hparts, hcons⟩ := split_cons_part rest hfirst
          rw [hcons]
          rcases List.mem_cons.mp h with rfl | hrest
          · exact .inr ⟨x :: front, List.mem_cons_self, List.mem_cons_self⟩
          · refine (ih hrest).imp_right ?_
            rintro ⟨part, hpart, hx⟩
            rw [hparts] at hpart
            rcases List.mem_cons.mp hpart with rfl | hlater
            · exact ⟨first :: part, List.mem_cons_self, List.mem_cons_of_mem _ hx⟩
            · exact ⟨part, List.mem_cons_of_mem _ hlater, hx⟩

/-- No part holds a separator. -/
theorem free_of_mem_split {xs part : List α} (h : part ∈ split sep xs) :
    ∀ x ∈ part, sep x = false := by
  induction xs generalizing part with
  | nil =>
      rw [List.mem_singleton.mp h]
      exact fun x hx => absurd hx List.not_mem_nil
  | cons first rest ih =>
      cases hfirst : sep first with
      | true =>
          rw [split_cons_sep rest hfirst] at h
          rcases List.mem_cons.mp h with rfl | hrest
          · exact fun x hx => absurd hx List.not_mem_nil
          · exact ih hrest
      | false =>
          obtain ⟨front, parts, hparts, hcons⟩ := split_cons_part rest hfirst
          rw [hcons] at h
          rw [hparts] at ih
          rcases List.mem_cons.mp h with rfl | hlater
          · rintro x (_ | ⟨_, hx⟩)
            · exact hfirst
            · exact ih List.mem_cons_self x hx
          · exact ih (List.mem_cons_of_mem _ hlater)

-- ================================================================== cuts

theorem cut_append {xs rest : List α} {c : α} (hxs : ∀ x ∈ xs, sep x = false) (hc : sep c = true) :
    cut sep (xs ++ c :: rest) = some (xs, rest) := by
  have hdrop : (xs ++ c :: rest).dropWhile (!sep ·) = c :: rest := by
    rw [List.dropWhile_append_of_pos (by simpa using hxs), List.dropWhile_cons_of_neg (by simpa)]
  have htake : (xs ++ c :: rest).takeWhile (!sep ·) = xs := by
    rw [List.takeWhile_append_of_pos (by simpa using hxs), List.takeWhile_cons_of_neg (by simpa),
      List.append_nil]
  unfold cut
  rw [hdrop, htake]

/-- What a sequence that was cut is made of. -/
theorem cut_eq_some {xs before after : List α} (h : cut sep xs = some (before, after)) :
    ∃ c, sep c = true ∧ xs = before ++ c :: after ∧ ∀ x ∈ before, sep x = false := by
  unfold cut at h
  split at h
  · cases h
  · next c rest hdrop =>
    cases h
    have hhead := List.head?_dropWhile_not (!sep ·) xs
    rw [hdrop] at hhead
    refine ⟨c, by simpa using hhead, ?_, fun x hx => ?_⟩
    · rw [← hdrop, List.takeWhile_append_dropWhile]
    · simpa using List.mem_takeWhile_imp hx

-- ================================================================= lines

/-- The text of several lines, each ended by a carriage return and a line
feed. -/
def joined (content : List String) : String :=
  String.ofList (content.flatMap fun line => line.toList ++ ['\r', '\n'])

theorem split_joined {content : List String} (h : ∀ line ∈ content, '\n' ∉ line.toList) :
    split (· == '\n') (joined content).toList
      = content.map (fun line => line.toList ++ ['\r']) ++ [[]] := by
  unfold joined
  rw [String.toList_ofList]
  induction content with
  | nil => rfl
  | cons line rest ih =>
      have hfree : ∀ c ∈ line.toList ++ ['\r'], (c == '\n') = false := by
        intro c hc
        rcases List.mem_append.mp hc with hline | hreturn
        · exact beq_eq_false_iff_ne.mpr fun heq => h line List.mem_cons_self (heq ▸ hline)
        · rw [List.mem_singleton.mp hreturn]
          decide
      have hcons : (line :: rest).flatMap (fun line => line.toList ++ ['\r', '\n'])
          = (line.toList ++ ['\r'])
            ++ '\n' :: rest.flatMap fun line => line.toList ++ ['\r', '\n'] := by
        rw [List.flatMap_cons, List.append_assoc, List.append_assoc]
        rfl
      rw [hcons, split_append_sep _ _ rfl, split_of_free hfree,
        ih fun other hother => h other (List.mem_cons_of_mem _ hother)]
      rfl

/-- Lines without a line feed are the lines of their text. -/
theorem lines_joined {content : List String} (h : ∀ line ∈ content, '\n' ∉ line.toList) :
    lines (joined content) = content := by
  have hchop : ∀ line : String, String.ofList (chopReturn (line.toList ++ ['\r'])) = line := by
    intro line
    unfold chopReturn
    rw [List.getLast?_concat, if_pos rfl, List.dropLast_concat, String.ofList_toList]
  unfold lines
  simp only [split_joined h, List.getLast?_concat, List.dropLast_concat, Option.getD_some,
    List.isEmpty_nil, if_true, List.map_map]
  refine (List.map_congr_left fun line _ => ?_).trans (List.map_id _)
  exact hchop line

/-- No line of a text holds a line feed. -/
theorem feedless_of_mem_lines {text line : String} (h : line ∈ lines text) :
    '\n' ∉ line.toList := by
  have hpart : ∀ part ∈ split (· == '\n') text.toList, '\n' ∉ part := fun part hpart hfeed =>
    Bool.false_ne_true (free_of_mem_split hpart _ hfeed).symm
  have hended : ∀ part ∈ split (· == '\n') text.toList, '\n' ∉ chopReturn part := by
    intro part hmem hfeed
    unfold chopReturn at hfeed
    split at hfeed
    · exact hpart part hmem (List.mem_of_mem_dropLast hfeed)
    · exact hpart part hmem hfeed
  have hmap : ∀ line ∈ (split (· == '\n') text.toList).dropLast.map
      (fun line => String.ofList (chopReturn line)), '\n' ∉ line.toList := by
    intro line hline
    obtain ⟨part, hmem, rfl⟩ := List.mem_map.mp hline
    rw [String.toList_ofList]
    exact hended part (List.mem_of_mem_dropLast hmem)
  unfold lines at h
  simp only at h
  split at h
  · exact hmap line h
  · rcases List.mem_append.mp h with hfront | hlast
    · exact hmap line hfront
    · rw [List.mem_singleton.mp hlast, String.toList_ofList]
      cases hget : (split (· == '\n') text.toList).getLast? with
      | none => exact List.not_mem_nil
      | some final => exact hpart final (List.mem_of_getLast? hget)

end TsoBridge.Text
