/-
Tokens and what stands between them. A scan that has left every quote and
every parenthesis is where it was at the start, whatever it read: so a
token that closes what it opens is read the same wherever it stands
(`Token.scan_whole`), and a row of such tokens is read back as these tokens
whatever separators stand between them (`Token.tokens_row`).

The blanks that are cut off a text are separators too where a token starts
and ends with no blank, so cutting them off changes nothing
(`Command.tokensOf_row`).
-/
import Mathlib.Data.List.Basic
import TsoBridge.Proofs.Verb

namespace TsoBridge

variable {current cs rest lead gap token : List Char} {parts : List (List Char × List Char)}

namespace Token

variable {position : Position}

-- ========================================================= in the middle

/-- A run of separators. -/
def Gap (cs : List Char) : Prop :=
  ∀ c ∈ cs, isSeparator c = true

instance : Decidable (Gap cs) :=
  decidable_of_iff (cs.all isSeparator = true) List.all_eq_true

/-- Where a scan stands after some characters. -/
def Position.past (position : Position) (cs : List Char) : Position :=
  cs.foldl Position.after position

/-- A scan that comes from `position` finds no separator in a text. -/
def Unbroken (position : Position) : List Char → Prop
  | [] => True
  | c :: rest => position.separates c = false ∧ Unbroken (position.after c) rest

theorem unbroken_append :
    Unbroken position (cs ++ rest) ↔ Unbroken position cs ∧ Unbroken (position.past cs) rest := by
  induction cs generalizing position with
  | nil => exact (iff_of_eq (true_and _)).symm
  | cons c cs ih => exact (and_congr_right fun _ => ih).trans and_assoc.symm

/-- What holds no separator goes to the token at hand. -/
theorem scan_unbroken (h : Unbroken position cs) :
    scan position current (cs ++ rest) = scan (position.past cs) (cs.reverse ++ current) rest := by
  induction cs generalizing position current with
  | nil => rfl
  | cons c cs ih =>
      rw [List.cons_append, scan, h.1, if_neg Bool.false_ne_true, ih h.2, List.reverse_cons,
        List.append_assoc]
      rfl

/-- A character that means nothing to a scan. -/
def Ordinary (c : Char) : Prop :=
  isSeparator c = false ∧ isQuote c = false ∧ c ≠ '(' ∧ c ≠ ')'

theorem Ordinary.after {c : Char} (h : Ordinary c) (position : Position) :
    position.separates c = false ∧ (position.quote = none → position.after c = position) := by
  obtain ⟨hseparator, hquote, hopen, hclose⟩ := h
  constructor
  · unfold Position.separates
    rw [hseparator, Bool.and_false]
  · intro hnone
    unfold Position.after
    simp [hnone, hquote, hopen, hclose]

/-- Ordinary characters outside quotes leave a scan where it is. -/
theorem unbroken_ordinary (position : Position) (h : ∀ c ∈ cs, Ordinary c)
    (hquote : position.quote = none) :
    Unbroken position cs ∧ position.past cs = position := by
  induction cs with
  | nil => exact ⟨trivial, rfl⟩
  | cons c cs ih =>
      obtain ⟨hsame, hstays⟩ := (h c List.mem_cons_self).after position
      have hrest := ih fun d hd => h d (List.mem_cons_of_mem _ hd)
      unfold Unbroken Position.past
      rw [List.foldl_cons, hstays hquote]
      exact ⟨⟨hsame, hrest.1⟩, hrest.2⟩

/-- So do characters in a quote, until the quote ends. -/
theorem unbroken_quoted (position : Position) {quote : Char} (hne : quote ∉ cs)
    (hquote : position.quote = some quote) :
    Unbroken position cs ∧ position.past cs = position := by
  induction cs with
  | nil => exact ⟨trivial, rfl⟩
  | cons c cs ih =>
      rw [List.mem_cons, not_or] at hne
      have hrest := ih hne.2
      have hstays : position.after c = position := by
        unfold Position.after
        rw [hquote]
        exact if_neg (by simpa using Ne.symm hne.1)
      have hsame : position.separates c = false := by
        unfold Position.separates
        rw [hquote]
        rfl
      unfold Unbroken Position.past
      rw [List.foldl_cons, hstays]
      exact ⟨⟨hsame, hrest.1⟩, hrest.2⟩

-- ========================================================== whole tokens

/-- A text that is one token wherever separators stand around it: it holds
no separator and closes what it opens. -/
structure Whole (token : List Char) : Prop where
  nonempty : token ≠ []
  unbroken : Unbroken {} token
  closed : Position.past {} token = {}

theorem separates_start {c : Char} (h : isSeparator c = true) :
    Position.separates {} c = true :=
  h

theorem scan_gap (h : Gap gap) : scan {} [] (gap ++ rest) = scan {} [] rest := by
  induction gap with
  | nil => rfl
  | cons c gap ih =>
      rw [List.cons_append, scan, separates_start (h c List.mem_cons_self), if_pos rfl,
        ih fun d hd => h d (List.mem_cons_of_mem _ hd)]
      rfl

/-- A token is read as it stands, at the end of the text or where it has
closed what it opened and a separator follows. -/
theorem scan_token (hne : token ≠ []) (hunbroken : Unbroken {} token)
    (hends : ∀ c ∈ rest.head?, isSeparator c = true ∧ Position.past {} token = {}) :
    scan {} [] (token ++ rest) = token :: scan {} [] rest := by
  have hclose : close (token.reverse ++ []) = [token] := by
    unfold close
    rw [List.append_nil, List.reverse_reverse, if_neg]
    simpa using hne
  rw [scan_unbroken hunbroken]
  cases rest with
  | nil => exact hclose
  | cons c rest =>
      obtain ⟨hseparator, hclosed⟩ := hends c rfl
      rw [hclosed, scan, separates_start hseparator, if_pos rfl, hclose]
      show token :: scan {} [] rest = token :: scan {} [] (c :: rest)
      rw [scan, separates_start hseparator, if_pos rfl]
      rfl

/-- A whole token is read as it stands, at the end of the text or where a
separator follows. -/
theorem scan_whole (htoken : Whole token) (hgap : Gap gap) (hends : gap = [] → rest = []) :
    scan {} [] (token ++ gap ++ rest) = token :: scan {} [] rest := by
  rw [List.append_assoc, scan_token htoken.nonempty htoken.unbroken, scan_gap hgap]
  intro c hc
  cases gap with
  | nil =>
      rw [hends rfl] at hc
      cases hc
  | cons d gap =>
      cases hc
      exact ⟨hgap c List.mem_cons_self, htoken.closed⟩

-- ================================================================== rows

/-- Tokens in a row, each with what stands behind it. -/
def row (parts : List (List Char × List Char)) : List Char :=
  parts.flatMap fun part => part.1 ++ part.2

/-- Tokens that are whole in a row with separators between them. -/
structure Spaced (parts : List (List Char × List Char)) : Prop where
  whole : ∀ part ∈ parts, Whole part.1
  gaps : ∀ part ∈ parts, Gap part.2
  apart : ∀ part ∈ parts.dropLast, part.2 ≠ []

/-- A row is read back as its tokens, whatever separators stand in front of
it and between them. -/
theorem tokens_row (hlead : Gap lead) (h : Spaced parts) :
    tokens (lead ++ row parts) = parts.map Prod.fst := by
  unfold tokens
  rw [scan_gap hlead]
  induction parts with
  | nil => rfl
  | cons part parts ih =>
      have hrow : row (part :: parts) = part.1 ++ part.2 ++ row parts := List.flatMap_cons
      have hends : part.2 = [] → row parts = [] := by
        intro hnone
        cases parts with
        | nil => rfl
        | cons next later => exact absurd hnone (h.apart part List.mem_cons_self)
      have hrest : Spaced parts := by
        refine ⟨fun other hother => h.whole other (List.mem_cons_of_mem _ hother),
          fun other hother => h.gaps other (List.mem_cons_of_mem _ hother), fun other hother => ?_⟩
        cases parts with
        | nil => cases hother
        | cons next later => exact h.apart other (List.mem_cons_of_mem _ hother)
      rw [hrow, scan_whole (h.whole part List.mem_cons_self) (h.gaps part List.mem_cons_self) hends,
        ih hrest, List.map_cons]

end Token

-- ============================================================== trimming

namespace Text

theorem dropWhile_append_of_head? {p : Char → Bool} {lead cs : List Char}
    (h : cs.dropWhile p = cs) : (lead ++ cs).dropWhile p = lead.dropWhile p ++ cs := by
  rw [List.dropWhile_append]
  split
  · next hempty => rw [List.isEmpty_iff.mp hempty, List.nil_append, h]
  · rfl

theorem mem_of_mem_trimmed {c : Char} {cs : List Char} (h : c ∈ trimmed cs) : c ∈ cs := by
  rw [trimmed, List.mem_reverse] at h
  have hback := (List.dropWhile_sublist _).mem h
  rw [List.mem_reverse] at hback
  exact (List.dropWhile_sublist _).mem hback

/-- Blanks are cut off on both sides of a part without blanks at its
ends. -/
theorem trimmed_middle {core : List Char} (hne : core ≠ []) (htight : Tight core)
    (lead trail : List Char) :
    trimmed (lead ++ (core ++ trail))
      = lead.dropWhile isBlank ++ (core ++ (trail.reverse.dropWhile isBlank).reverse) := by
  have hfront : (core ++ trail).dropWhile isBlank = core ++ trail := by
    refine dropWhile_of_head? fun c hc => htight.1 c ?_
    rwa [List.head?_append_of_ne_nil _ hne] at hc
  have hback : (core.reverse ++ (lead.dropWhile isBlank).reverse).dropWhile isBlank
      = core.reverse ++ (lead.dropWhile isBlank).reverse := by
    refine dropWhile_of_head? fun c hc => htight.2 c ?_
    rwa [List.head?_append_of_ne_nil _ (by simpa using hne), List.head?_reverse] at hc
  unfold trimmed
  rw [dropWhile_append_of_head? hfront, List.reverse_append, List.reverse_append,
    List.append_assoc, dropWhile_append_of_head? hback]
  simp

/-- What is cut off a text stands around its part without blanks at the
ends. -/
theorem trimmed_around {core : List Char} (hne : core ≠ []) (htight : Tight core)
    (lead trail : List Char) :
    ∃ front back, front <:+ lead ∧ back <+: trail
      ∧ trimmed (lead ++ (core ++ trail)) = front ++ (core ++ back) := by
  refine ⟨_, _, List.dropWhile_suffix _, ?_, trimmed_middle hne htight lead trail⟩
  rw [← List.reverse_suffix, List.reverse_reverse]
  exact List.dropWhile_suffix _

end Text

-- ---------------------------------------------------- rows at the ends

namespace Token

theorem row_concat (token gap : List Char) :
    row (parts ++ [(token, gap)]) = row parts ++ token ++ gap := by
  unfold row
  rw [List.flatMap_append, List.flatMap_singleton, List.append_assoc]

/-- A row up to its last token has no blanks at the ends. -/
theorem row_tight (hparts : ∀ part ∈ parts, part.1 ≠ [] ∧ Text.Tight part.1)
    (hne : token ≠ []) (htight : Text.Tight token) : Text.Tight (row parts ++ token) := by
  constructor
  · cases parts with
    | nil => exact htight.1
    | cons part parts =>
        obtain ⟨hsome, hpart⟩ := hparts part List.mem_cons_self
        intro c hc
        refine hpart.1 c ?_
        rwa [row, List.flatMap_cons, List.append_assoc, List.append_assoc,
          List.head?_append_of_ne_nil _ hsome] at hc
  · intro c hc
    rw [List.getLast?_append_of_ne_nil _ hne] at hc
    exact htight.2 c hc

/-- What stands behind the last token of a row can be any run of
separators. -/
theorem Spaced.ending {other : List Char} (h : Spaced (parts ++ [(token, gap)]))
    (hother : Gap other) : Spaced (parts ++ [(token, other)]) := by
  constructor
  · intro part hpart
    rcases List.mem_append.mp hpart with hfront | hlast
    · exact h.whole part (List.mem_append_left _ hfront)
    · rw [List.mem_singleton.mp hlast]
      exact h.whole (token, gap) (List.mem_append_right _ List.mem_cons_self)
  · intro part hpart
    rcases List.mem_append.mp hpart with hfront | hlast
    · exact h.gaps part (List.mem_append_left _ hfront)
    · rw [List.mem_singleton.mp hlast]
      exact hother
  · intro part hpart
    rw [List.dropLast_concat] at hpart
    exact h.apart part (by rwa [List.dropLast_concat])

end Token

/-- The tokens of a text are those of the row that it is. -/
theorem Command.tokensOf_row (hlead : Token.Gap lead) (h : Token.Spaced parts)
    (htight : ∀ part ∈ parts, Text.Tight part.1) :
    tokensOf (String.ofList (lead ++ Token.row parts)) = parts.map Prod.fst := by
  unfold tokensOf
  rw [String.toList_ofList]
  rcases List.eq_nil_or_concat' parts with rfl | ⟨front, ⟨token, gap⟩, rfl⟩
  · -- only separators, and what is left of them
    have hleft : Token.Gap (Text.trimmed lead) := fun c hc => hlead c (Text.mem_of_mem_trimmed hc)
    have hnone := Token.tokens_row hleft h
    rw [show Token.row [] = [] from rfl, List.append_nil] at hnone ⊢
    exact hnone
  · have hlast : (token, gap) ∈ front ++ [(token, gap)] :=
      List.mem_append_right _ List.mem_cons_self
    have hfront : ∀ part ∈ front, part.1 ≠ [] ∧ Text.Tight part.1 := fun part hpart =>
      ⟨(h.whole part (List.mem_append_left _ hpart)).nonempty,
        htight part (List.mem_append_left _ hpart)⟩
    have hne := (h.whole _ hlast).nonempty
    obtain ⟨before, behind, hbefore, hbehind, htrimmed⟩ := Text.trimmed_around
      (List.append_ne_nil_of_right_ne_nil (Token.row front) hne)
      (Token.row_tight hfront hne (htight _ hlast)) lead gap
    have hended : Token.Spaced (front ++ [(token, behind)]) :=
      h.ending fun c hc => h.gaps _ hlast c (hbehind.subset hc)
    rw [Token.row_concat, htrimmed, ← Token.row_concat,
      Token.tokens_row (fun c hc => hlead c (hbefore.subset hc)) hended]
    simp

end TsoBridge
