/-
What the tokens of a text are, said without a scan. A separator counts
where it stands outside quotes and with no parenthesis open (`Outside`);
the tokens are what is left of a text between the separators that count.

# Where a scan stands

A scan carries the quote it is in and the number of open parentheses. It
is outside quotes exactly behind a text of which every quoted part is
closed (`outside_iff`), so a position of the scan can be read off the
characters before it, and a separator counts exactly where the scan takes
it for one (`separates_iff`).

# Where a token starts

A token starts behind a separator that counts, or behind nothing, and in
both cases the scan stands where it stood at the start of the text. So what
comes before a token does not matter to it, however unbalanced the text is
as a whole, and any rendering of the tokens is read back as these tokens
(`tokens_eq_iff`).

# Blanks at the ends of a command

A command is cut off at the blanks around it before it is scanned. Blanks
are more than separators: where the first token starts with one, as a line
feed is, it goes with the blanks in front of it, unless a comma keeps it.
Only there do the separators matter to what is read.
-/
import Mathlib.Data.List.Induction
import TsoBridge.Proofs.Spacing

namespace TsoBridge

variable {before cs lead rest text token : List Char} {tokens : List (List Char)}
  {parts : List (List Char × List Char)}

namespace Token

variable {depth : Nat}

-- ======================================================= outside quotes

/-- Characters that end outside quotes, with `depth` parentheses open. A
quoted text is passed over as a whole, and a closing parenthesis without
an opening one counts for nothing. -/
inductive Outside : List Char → Nat → Prop where
  | start : Outside [] 0
  | ordinary {cs : List Char} {depth : Nat} {c : Char} (h : Outside cs depth)
      (hquote : isQuote c = false) (hopen : c ≠ '(') (hclose : c ≠ ')') :
      Outside (cs ++ [c]) depth
  | opening {cs : List Char} {depth : Nat} (h : Outside cs depth) :
      Outside (cs ++ ['(']) (depth + 1)
  | closing {cs : List Char} {depth : Nat} (h : Outside cs depth) :
      Outside (cs ++ [')']) (depth - 1)
  | quoted {cs body : List Char} {depth : Nat} {quote : Char} (h : Outside cs depth)
      (hquote : isQuote quote = true) (hbody : quote ∉ body) :
      Outside (cs ++ (quote :: body ++ [quote])) depth

theorem past_append (position : Position) (cs rest : List Char) :
    position.past (cs ++ rest) = (position.past cs).past rest :=
  List.foldl_append

theorem past_concat (position : Position) (cs : List Char) (c : Char) :
    position.past (cs ++ [c]) = (position.past cs).after c :=
  past_append position cs [c]

/-- A quote that opens. -/
theorem after_quote {quote : Char} (hquote : isQuote quote = true) :
    Position.after { depth } quote = { quote := some quote, depth } := by
  unfold Position.after
  simp [hquote]

/-- The same quote closes it. -/
theorem after_same_quote (quote : Char) :
    Position.after { quote := some quote, depth } quote = { depth } := by
  unfold Position.after
  simp

theorem Outside.past (h : Outside cs depth) : Position.past {} cs = { depth } := by
  induction h with
  | start => rfl
  | ordinary h hquote hopen hclose ih =>
      rw [past_concat, ih]
      unfold Position.after
      simp [hquote, hopen, hclose]
  | opening h ih =>
      rw [past_concat, ih]
      rfl
  | closing h ih =>
      rw [past_concat, ih]
      rfl
  | @quoted cs body depth quote h hquote hbody ih =>
      have hinside := (unbroken_quoted { quote := some quote, depth } hbody rfl).2
      rw [past_append, past_concat, ih]
      show ((Position.after { depth } quote).past body).after quote = _
      rw [after_quote hquote, hinside, after_same_quote]

/-- A scan stands outside quotes, or behind a quote that is not closed yet
and was opened outside. -/
theorem stands (cs : List Char) :
    (∃ depth, Position.past {} cs = { depth } ∧ Outside cs depth)
      ∨ ∃ before quote body depth, cs = before ++ quote :: body ∧ isQuote quote = true
        ∧ quote ∉ body ∧ Outside before depth
        ∧ Position.past {} cs = { quote := some quote, depth } := by
  induction cs using List.reverseRecOn with
  | nil => exact .inl ⟨0, rfl, .start⟩
  | append_singleton cs c ih =>
      rw [past_concat]
      rcases ih with ⟨depth, hpast, houtside⟩
        | ⟨before, quote, body, depth, rfl, hquote, hbody, houtside, hpast⟩
      · rw [hpast]
        cases hc : isQuote c with
        | true =>
            refine .inr ⟨cs, c, [], depth, rfl, hc, List.not_mem_nil, houtside, ?_⟩
            exact after_quote hc
        | false =>
            left
            by_cases hopen : c = '('
            · subst hopen
              exact ⟨depth + 1, rfl, houtside.opening⟩
            · by_cases hclose : c = ')'
              · subst hclose
                exact ⟨depth - 1, rfl, houtside.closing⟩
              · refine ⟨depth, ?_, houtside.ordinary hc hopen hclose⟩
                unfold Position.after
                simp [hc, hopen, hclose]
      · rw [hpast]
        by_cases hsame : c = quote
        · subst hsame
          refine .inl ⟨depth, after_same_quote c, ?_⟩
          rw [List.append_assoc]
          exact houtside.quoted hquote hbody
        · refine .inr ⟨before, quote, body ++ [c], depth, by simp, hquote, ?_, houtside, ?_⟩
          · simpa [hbody] using Ne.symm hsame
          · unfold Position.after
            simp [hsame]

theorem outside_iff : Outside cs depth ↔ Position.past {} cs = { depth } := by
  constructor
  · exact Outside.past
  · intro h
    rcases stands cs with ⟨other, hpast, houtside⟩ | ⟨_, quote, _, other, _, _, _, _, hpast⟩
    · rw [h] at hpast
      cases hpast
      exact houtside
    · rw [h] at hpast
      cases hpast

instance : Decidable (Outside cs depth) :=
  decidable_of_iff _ outside_iff.symm

/-- A scan takes a character for a separator exactly where one counts. -/
theorem separates_iff {c : Char} :
    (Position.past {} before).separates c = true ↔ isSeparator c = true ∧ Outside before 0 := by
  rw [outside_iff]
  generalize Position.past {} before = position
  obtain ⟨quote, depth⟩ := position
  unfold Position.separates
  cases quote with
  | none => simp [and_comm]
  | some quote => simp

/-- A character that separates leaves a scan where it is. -/
theorem after_of_separates {position : Position} {c : Char} (h : position.separates c = true) :
    position.after c = position := by
  unfold Position.separates at h
  rw [Bool.and_eq_true, Bool.and_eq_true] at h
  obtain ⟨⟨hquote, -⟩, hseparator⟩ := h
  have hmeans : isQuote c = false ∧ (c == '(') = false ∧ (c == ')') = false := by
    unfold isSeparator at hseparator
    rw [Bool.or_eq_true, Bool.or_eq_true, beq_iff_eq, beq_iff_eq, beq_iff_eq] at hseparator
    rcases hseparator with (rfl | rfl) | rfl
    · decide
    · decide
    · decide
  unfold Position.after
  rw [Option.isNone_iff_eq_none.mp hquote]
  simp [hmeans]

-- ============================================================== the rest

/-- The characters of a text but for the separators that count. -/
def kept (text : List Char) : List Char :=
  (text.zipIdx.filter fun entry =>
    decide (¬(isSeparator entry.1 = true ∧ Outside (text.take entry.2) 0))).map Prod.fst

/-- What a scan keeps of a text it is in the middle of. -/
theorem flatten_scan (before current rest : List Char) :
    (scan (Position.past {} before) current rest).flatten
      = current.reverse ++ ((rest.zipIdx before.length).filter fun entry =>
        decide (¬(isSeparator entry.1 = true
          ∧ Outside ((before ++ rest).take entry.2) 0))).map Prod.fst := by
  induction rest generalizing before current with
  | nil =>
      unfold scan close
      cases current with
      | nil => rfl
      | cons c current => simp
  | cons c rest ih =>
      have hnext := ih (before ++ [c])
      rw [List.append_assoc, List.length_append, List.length_singleton, List.singleton_append,
        past_concat] at hnext
      have hhere : (before ++ c :: rest).take before.length = before := List.take_left
      rw [scan, List.zipIdx_cons, List.filter_cons, hhere]
      by_cases hseparates : (Position.past {} before).separates c = true
      · rw [after_of_separates hseparates] at hnext
        have hclose : (close current).flatten = current.reverse := by
          unfold close
          cases current with
          | nil => rfl
          | cons d current => simp
        rw [if_pos hseparates, List.flatten_append, hclose, hnext,
          if_neg (by simpa using separates_iff.mp hseparates)]
        rfl
      · rw [if_neg hseparates, hnext, if_pos (decide_eq_true (mt separates_iff.mpr hseparates))]
        simp

theorem flatten_tokens (text : List Char) : (Token.tokens text).flatten = kept text :=
  flatten_scan [] [] text

-- ============================================================ renderings

/-- A token: some characters among which no separator counts. -/
structure IsToken (token : List Char) : Prop where
  nonempty : token ≠ []
  unbroken : ∀ before c after, token = before ++ c :: after → isSeparator c = true →
    ¬Outside before 0

/-- A text in which tokens stand one after the other: separators in front
of each, and where another character follows a token, that is a separator
and counts. -/
inductive Renders : List (List Char) → List Char → Prop where
  | nil {gap : List Char} (hgap : Gap gap) : Renders [] gap
  | cons {gap token rest : List Char} {tokens : List (List Char)} (hgap : Gap gap)
      (htoken : IsToken token)
      (hends : ∀ c ∈ rest.head?, isSeparator c = true ∧ Outside token 0)
      (hrest : Renders tokens rest) : Renders (token :: tokens) (gap ++ token ++ rest)

theorem unbroken_iff (position : Position) : Unbroken position cs ↔
    ∀ before c after, cs = before ++ c :: after → (position.past before).separates c = false := by
  induction cs generalizing position with
  | nil => simp [Unbroken]
  | cons d cs ih =>
      unfold Unbroken
      rw [ih]
      constructor
      · rintro ⟨hfirst, hrest⟩ before c after heq
        cases before with
        | nil =>
            cases heq
            exact hfirst
        | cons e before =>
            cases heq
            exact hrest before c after rfl
      · intro h
        exact ⟨h [] d cs rfl, fun before c after heq => h (d :: before) c after (by rw [heq]; rfl)⟩

theorem isToken_iff : IsToken token ↔ token ≠ [] ∧ Unbroken {} token := by
  rw [unbroken_iff]
  have hsame : ∀ before c, (Position.past {} before).separates c = false
      ↔ (isSeparator c = true → ¬Outside before 0) := by
    intro before c
    rw [← Bool.not_eq_true, separates_iff, not_and]
  simp only [hsame]
  exact ⟨fun h => ⟨h.nonempty, h.unbroken⟩, fun h => ⟨h.1, h.2⟩⟩

/-- More separators in front change nothing. -/
theorem Renders.behind (hlead : Gap lead) (h : Renders tokens text) :
    Renders tokens (lead ++ text) := by
  have hgap : ∀ {gap}, Gap gap → Gap (lead ++ gap) := fun hgap c hc =>
    (List.mem_append.mp hc).elim (hlead c) (hgap c)
  cases h with
  | nil hinner => exact .nil (hgap hinner)
  | cons hinner htoken hends hrest =>
      rw [← List.append_assoc, ← List.append_assoc]
      exact .cons (hgap hinner) htoken hends hrest

/-- What a scan makes of a text it has a token of in hand. -/
theorem renders_scan {current : List Char} (hcurrent : Unbroken {} current.reverse) :
    Renders (scan (Position.past {} current.reverse) current rest) (current.reverse ++ rest) := by
  induction rest generalizing current with
  | nil =>
      unfold scan close
      rw [List.append_nil]
      cases current with
      | nil => exact .nil fun _ h => absurd h List.not_mem_nil
      | cons c current =>
          have htoken : IsToken (c :: current).reverse := isToken_iff.mpr ⟨by simp, hcurrent⟩
          have hrow : Renders [(c :: current).reverse] ([] ++ (c :: current).reverse ++ []) :=
            .cons (fun _ h => absurd h List.not_mem_nil) htoken (fun _ h => by cases h)
              (.nil fun _ h => absurd h List.not_mem_nil)
          simpa using hrow
  | cons c rest ih =>
      rw [scan]
      cases hseparates : (Position.past {} current.reverse).separates c with
      | true =>
          -- behind a separator that counts the scan stands as at the start
          obtain ⟨hseparator, hclosed⟩ := separates_iff.mp hseparates
          have hgap : Gap [c] := fun d hd => List.mem_singleton.mp hd ▸ hseparator
          have hrest : Renders (scan {} [] rest) rest := @ih [] trivial
          have hlater : Renders (scan {} [] rest) ([c] ++ rest) := hrest.behind hgap
          rw [if_pos rfl, outside_iff.mp hclosed]
          unfold close
          cases current with
          | nil => exact hlater
          | cons d current =>
              have htoken : IsToken (d :: current).reverse := isToken_iff.mpr ⟨by simp, hcurrent⟩
              have hnone : Gap [] := fun _ h => absurd h List.not_mem_nil
              refine .cons hnone htoken ?_ hlater
              intro e he
              cases he
              exact ⟨hseparator, hclosed⟩
      | false =>
          have hnext : Unbroken {} (c :: current).reverse := by
            rw [List.reverse_cons, unbroken_append]
            exact ⟨hcurrent, hseparates, trivial⟩
          have hlater := ih hnext
          rw [List.reverse_cons, past_concat, List.append_assoc] at hlater
          exact hlater

/-- The tokens of a rendering are the tokens that were rendered. -/
theorem Renders.tokens_eq (h : Renders tokens text) : Token.tokens text = tokens := by
  unfold Token.tokens
  induction h with
  | @nil gap hgap =>
      rw [← List.append_nil gap, scan_gap hgap]
      rfl
  | cons hgap htoken hends hrest ih =>
      obtain ⟨hne, hunbroken⟩ := isToken_iff.mp htoken
      rw [List.append_assoc, scan_gap hgap, scan_token hne hunbroken, ih]
      intro c hc
      exact ⟨(hends c hc).1, outside_iff.mp (hends c hc).2⟩

/-- The tokens of a text are those it renders. -/
theorem tokens_eq_iff : Token.tokens text = tokens ↔ Renders tokens text := by
  constructor
  · rintro rfl
    exact @renders_scan text [] trivial
  · exact Renders.tokens_eq

-- =============================================================== joining

/-- Tokens that are joined: any separators in front, some behind each token
and none behind the last. -/
structure Joined (tokens : List (List Char)) (lead : List Char)
    (parts : List (List Char × List Char)) : Prop where
  lead : Gap lead
  tokens : parts.map Prod.fst = tokens
  gaps : ∀ part ∈ parts, Gap part.2
  apart : ∀ part ∈ parts.dropLast, part.2 ≠ []
  ends : ∀ part ∈ parts.getLast?, part.2 = []

/-- Tokens that a text renders have closed what they opened, up to the
last. -/
theorem Renders.closed (h : Renders tokens text) :
    (∀ token ∈ tokens, IsToken token) ∧ ∀ token ∈ tokens.dropLast, Outside token 0 := by
  induction h with
  | nil _ => exact ⟨fun _ h => absurd h List.not_mem_nil, fun _ h => absurd h List.not_mem_nil⟩
  | @cons gap token rest tokens hgap htoken hends hrest ih =>
      constructor
      · intro other hother
        rcases List.mem_cons.mp hother with rfl | hlater
        · exact htoken
        · exact ih.1 other hlater
      · cases hrest with
        | nil _ => exact fun _ h => absurd h List.not_mem_nil
        | @cons gap next rest later hgap' hnext _ _ =>
            -- a token follows, and so does a character
            have hsome : gap ++ next ++ rest ≠ [] := by simp [hnext.nonempty]
            obtain ⟨c, behind, heq⟩ := List.exists_cons_of_ne_nil hsome
            have hc : c ∈ (gap ++ next ++ rest).head? := by rw [heq]; rfl
            intro other hother
            rw [List.dropLast_cons_cons] at hother
            rcases List.mem_cons.mp hother with rfl | hlater
            · exact (hends c hc).2
            · exact ih.2 other hlater

/-- Tokens are rendered by what they are joined to. -/
theorem Joined.renders (h : Joined tokens lead parts)
    (htokens : ∀ token ∈ tokens, IsToken token)
    (hclosed : ∀ token ∈ tokens.dropLast, Outside token 0) :
    Renders tokens (lead ++ row parts) := by
  obtain ⟨hlead, rfl, hgaps, hapart, hends⟩ := h
  induction parts generalizing lead with
  | nil =>
      rw [show row [] = [] from rfl, List.append_nil]
      exact .nil hlead
  | cons part parts ih =>
      have hrow : row (part :: parts) = part.1 ++ (part.2 ++ row parts) := by
        unfold row
        rw [List.flatMap_cons, List.append_assoc]
      have hpart : IsToken part.1 := htokens _ List.mem_cons_self
      have hgap : Gap part.2 := hgaps part List.mem_cons_self
      rw [hrow, ← List.append_assoc, List.map_cons]
      cases parts with
      | nil =>
          rw [hends part rfl]
          exact .cons hlead hpart (fun _ h => by cases h) (.nil fun _ h => absurd h List.not_mem_nil)
      | cons next later =>
          refine .cons hlead hpart (fun c hc => ?_) ?_
          · obtain ⟨d, gap, hsome⟩ := List.exists_cons_of_ne_nil (hapart part List.mem_cons_self)
            rw [hsome] at hc hgap
            cases hc
            exact ⟨hgap c List.mem_cons_self, hclosed _ List.mem_cons_self⟩
          · apply ih hgap
            · exact fun other hother => hgaps other (List.mem_cons_of_mem _ hother)
            · exact fun other hother => hapart other (List.mem_cons_of_mem _ hother)
            · exact fun other hother => hends other hother
            · exact fun token htoken => htokens token (List.mem_cons_of_mem _ htoken)
            · exact fun token htoken => hclosed token (List.mem_cons_of_mem _ htoken)

/-- The tokens of a text, joined in any way, are read back. -/
theorem Joined.tokens_eq (h : Joined (Token.tokens text) lead parts) :
    Token.tokens (lead ++ row parts) = Token.tokens text := by
  obtain ⟨htokens, hclosed⟩ := (tokens_eq_iff.mp (Eq.refl (Token.tokens text))).closed
  exact (h.renders htokens hclosed).tokens_eq

end Token

-- =============================================================== commands

namespace Text

/-- At a text that ends in no blank only those in front are cut off. -/
theorem trimmed_of_last (h : ∀ c ∈ cs.getLast?, isBlank c = false) :
    trimmed cs = cs.dropWhile isBlank := by
  unfold trimmed
  rw [dropWhile_of_head?, List.reverse_reverse]
  intro c hc
  rw [List.head?_reverse] at hc
  -- the last character that is left is the last of all
  obtain ⟨front, hfront⟩ := List.dropWhile_suffix (l := cs) isBlank
  apply h c
  rw [← hfront, Option.mem_def, List.getLast?_append, Option.mem_def.mp hc]
  rfl

/-- Of the separators in front of a text only blanks are cut off, and of
the text nothing, if it starts with no blank or a comma stands before it. -/
theorem dropWhile_lead {body : List Char}
    (h : ∀ c ∈ body.head?, isBlank c = true → ',' ∈ lead) :
    (lead ++ body).dropWhile isBlank = lead.dropWhile isBlank ++ body := by
  by_cases hcomma : ',' ∈ lead
  · rw [List.dropWhile_append, if_neg]
    intro hempty
    have hblank := List.dropWhile_eq_nil_iff.mp (List.isEmpty_iff.mp hempty) ',' hcomma
    exact absurd hblank (by decide)
  · apply dropWhile_append_of_head?
    apply dropWhile_of_head?
    intro c hc
    rw [← Bool.not_eq_true]
    exact fun hblank => hcomma (h c hc hblank)

end Text

namespace Command

/-- The tokens of a command, joined in any way that leaves no blank of
theirs at the ends of the text, are the tokens of that text. -/
theorem tokensOf_joined {text : String} (h : Token.Joined (tokensOf text) lead parts)
    (hfirst : ∀ c ∈ (Token.row parts).head?, Text.isBlank c = true → ',' ∈ lead)
    (hlast : ∀ c ∈ (Token.row parts).getLast?, Text.isBlank c = false) :
    tokensOf (String.ofList (lead ++ Token.row parts)) = tokensOf text := by
  unfold tokensOf
  rw [String.toList_ofList]
  rcases List.eq_nil_or_concat' (Token.row parts) with hnone | ⟨front, last, hsome⟩
  · -- only separators, of which some are left
    have hleft : Token.Joined (tokensOf text) (Text.trimmed lead) parts :=
      { h with lead := fun c hc => h.lead c (Text.mem_of_mem_trimmed hc) }
    have htokens := hleft.tokens_eq
    rw [hnone, List.append_nil] at htokens ⊢
    exact htokens
  · have hends : ∀ c ∈ (lead ++ Token.row parts).getLast?, Text.isBlank c = false := by
      intro c hc
      rw [List.getLast?_append_of_ne_nil _ (by simp [hsome])] at hc
      exact hlast c hc
    rw [Text.trimmed_of_last hends, Text.dropWhile_lead hfirst]
    have hleft : Token.Joined (tokensOf text) (lead.dropWhile Text.isBlank) parts :=
      { h with lead := fun c hc => h.lead c ((List.dropWhile_sublist _).mem hc) }
    exact hleft.tokens_eq

-- ================================================================ theorem

/-- Every token has characters, the tokens together are the text but for
the separators that count, they are the only tokens it renders, and joined
by any separators they are read back. What is read of a command is read of
its tokens joined by any separators, unless the blanks that are cut off at
the ends of the text are part of a token. -/
theorem separators_immaterial :
    (∀ text, (∀ token ∈ Token.tokens text, token ≠ [])
        ∧ (Token.tokens text).flatten = Token.kept text
        ∧ (∀ tokens, Token.tokens text = tokens ↔ Token.Renders tokens text)
        ∧ ∀ lead parts, Token.Joined (Token.tokens text) lead parts →
          Token.tokens (lead ++ Token.row parts) = Token.tokens text)
      ∧ ∀ text lead parts, Token.Joined (tokensOf text) lead parts →
        (∀ c ∈ (Token.row parts).head?, Text.isBlank c = true → ',' ∈ lead) →
        (∀ c ∈ (Token.row parts).getLast?, Text.isBlank c = false) →
        let joined := String.ofList (lead ++ Token.row parts)
        verb joined = verb text ∧ parse joined = parse text
          ∧ ofOperands joined = ofOperands text := by
  constructor
  · intro text
    obtain ⟨htokens, -⟩ := (Token.tokens_eq_iff.mp (Eq.refl (Token.tokens text))).closed
    refine ⟨fun token htoken => (htokens token htoken).nonempty, Token.flatten_tokens text,
      fun tokens => Token.tokens_eq_iff, fun lead parts h => h.tokens_eq⟩
  · intro text lead parts h hfirst hlast joined
    have htokens : tokensOf joined = tokensOf text := tokensOf_joined h hfirst hlast
    refine ⟨?_, ?_, ?_⟩
    · unfold verb
      rw [htokens]
    · unfold parse
      rw [htokens]
    · unfold ofOperands
      rw [htokens]

/-- A text that closes what it never opened and leaves a quote open, and a
command with separators in quotes and in parentheses. -/
theorem separators_immaterial_unbalanced :
    let unbalanced := "A)) 'B ,C".toList
    let rest := [("A))".toList, [',', '\t']), ("'B ,C".toList, [])]
    let lead := [',', '\t']
    let parts := [("SEND".toList, ['\t', ',']), ("'A, B'".toList, [' ', ' ']),
      ("USER(I, J)".toList, [])]
    let joined := String.ofList (lead ++ Token.row parts)
    Token.Joined (Token.tokens unbalanced) [','] rest
      ∧ Token.tokens ([','] ++ Token.row rest) = Token.tokens unbalanced
      ∧ Token.Joined (tokensOf "SEND 'A, B' USER(I, J)") lead parts
      ∧ (∀ c ∈ (Token.row parts).head?, Text.isBlank c = true → ',' ∈ lead)
      ∧ (∀ c ∈ (Token.row parts).getLast?, Text.isBlank c = false)
      ∧ verb joined = "SEND" ∧ parse joined = parse "SEND 'A, B' USER(I, J)" := by
  intro unbalanced rest lead parts joined
  have hrest : Token.Joined (Token.tokens unbalanced) [','] rest :=
    ⟨by decide, by decide +kernel, by decide, by decide, by decide⟩
  have hsend : Token.Joined (tokensOf "SEND 'A, B' USER(I, J)") lead parts :=
    ⟨by decide, by decide +kernel, by decide, by decide, by decide⟩
  have hfirst : ∀ c ∈ (Token.row parts).head?, Text.isBlank c = true → ',' ∈ lead := by
    intro c _ _
    exact List.mem_cons_self
  have hlast : ∀ c ∈ (Token.row parts).getLast?, Text.isBlank c = false := by
    have hparen : (Token.row parts).getLast? = some ')' := by decide +kernel
    intro c hc
    rw [hparen] at hc
    cases hc
    rfl
  obtain ⟨htext, hcommand⟩ := separators_immaterial
  obtain ⟨-, -, -, hread⟩ := htext unbalanced
  obtain ⟨hverb, hparse, -⟩ := hcommand _ lead parts hsend hfirst hlast
  have hname : verb "SEND 'A, B' USER(I, J)" = "SEND" := by decide +kernel
  exact ⟨hrest, hread _ _ hrest, hsend, hfirst, hlast, hverb.trans hname, hparse⟩

/-- One token, a line feed in front of the verb, joined to the blank and to
the comma: the blank takes the line feed with it. -/
theorem blank_token_cut :
    let token := "\nTIME".toList
    Token.tokens token = [token]
      ∧ Token.Joined [token] [' '] [(token, [])] ∧ Token.Joined [token] [','] [(token, [])]
      ∧ verb (String.ofList ([' '] ++ Token.row [(token, [])])) = "TIME"
      ∧ verb (String.ofList ([','] ++ Token.row [(token, [])])) = "\nTIME" := by
  intro token
  refine ⟨by decide +kernel, ?_, ?_, by decide +kernel, by decide +kernel⟩
  · exact ⟨by decide, rfl, by decide, by decide, by decide⟩
  · exact ⟨by decide, rfl, by decide, by decide, by decide⟩

end Command
end TsoBridge
