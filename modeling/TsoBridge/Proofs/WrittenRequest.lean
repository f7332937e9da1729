/-
Requests as they are written. A DD, a dataset and a status can be written
in many ways: with any of the keywords for them in any case, in any order,
with any separators between, the dataset in quotes or without
(`AllocationRequest.Written`). All of them are read as the same request.

# Why the order does not matter

What a token is read as depends on one thing that is not in it: whether
there is a word in front of it. Of the operands of a request only the bare
DD name is a word, so it has none in front, and what stands behind it is
read the same with and without a word in front (`Operand.Steady`). So the
operands of the text are those of its tokens, in some order
(`Operand.ofTokens_perm`), and a decision on operands of which no two name
the same thing does not see the order (`AllocationRequest.asks_of_perm`).
-/
import TsoBridge.Proofs.AllocationCall
import TsoBridge.Proofs.Operands
import TsoBridge.Proofs.Spacing

namespace TsoBridge

variable {text : String} {key value token rest : List Char} {operands : List Operand}

-- ================================================================ names

namespace Text

/-- A capital takes as many bytes as its letter. -/
theorem utf8Size_toUpper (c : Char) : c.toUpper.utf8Size = c.utf8Size :=
  toUpper_cases (P := fun c d => d.utf8Size = c.utf8Size) (by decide +kernel) (fun _ _ => rfl) c

/-- A text is as long in upper case. -/
theorem utf8ByteSize_upper (s : String) : (upper s).utf8ByteSize = s.utf8ByteSize := by
  have hchars : ∀ cs : List Char,
      (String.ofList (cs.map Char.toUpper)).utf8ByteSize = (String.ofList cs).utf8ByteSize := by
    intro cs
    have hcons : ∀ (c : Char) (rest : List Char),
        String.ofList (c :: rest) = String.singleton c ++ String.ofList rest := by
      intro c rest
      apply String.toList_inj.mp
      simp
    induction cs with
    | nil => rfl
    | cons c rest ih =>
        rw [List.map_cons, hcons, hcons, String.utf8ByteSize_append, String.utf8ByteSize_append,
          String.utf8ByteSize_singleton, String.utf8ByteSize_singleton, utf8Size_toUpper, ih]
  have := hchars s.toList
  rwa [String.ofList_toList] at this

end Text

/-- A dataset name is accepted in upper case if it is accepted. -/
theorem Name.dsnameFlaw?_upper {name : String} (h : dsnameFlaw? name = none) :
    dsnameFlaw? (Text.upper name) = none := by
  have hdot : ∀ c : Char, (c.toUpper == '.') = (c == '.') :=
    Text.toUpper_cases (P := fun c d => (d == '.') = (c == '.')) (by decide +kernel)
      fun _ _ => rfl
  unfold dsnameFlaw? at h ⊢
  rw [Text.utf8ByteSize_upper, Text.toList_upper, Text.split_map hdot]
  split at h
  · cases h
  · next hsize =>
    rw [if_neg hsize]
    rw [List.findSome?_eq_none_iff] at h ⊢
    intro qualifier hmem
    simp only [List.map_map, List.mem_map, Function.comp_apply] at hmem
    obtain ⟨part, hpart, rfl⟩ := hmem
    have hflawless := Option.map_eq_none_iff.mp
      (h (String.ofList part) (List.mem_map_of_mem hpart))
    have hupper := ddnameFlaw?_upper hflawless
    unfold Text.upper at hupper
    rw [String.toList_ofList] at hupper
    rw [hupper]
    rfl

/-- A character of names, or a dot, means nothing to a scan and is no
blank. -/
theorem Name.ordinary_of_isPart {c : Char} (h : isPart c = true ∨ c = '.') :
    Token.Ordinary c ∧ Text.isBlank c = false := by
  have hall : ∀ n < 128, isPart (Char.ofNat n) = true → Token.isSeparator (Char.ofNat n) = false
      ∧ Token.isQuote (Char.ofNat n) = false ∧ Char.ofNat n ≠ '(' ∧ Char.ofNat n ≠ ')'
      ∧ Text.isBlank (Char.ofNat n) = false := by
    decide +kernel
  rcases h with hpart | rfl
  · have := hall c.toNat (isPart_lt hpart)
    rw [Char.ofNat_toNat] at this
    obtain ⟨hseparator, hquote, hopen, hclose, hblank⟩ := this hpart
    exact ⟨⟨hseparator, hquote, hopen, hclose⟩, hblank⟩
  · exact ⟨⟨by decide, by decide, by decide, by decide⟩, by decide⟩

/-- What is one of some names in upper case has characters of names only. -/
theorem Name.isPart_of_upper_mem {names : List String}
    (hnames : (names.all fun name => name.toList.all isPart) = true) {word : String}
    (h : Text.upper word ∈ names) : ∀ c ∈ word.toList, isPart c = true := by
  intro c hc
  rw [← isPart_toUpper]
  refine List.all_eq_true.mp (List.all_eq_true.mp hnames _ h) _ ?_
  rw [Text.toList_upper]
  exact List.mem_map_of_mem hc

-- ======================================================= written tokens

namespace Token

/-- A keyword with a value in parentheses. -/
def keyed (key value : List Char) : List Char :=
  key ++ '(' :: (value ++ [')'])

/-- Ordinary characters make one token. -/
theorem whole_of_ordinary (hne : token ≠ []) (h : ∀ c ∈ token, Ordinary c) : Whole token := by
  obtain ⟨hunbroken, hclosed⟩ := unbroken_ordinary {} h rfl
  exact ⟨hne, hunbroken, hclosed⟩

/-- A keyword is a token if its value goes on in its parentheses and ends
there. -/
theorem whole_keyed (hkey : ∀ c ∈ key, Ordinary c)
    (hvalue : Unbroken { depth := 1 } value)
    (hback : Position.past { depth := 1 } value = { depth := 1 }) : Whole (keyed key value) := by
  obtain ⟨hunbroken, hclosed⟩ := unbroken_ordinary {} hkey rfl
  have hopen : Position.after {} '(' = { depth := 1 } := by decide
  have hclose : Position.after { depth := 1 } ')' = {} := by decide
  constructor
  · simp [keyed]
  · unfold keyed
    rw [unbroken_append, hclosed]
    refine ⟨hunbroken, by decide, ?_⟩
    rw [hopen, unbroken_append, hback]
    exact ⟨hvalue, by decide, trivial⟩
  · unfold keyed
    rw [Position.past, List.foldl_append, List.foldl_cons, List.foldl_append]
    show Position.after (Position.past (Position.after (Position.past {} key) '(') value) ')' = {}
    rw [hclosed, hopen, hback, hclose]

/-- A quoted text in parentheses goes on until its quote. -/
theorem unbroken_quoting {quote : Char} (hquote : isQuote quote = true) (hvalue : quote ∉ value) :
    Unbroken { depth := 1 } (quote :: (value ++ [quote]))
      ∧ Position.past { depth := 1 } (quote :: (value ++ [quote])) = { depth := 1 } := by
  have hopen : Position.after { depth := 1 } quote = { quote := some quote, depth := 1 } := by
    unfold Position.after
    rw [hquote]
    rfl
  have hclose : Position.after { quote := some quote, depth := 1 } quote = { depth := 1 } := by
    unfold Position.after
    simp
  obtain ⟨hunbroken, hstays⟩ :=
    unbroken_quoted { quote := some quote, depth := 1 } hvalue rfl
  constructor
  · refine ⟨rfl, ?_⟩
    rw [hopen, unbroken_append, hstays]
    exact ⟨hunbroken, rfl, trivial⟩
  · rw [Position.past, List.foldl_cons, List.foldl_append]
    show Position.after (Position.past (Position.after { depth := 1 } quote) value) quote = _
    rw [hopen, hstays, hclose]

/-- A token that does not begin with a quote is not quoted. -/
theorem isQuoted_eq_false (h : ∀ c ∈ token.head?, isQuote c = false) :
    isQuoted token = false := by
  match token, h with
  | [], _ => rfl
  | [_], _ => rfl
  | first :: second :: later, h =>
      show (isQuote first && _) = false
      rw [h first rfl, Bool.false_and]

end Token

/-- A text without blanks is tight. -/
theorem Text.tight_of_unblank (h : ∀ c ∈ token, isBlank c = false) : Tight token :=
  ⟨fun c hc => h c (List.mem_of_mem_head? hc), fun c hc => h c (List.mem_of_getLast? hc)⟩

-- ==================================================== what they are read as

namespace Operand

variable {others tokens : List (List Char)}

/-- A keyword with its value in parentheses is read as that. -/
theorem ofToken_keyed (hkey : ∀ c ∈ key, Token.Ordinary c) (value : List Char) (behind : Bool) :
    ofToken behind (Token.keyed key value)
      = .keyword (Text.upper (String.ofList key)) (Command.keywordValue (value ++ [')'])) := by
  have hquoted : Token.isQuoted (Token.keyed key value) = false := by
    refine Token.isQuoted_eq_false fun c hc => ?_
    cases key with
    | nil => cases hc; decide
    | cons first later =>
        cases hc
        exact (hkey c List.mem_cons_self).2.1
  have hcut : Text.cut (· == '(') (Token.keyed key value) = some (key, value ++ [')']) :=
    Text.cut_append (fun d hd => by simpa using (hkey d hd).2.2.1) rfl
  unfold ofToken
  rw [hquoted, if_neg Bool.false_ne_true, hcut]

/-- A word of ordinary characters is a flag if it is one of the known ones,
and otherwise if it is all letters and stands behind a word. -/
theorem ofToken_bare (htoken : ∀ c ∈ token, Token.Ordinary c) (behind : Bool) :
    ofToken behind token
      = if token.all Char.isAlpha && behind
          || Command.knownFlags.contains (Text.upper (String.ofList token))
        then .flag (Text.upper (String.ofList token))
        else .word (Text.upper (String.ofList token)) := by
  have hquoted : Token.isQuoted token = false :=
    Token.isQuoted_eq_false fun c hc => (htoken c (List.mem_of_mem_head? hc)).2.1
  have hcut : Text.cut (· == '(') token = none := by
    unfold Text.cut
    rw [List.dropWhile_eq_nil_iff.mpr fun c hc => by simpa using (htoken c hc).2.2.1]
  unfold ofToken
  rw [hquoted, if_neg Bool.false_ne_true, hcut]

/-- The value ends with its parenthesis; in quotes it is taken as it stands.
-/
theorem keywordValue_closed :
    Command.keywordValue (value ++ [')'])
      = if Token.isQuoted value then String.ofList (Token.unquote value)
        else Text.upper (Text.trim (String.ofList value)) := by
  unfold Command.keywordValue
  simp

/-- A bare value is read in upper case. -/
theorem keywordValue_bare (hvalue : ∀ c ∈ value, Token.Ordinary c ∧ Text.isBlank c = false) :
    Command.keywordValue (value ++ [')']) = Text.upper (String.ofList value) := by
  have hquoted : Token.isQuoted value = false :=
    Token.isQuoted_eq_false fun c hc => (hvalue c (List.mem_of_mem_head? hc)).1.2.1
  have htrim : Text.trim (String.ofList value) = String.ofList value := by
    unfold Text.trim
    rw [String.toList_ofList,
      Text.trimmed_of_tight (Text.tight_of_unblank fun c hc => (hvalue c hc).2)]
  rw [keywordValue_closed, hquoted, if_neg Bool.false_ne_true, htrim]

/-- A quoted one is not. -/
theorem keywordValue_quoted {quote : Char} (hquote : Token.isQuote quote = true) :
    Command.keywordValue (quote :: (value ++ [quote]) ++ [')']) = String.ofList value := by
  have hquoted : Token.isQuoted (quote :: (value ++ [quote])) = true := by
    cases value with
    | nil => simp [Token.isQuoted, hquote]
    | cons c rest => simp [Token.isQuoted, hquote, List.getLast?_cons]
  rw [keywordValue_closed, if_pos hquoted]
  simp [Token.unquote]

-- ----------------------------------------------------------- in any order

/-- A token that is read the same behind a word and is none. -/
structure Steady (token : List Char) : Prop where
  same : ofToken true token = ofToken false token
  unworded : (ofToken false token).word? = none

/-- Steady tokens are read one by one, whatever follows. -/
theorem ofTokens_steady (h : ∀ token ∈ tokens, Steady token) (behind : Bool) (later : List (List Char)) :
    ofTokens behind (tokens ++ later) = tokens.map (ofToken false) ++ ofTokens behind later := by
  induction tokens with
  | nil => rfl
  | cons token rest ih =>
      have hsteady := h token List.mem_cons_self
      have hread : ofToken behind token = ofToken false token := by
        cases behind with
        | true => exact hsteady.same
        | false => rfl
      simp only [List.cons_append, ofTokens, hread, hsteady.unworded, Option.isSome_none,
        Bool.or_false, List.map_cons, ih fun other hother => h other (List.mem_cons_of_mem _ hother)]

/-- Where one token at most is a word, the tokens are read one by one. -/
theorem ofTokens_perm (hperm : tokens.Perm (token :: others)) (h : ∀ other ∈ others, Steady other) :
    ofTokens false tokens = tokens.map (ofToken false) := by
  obtain ⟨front, back, rfl⟩ := List.append_of_mem (hperm.mem_iff.mpr List.mem_cons_self)
  have hothers : (front ++ back).Perm others := (List.perm_middle.symm.trans hperm).cons_inv
  have hfront : ∀ other ∈ front, Steady other := fun other hother =>
    h other (hothers.subset (List.mem_append_left _ hother))
  have hback : ∀ other ∈ back, Steady other := fun other hother =>
    h other (hothers.subset (List.mem_append_right _ hother))
  have hend : ∀ behind, ofTokens behind back = back.map (ofToken false) := fun behind => by
    simpa [ofTokens] using ofTokens_steady hback behind []
  rw [ofTokens_steady hfront, List.map_append, List.map_cons, ofTokens, hend]

/-- A value is chosen that is the only one for these keywords. -/
theorem chosen_eq_some {names : List String} {key value : String}
    (hmem : .keyword key value ∈ operands) (hkey : key ∈ names)
    (honly : ∀ other given, .keyword other given ∈ operands → other ∈ names → given = value) :
    chosen names operands = some value := by
  cases hchosen : chosen names operands with
  | none => exact absurd hkey (chosen_eq_none_iff.mp hchosen key value hmem)
  | some given =>
      obtain ⟨other, hother, hlast⟩ := List.exists_of_findSome?_eq_some hchosen
      obtain ⟨operand, hoperand, hgiven⟩ :=
        List.mem_filterMap.mp (List.mem_of_getLast? hlast)
      cases operand with
      | word text => cases hgiven
      | flag word => cases hgiven
      | keyword named held =>
          simp only [valueOf?, Option.ite_none_right_eq_some, Option.some.injEq] at hgiven
          obtain ⟨rfl, rfl⟩ := hgiven
          rw [honly _ _ hoperand hother]

end Operand

-- ===================================================== written requests

namespace AllocationRequest

variable {ddname dsname : String} {status : DatasetStatus} {dataset : Option String}
  {given : Option DatasetStatus}

/-- The ways to write a DD: with a keyword for it, or alone if the name is no
flag. -/
inductive WritesDdname (ddname : String) : List Char → Prop
  | keyed {key : String} (hkey : Text.upper key ∈ ddnameKeywords) :
      WritesDdname ddname (Token.keyed key.toList ddname.toList)
  | alone (hflag : Text.upper ddname ∉ Command.knownFlags) :
      WritesDdname ddname ddname.toList

/-- The ways to write a dataset: with a keyword for it, bare or in quotes of
either kind. -/
inductive WritesDsname (dsname : String) : List Char → Prop
  | bare {key : String} (hkey : Text.upper key ∈ dsnameKeywords) :
      WritesDsname dsname (Token.keyed key.toList dsname.toList)
  | quoted {key : String} {quote : Char} (hkey : Text.upper key ∈ dsnameKeywords)
      (hquote : Token.isQuote quote = true) :
      WritesDsname dsname (Token.keyed key.toList (quote :: (dsname.toList ++ [quote])))

/-- The ways to write a status: in any case. -/
def WritesStatus (status : DatasetStatus) (token : List Char) : Prop :=
  Text.upper (String.ofList token) = status.keyword

/-- The texts for a DD, a dataset if there is one and a status if one is
given: the tokens for them in any order, with blanks, tabs and commas
between, in front and behind. -/
def Written (ddname : String) (dataset : Option String) (given : Option DatasetStatus)
    (text : String) : Prop :=
  ∃ (lead : List Char) (parts : List (List Char × List Char)) (token : List Char)
      (set word : Option (List Char)),
    text = String.ofList (lead ++ Token.row parts)
      ∧ Token.Gap lead ∧ (∀ part ∈ parts, Token.Gap part.2)
      ∧ (∀ part ∈ parts.dropLast, part.2 ≠ [])
      ∧ (parts.map Prod.fst).Perm (token :: (set.toList ++ word.toList))
      ∧ WritesDdname ddname token
      ∧ Option.Rel WritesDsname dataset set
      ∧ Option.Rel WritesStatus given word

-- ------------------------------------------------------------- the tokens

/-- A token that stands wherever it is put: it is whole, and has no blanks
at its ends. -/
structure Standing (token : List Char) : Prop where
  whole : Token.Whole token
  tight : Text.Tight token

/-- The keywords are made of plain characters. -/
theorem isPart_ddnameKey {key : String} (h : Text.upper key ∈ ddnameKeywords) :
    ∀ c ∈ key.toList, Name.isPart c = true :=
  Name.isPart_of_upper_mem (by decide +kernel) h

theorem isPart_dsnameKey {key : String} (h : Text.upper key ∈ dsnameKeywords) :
    ∀ c ∈ key.toList, Name.isPart c = true :=
  Name.isPart_of_upper_mem (by decide +kernel) h

theorem isPart_status (h : WritesStatus status token) : ∀ c ∈ token, Name.isPart c = true := by
  have hstatus : ([status.keyword].all fun name => name.toList.all Name.isPart) = true := by
    cases status with
    | shr => decide +kernel
    | old => decide +kernel
    | new => decide +kernel
    | mod => decide +kernel
  have := Name.isPart_of_upper_mem hstatus (List.mem_singleton.mpr h)
  rwa [String.toList_ofList] at this

/-- Characters of names, and dots. -/
theorem standing_of_parts (hne : token ≠ [])
    (h : ∀ c ∈ token, Name.isPart c = true ∨ c = '.') : Standing token :=
  ⟨Token.whole_of_ordinary hne fun c hc => (Name.ordinary_of_isPart (h c hc)).1,
    Text.tight_of_unblank fun c hc => (Name.ordinary_of_isPart (h c hc)).2⟩

/-- A keyword with an unbroken value stands as one token. -/
theorem standing_keyed (hkey : ∀ c ∈ key, Name.isPart c = true)
    (hvalue : Token.Unbroken { depth := 1 } value)
    (hback : Token.Position.past { depth := 1 } value = { depth := 1 }) :
    Standing (Token.keyed key value) := by
  refine ⟨Token.whole_keyed (fun c hc => (Name.ordinary_of_isPart (.inl (hkey c hc))).1)
    hvalue hback, ?_, ?_⟩
  · intro c hc
    cases key with
    | nil => cases hc; decide
    | cons first later =>
        cases hc
        exact (Name.ordinary_of_isPart (.inl (hkey c List.mem_cons_self))).2
  · intro c hc
    have hlast : (Token.keyed key value).getLast? = some ')' := by
      simp [Token.keyed, List.getLast?_append, List.getLast?_cons]
    rw [hlast] at hc
    cases hc
    decide

/-- The value of a keyword goes on in its parentheses. -/
theorem standing_value (hkey : ∀ c ∈ key, Name.isPart c = true)
    (hvalue : ∀ c ∈ value, Name.isPart c = true ∨ c = '.') : Standing (Token.keyed key value) := by
  obtain ⟨hunbroken, hback⟩ := Token.unbroken_ordinary { depth := 1 }
    (fun c hc => (Name.ordinary_of_isPart (hvalue c hc)).1) rfl
  exact standing_keyed hkey hunbroken hback

-- ---------------------------------------------------------- what they say

/-- An operand that names this DD. -/
def NamesDdname (ddname : String) : Operand → Prop
  | .word text => text = ddname
  | .keyword key value => key ∈ ddnameKeywords ∧ value = ddname
  | .flag _ => False

/-- An operand that names this dataset, in some case. -/
def NamesDsname (dsname : String) : Operand → Prop
  | .keyword key value => key ∈ dsnameKeywords ∧ Text.upper value = Text.upper dsname
  | _ => False

/-- A DD name, however it is written, is read as that name. -/
theorem reads_ddname (hflaw : Name.ddnameFlaw? ddname = none) (h : WritesDdname ddname token) :
    Standing token ∧ NamesDdname (Text.upper ddname) (Operand.ofToken false token) := by
  obtain ⟨hnonempty, -, hparts⟩ := Name.ddname_of_no_flaw hflaw
  have hordinary : ∀ c ∈ ddname.toList, Token.Ordinary c ∧ Text.isBlank c = false := fun c hc =>
    Name.ordinary_of_isPart (.inl (hparts c hc))
  cases h with
  | @keyed key hkey =>
      have hkeyParts := isPart_ddnameKey hkey
      refine ⟨standing_value hkeyParts fun c hc => .inl (hparts c hc), ?_⟩
      rw [Operand.ofToken_keyed
          (fun c hc => (Name.ordinary_of_isPart (.inl (hkeyParts c hc))).1) ddname.toList,
        Operand.keywordValue_bare hordinary, String.ofList_toList, String.ofList_toList]
      exact ⟨hkey, rfl⟩
  | alone hflag =>
      refine ⟨standing_of_parts (by simpa using hnonempty) fun c hc => .inl (hparts c hc), ?_⟩
      rw [Operand.ofToken_bare fun c hc => (hordinary c hc).1, String.ofList_toList, if_neg]
      · rfl
      · simpa using hflag

/-- So is a dataset name. -/
theorem reads_dsname (hflaw : Name.dsnameFlaw? dsname = none) (h : WritesDsname dsname token) :
    Standing token ∧ Operand.Steady token
      ∧ NamesDsname dsname (Operand.ofToken false token) := by
  obtain ⟨-, -, hparts⟩ := Name.dsname_of_no_flaw hflaw
  have hordinary : ∀ c ∈ dsname.toList, Token.Ordinary c ∧ Text.isBlank c = false := fun c hc =>
    Name.ordinary_of_isPart (hparts c hc)
  cases h with
  | @bare key hkey =>
      have hkeyParts := isPart_dsnameKey hkey
      have hread := Operand.ofToken_keyed
        (fun c hc => (Name.ordinary_of_isPart (.inl (hkeyParts c hc))).1) dsname.toList
      refine ⟨standing_value hkeyParts hparts, ⟨?_, ?_⟩, ?_⟩
      · rw [hread, hread]
      · rw [hread]
        rfl
      · rw [hread, Operand.keywordValue_bare hordinary, String.ofList_toList,
          String.ofList_toList]
        exact ⟨hkey, Text.upper_upper dsname⟩
  | @quoted key quote hkey hquote =>
      have hkeyParts := isPart_dsnameKey hkey
      have hread := Operand.ofToken_keyed
        (fun c hc => (Name.ordinary_of_isPart (.inl (hkeyParts c hc))).1)
        (quote :: (dsname.toList ++ [quote]))
      have hfree : quote ∉ dsname.toList := by
        intro hmem
        rw [(hordinary quote hmem).1.2.1] at hquote
        cases hquote
      obtain ⟨hunbroken, hback⟩ := Token.unbroken_quoting hquote hfree
      refine ⟨standing_keyed hkeyParts hunbroken hback, ⟨?_, ?_⟩, ?_⟩
      · rw [hread, hread]
      · rw [hread]
        rfl
      · rw [hread, Operand.keywordValue_quoted hquote, String.ofList_toList, String.ofList_toList]
        exact ⟨hkey, rfl⟩

/-- And a status. -/
theorem reads_status (h : WritesStatus status token) :
    Standing token ∧ Operand.Steady token
      ∧ Operand.ofToken false token = .flag status.keyword := by
  have hparts := isPart_status h
  have hne : token ≠ [] := by
    rintro rfl
    unfold WritesStatus at h
    cases status with
    | shr => exact absurd h (by decide)
    | old => exact absurd h (by decide)
    | new => exact absurd h (by decide)
    | mod => exact absurd h (by decide)
  have hknown : Command.knownFlags.contains status.keyword = true := by
    cases status with
    | shr => decide
    | old => decide
    | new => decide
    | mod => decide
  have hread : ∀ behind, Operand.ofToken behind token = .flag status.keyword := by
    intro behind
    rw [Operand.ofToken_bare fun c hc => (Name.ordinary_of_isPart (.inl (hparts c hc))).1, h,
      hknown, Bool.or_true, if_pos rfl]
  refine ⟨standing_of_parts hne fun c hc => .inl (hparts c hc), ⟨?_, ?_⟩, hread false⟩
  · rw [hread, hread]
  · rw [hread]
    rfl

/-- No keyword names both a DD and a dataset. -/
theorem disjoint_keywords : ∀ key ∈ ddnameKeywords, key ∉ dsnameKeywords := by
  decide

/-- A permutation of a list of one element at most is that list. -/
theorem perm_toList_iff {α : Type} {xs : List α} {x : Option α} :
    xs.Perm x.toList ↔ xs = x.toList := by
  cases x with
  | none => exact List.perm_nil
  | some a => exact List.perm_singleton

/-- Operands that name a DD, a dataset and a status, in some order. -/
structure Named (operands : List Operand) (ddname : String) (dataset : Option String)
    (given : Option DatasetStatus) (operand : Operand) (set : Option Operand) : Prop where
  order : operands.Perm
    (operand :: (set.toList ++ given.toList.map fun status => .flag status.keyword))
  ddname : NamesDdname ddname operand
  dataset : Option.Rel NamesDsname dataset set

namespace Named

variable {operand : Operand} {set : Option Operand}

/-- What names the dataset is a keyword for that. -/
theorem keyword_of_mem (h : Named operands ddname dataset given operand set) :
    ∀ named ∈ set, ∃ key ∈ dsnameKeywords, ∃ value, named = .keyword key value := by
  intro named hmem
  cases h.dataset with
  | none => cases hmem
  | some hnames =>
      cases hmem
      cases named with
      | word text => cases hnames
      | flag given => cases hnames
      | keyword key value => exact ⟨key, hnames.1, value, rfl⟩

/-- The keywords among the operands are the ones that were written. -/
theorem keyword_mem_iff (h : Named operands ddname dataset given operand set)
    {key value : String} :
    .keyword key value ∈ operands ↔ .keyword key value = operand ∨ set = some (.keyword key value) := by
  simp [h.order.mem_iff]

/-- The one word there can be is the DD. -/
theorem words (h : Named operands ddname dataset given operand set) :
    operands.filterMap Operand.word? = operand.word?.toList := by
  have hset : set.toList.filterMap Operand.word? = [] := by
    refine List.filterMap_eq_nil_iff.mpr fun named hmem => ?_
    obtain ⟨key, -, value, rfl⟩ := h.keyword_of_mem named (Option.mem_toList.mp hmem)
    rfl
  have hstatus : (given.toList.map fun status : DatasetStatus =>
      Operand.flag status.keyword).filterMap Operand.word? = [] := by
    refine List.filterMap_eq_nil_iff.mpr fun named hmem => ?_
    obtain ⟨status, -, rfl⟩ := List.mem_map.mp hmem
    rfl
  have hperm := h.order.filterMap Operand.word?
  rw [← List.singleton_append, List.filterMap_append, List.filterMap_append, hset, hstatus,
    List.append_nil, List.append_nil] at hperm
  refine perm_toList_iff.mp (hperm.trans (.of_eq ?_))
  cases operand with
  | word text => rfl
  | keyword key value => rfl
  | flag given => rfl

/-- So is the status, if one was. -/
theorem flags (h : Named operands ddname dataset given operand set) :
    operands.filterMap Operand.flag? = given.toList.map DatasetStatus.keyword := by
  have hset : set.toList.filterMap Operand.flag? = [] := by
    refine List.filterMap_eq_nil_iff.mpr fun named hmem => ?_
    obtain ⟨key, -, value, rfl⟩ := h.keyword_of_mem named (Option.mem_toList.mp hmem)
    rfl
  have hddname : [operand].filterMap Operand.flag? = [] := by
    cases operand with
    | word text => rfl
    | keyword key value => rfl
    | flag given => exact h.ddname.elim
  have hperm := h.order.filterMap Operand.flag?
  rw [← List.singleton_append, List.filterMap_append, List.filterMap_append, hset, hddname,
    List.nil_append, List.nil_append, List.filterMap_map] at hperm
  cases given with
  | none => exact List.perm_nil.mp hperm
  | some status => exact List.perm_singleton.mp hperm

/-- The operands name the DD. -/
theorem names (h : Named operands ddname dataset given operand set) : Names operands ddname := by
  have hnamed := h.ddname
  have hother : ∀ key value, set = some (.keyword key value) → key ∉ ddnameKeywords := by
    intro key value hset hkey
    obtain ⟨other, hother, given, heq⟩ := h.keyword_of_mem _ hset
    cases heq
    exact disjoint_keywords key hkey hother
  cases operand with
  | word text =>
      refine .inl ⟨?_, Operand.chosen_eq_none_iff.mpr fun key value hmem => ?_⟩
      · rw [h.words, ← show text = ddname from hnamed]
        rfl
      · rcases h.keyword_mem_iff.mp hmem with heq | hset
        · cases heq
        · exact hother key value hset
  | keyword key value =>
      obtain ⟨hkey, rfl⟩ := hnamed
      refine .inr ⟨h.words, Operand.chosen_eq_some (h.keyword_mem_iff.mpr (.inl rfl)) hkey ?_⟩
      intro other held hmem hother'
      rcases h.keyword_mem_iff.mp hmem with heq | hset
      · cases heq
        rfl
      · exact absurd hother' (hother other held hset)
  | flag word => exact hnamed.elim

/-- They choose the dataset. -/
theorem chosen (h : Named operands ddname dataset given operand set) :
    (Operand.chosen dsnameKeywords operands).map Text.upper = dataset.map Text.upper := by
  have hddname : ∀ key value, .keyword key value = operand → key ∉ dsnameKeywords := by
    rintro key value rfl
    exact disjoint_keywords key h.ddname.1
  cases h.dataset with
  | none =>
      rw [Operand.chosen_eq_none_iff.mpr fun key value hmem => ?_]
      rcases h.keyword_mem_iff.mp hmem with heq | hset
      · exact hddname key value heq
      · cases hset
  | @some dsname named hnames =>
      obtain ⟨key, hkey, value, rfl⟩ := h.keyword_of_mem named rfl
      have hchosen : Operand.chosen dsnameKeywords operands = some value := by
        refine Operand.chosen_eq_some (h.keyword_mem_iff.mpr (.inr rfl)) hkey ?_
        intro other held hmem hother
        rcases h.keyword_mem_iff.mp hmem with heq | hset
        · exact absurd hother (hddname other held heq)
        · cases hset
          rfl
      rw [hchosen, Option.map_some, Option.map_some, hnames.2]

/-- Operands that name a DD, a dataset and a status ask for them in whatever
order they stand. -/
theorem asks (h : Named operands ddname dataset given operand set)
    (hflaw : Name.ddnameFlaw? ddname = none)
    (hdataset : ∀ dsname ∈ dataset, Name.dsnameFlaw? dsname = none) :
    Asks operands ddname given := by
  constructor
  · exact h.names
  · exact hflaw
  · intro dsname hchosen
    have hupper := h.chosen
    rw [hchosen, Option.map_some] at hupper
    obtain ⟨name, hname, heq⟩ := Option.map_eq_some_iff.mp hupper.symm
    rw [← heq]
    exact Name.dsnameFlaw?_upper (hdataset name hname)
  · intro key value hmem
    rcases h.keyword_mem_iff.mp hmem with rfl | hset
    · exact List.mem_append_left _ h.ddname.1
    · obtain ⟨other, hother, given, heq⟩ := h.keyword_of_mem _ hset
      cases heq
      exact List.mem_append_right _ hother
  · exact h.flags

end Named

-- ============================================================== theorem

/-- The operands of a written request, in the order of its tokens. -/
theorem Written.named (hflaw : Name.ddnameFlaw? ddname = none)
    (hdataset : ∀ dsname ∈ dataset, Name.dsnameFlaw? dsname = none)
    (h : Written ddname dataset given text) :
    ∃ operand set,
      Named (Operand.ofText text) (Text.upper ddname) dataset given operand set := by
  obtain ⟨lead, parts, token, set, word, rfl, hlead, hgaps, hapart, hperm, hddname, hset, hword⟩ :=
    h
  obtain ⟨hstanding, hnames⟩ := reads_ddname hflaw hddname
  have hsetReads : ∀ other ∈ set, Standing other ∧ Operand.Steady other := by
    intro other hmem
    cases hset with
    | none => cases hmem
    | @some dsname only hwrites =>
        cases hmem
        obtain ⟨hstands, hsteady, -⟩ := reads_dsname (hdataset dsname rfl) hwrites
        exact ⟨hstands, hsteady⟩
  have hwordReads : ∀ other ∈ word, Standing other ∧ Operand.Steady other := by
    intro other hmem
    cases hword with
    | none => cases hmem
    | some hwrites =>
        cases hmem
        obtain ⟨hstands, hsteady, -⟩ := reads_status hwrites
        exact ⟨hstands, hsteady⟩
  have hothers : ∀ other ∈ set.toList ++ word.toList, Standing other ∧ Operand.Steady other := by
    intro other hmem
    rcases List.mem_append.mp hmem with hmem | hmem
    · exact hsetReads other (Option.mem_toList.mp hmem)
    · exact hwordReads other (Option.mem_toList.mp hmem)
  have hstands : ∀ part ∈ parts, Standing part.1 := by
    intro part hpart
    rcases List.mem_cons.mp (hperm.subset (List.mem_map_of_mem hpart)) with heq | hmem
    · rwa [heq]
    · exact (hothers _ hmem).1
  have hspaced : Token.Spaced parts :=
    ⟨fun part hpart => (hstands part hpart).whole, hgaps, hapart⟩
  have htokens := Command.tokensOf_row hlead hspaced fun part hpart => (hstands part hpart).tight
  refine ⟨Operand.ofToken false token, set.map (Operand.ofToken false), ?_, hnames, ?_⟩
  · unfold Operand.ofText
    rw [htokens, Operand.ofTokens_perm hperm fun other hmem => (hothers other hmem).2]
    have hflags : word.toList.map (Operand.ofToken false)
        = given.toList.map fun status => .flag status.keyword := by
      cases hword with
      | none => rfl
      | some hwrites => exact congrArg (fun flag => [flag]) (reads_status hwrites).2.2
    have hread := hperm.map (Operand.ofToken false)
    rwa [List.map_cons, List.map_append, hflags, ← Option.toList_map] at hread
  · cases hset with
    | none => exact .none
    | some hwrites => exact .some (reads_dsname (hdataset _ rfl) hwrites).2.2

/-- However a request for a DD, a dataset and a status is written, it is read
as the request for the names in upper case; without a status a dataset is
there to be shared, and a temporary one is new. And a request that is read
from any text has a name a DD can have, and one in upper case a dataset can
have. -/
theorem read_however_written :
    (∀ (ddname : String) (dataset : Option String) (given : Option DatasetStatus) (text : String),
      Name.ddnameFlaw? ddname = none → (∀ dsname ∈ dataset, Name.dsnameFlaw? dsname = none) →
      Written ddname dataset given text →
        parse text = .ok
          { ddname := some (Text.upper ddname)
            dsname := dataset.map Text.upper
            status := given.getD (if dataset.isSome then .shr else .new) })
      ∧ ∀ (text : String) (request : AllocationRequest), parse text = .ok request →
        (∃ ddname, request.ddname = some ddname ∧ Name.ddnameFlaw? ddname = none)
          ∧ ∀ dsname ∈ request.dsname,
            Text.upper dsname = dsname ∧ Name.dsnameFlaw? dsname = none := by
  refine ⟨fun ddname dataset given text hflaw hdataset hwritten => ?_, fun text request h => ?_⟩
  · obtain ⟨operand, set, hnamed⟩ := hwritten.named hflaw hdataset
    refine parse_eq_ok_iff.mpr
      ⟨_, given, hnamed.asks (Name.ddnameFlaw?_upper hflaw) hdataset, ?_⟩
    rw [hnamed.chosen]
    unfold asked
    rw [Option.isSome_map]
  · obtain ⟨hddname, hdsname⟩ := parse_ok h
    exact ⟨hddname, fun dsname hmem => (hdsname dsname hmem).symm⟩

/-- In another order, in other cases, with a quoted dataset and uneven
separators. -/
theorem read_however_written_quoted :
    parse ", dsn('x.y'),\tshr  File(Out) "
      = .ok { ddname := some "OUT", dsname := some "X.Y", status := .shr } := by
  let set := Token.keyed "dsn".toList (Token.apostrophe :: ("x.y".toList ++ [Token.apostrophe]))
  let token := Token.keyed "File".toList "Out".toList
  exact read_however_written.1 "Out" (some "x.y") (some .shr) _ (by decide +kernel)
    (by decide +kernel)
    ⟨[',', ' '], [(set, [',', '\t']), ("shr".toList, [' ', ' ']), (token, [' '])], token, some set,
      some "shr".toList, by decide +kernel, by decide, by decide, by decide, by decide +kernel,
      .keyed (by decide +kernel), .some (.quoted (by decide +kernel) (by decide)),
      .some (by unfold WritesStatus; decide +kernel)⟩

end AllocationRequest

end TsoBridge
