/-
The verb the policy sees and the verb the host sees. The policy looks at
the caller's text; the host looks at the text that arrived, in which every
character the code page cannot hold has become the substitute. The two
verbs may differ, but never so that the policy would judge them
differently.

# Why substitution commutes with reading

Blanks, separators, quotes and parentheses all lie below U+0100 and none
is the substitute, so a substituted character plays the same part in a
scan as the one it stands for: it is in a token, and it never ends one.
Tokens of the arrived text are the arrived tokens (`tokens_map_carry`),
and a text without blanks at its ends keeps such ends (`Tight.map_carry`).

# Why the policy agrees

The lists of a policy that was read from settings hold names only
(`parse_plain`), and no name holds a substitute. A verb with a
substituted character is in no list, before and after the substitution
(`permits_carried`); any other verb arrives as it was.
-/
import TsoBridge.Operand.Basic
import TsoBridge.Proofs.Assignment
import TsoBridge.Proofs.CodePage

namespace TsoBridge

-- =============================================================== blanks

namespace Text

/-- Characters with no blank at either end. -/
def Tight (cs : List Char) : Prop :=
  (∀ c ∈ cs.head?, isBlank c = false) ∧ ∀ c ∈ cs.getLast?, isBlank c = false

/-- Dropping a run of blanks leaves no blank in front. -/
theorem head?_dropWhile_isBlank (cs : List Char) :
    ∀ c ∈ (cs.dropWhile isBlank).head?, isBlank c = false := by
  intro c hc
  have := List.head?_dropWhile_not isBlank cs
  rw [Option.mem_def.mp hc] at this
  simpa using this

/-- A text that does not begin with a blank loses none. -/
theorem dropWhile_of_head? {cs : List Char} (h : ∀ c ∈ cs.head?, isBlank c = false) :
    cs.dropWhile isBlank = cs := by
  cases cs with
  | nil => rfl
  | cons c rest => exact List.dropWhile_cons_of_neg (by simpa using h c rfl)

/-- A tight text is trimmed already. -/
theorem trimmed_of_tight {cs : List Char} (h : Tight cs) : trimmed cs = cs := by
  unfold trimmed
  rw [dropWhile_of_head? h.1, dropWhile_of_head?, List.reverse_reverse]
  rw [List.head?_reverse]
  exact h.2

/-- What was trimmed is tight. -/
theorem tight_trimmed (cs : List Char) : Tight (trimmed cs) := by
  constructor
  · -- what is cut at the end is not in front
    have hback : trimmed cs <+: cs.dropWhile isBlank := by
      unfold trimmed
      rw [← List.reverse_suffix, List.reverse_reverse]
      exact List.dropWhile_suffix _
    intro c hc
    obtain ⟨tail, htail⟩ := hback
    apply head?_dropWhile_isBlank cs
    rw [← htail, Option.mem_def, List.head?_append, Option.mem_def.mp hc]
    rfl
  · intro c hc
    unfold trimmed at hc
    rw [List.getLast?_reverse] at hc
    exact head?_dropWhile_isBlank _ c hc

/-- So trimming twice is trimming once. -/
theorem trimmed_trimmed (cs : List Char) : trimmed (trimmed cs) = trimmed cs :=
  trimmed_of_tight (tight_trimmed cs)

/-- The same for texts, by their characters. -/
theorem toList_trim (s : String) : (trim s).toList = trimmed s.toList :=
  String.toList_ofList

theorem trim_trim (s : String) : trim (trim s) = trim s := by
  unfold trim
  rw [String.toList_ofList, trimmed_trimmed]

end Text

-- ==================================================== arrived characters

namespace CodePage

/-- The code page makes no blank of another character. -/
theorem isBlank_carry {c : Char} (h : Text.isBlank c = false) :
    Text.isBlank (carry c) = false := by
  unfold carry
  split
  · exact h
  · decide

/-- It carries a letter and its capital alike. -/
theorem toUpper_carry (c : Char) : (carry c).toUpper = carry c.toUpper := by
  refine Text.toUpper_cases (P := fun c d => (carry c).toUpper = carry d) (by decide +kernel)
    (fun c hc => ?_) c
  unfold carry
  split
  · exact Text.toUpper_of_ge hc
  · decide

/-- So case and code page may be applied in either order. -/
theorem upper_carried (s : String) : Text.upper (carried s) = carried (Text.upper s) := by
  apply String.toList_inj.mp
  rw [Text.toList_upper, toList_carried, toList_carried, Text.toList_upper, List.map_map,
    List.map_map]
  exact List.map_congr_left fun c _ => toUpper_carry c

end CodePage

/-- A tight text is carried to a tight one. -/
theorem Text.Tight.map_carry {cs : List Char} (h : Text.Tight cs) :
    Text.Tight (cs.map CodePage.carry) := by
  constructor
  · intro c hc
    rw [List.head?_map] at hc
    obtain ⟨d, hd, rfl⟩ := Option.map_eq_some_iff.mp hc
    exact CodePage.isBlank_carry (h.1 d hd)
  · intro c hc
    rw [List.getLast?_map] at hc
    obtain ⟨d, hd, rfl⟩ := Option.map_eq_some_iff.mp hc
    exact CodePage.isBlank_carry (h.2 d hd)

-- =============================================================== tokens

namespace Token

open CodePage

/-- A character that marks something in a scan arrives for itself
alone. -/
theorem carry_beq {c d : Char} (hd : d.toNat < 256) (hne : d ≠ Char.ofNat 0x1A) :
    (carry c == d) = (c == d) := by
  rw [Bool.eq_iff_iff, beq_iff_eq, beq_iff_eq]
  exact carry_eq_iff hd hne

/-- Separators go through the code page as they are, and nothing else
becomes one. -/
theorem isSeparator_carry (c : Char) : isSeparator (carry c) = isSeparator c := by
  unfold isSeparator
  rw [carry_beq (by decide) (by decide), carry_beq (by decide) (by decide),
    carry_beq (by decide) (by decide)]

/-- So do quotes. -/
theorem isQuote_carry (c : Char) : isQuote (carry c) = isQuote c := by
  unfold isQuote
  rw [carry_beq (by decide) (by decide), carry_beq (by decide) (by decide)]

theorem carry_of_isQuote {c : Char} (h : isQuote c = true) : carry c = c := by
  unfold isQuote at h
  rw [Bool.or_eq_true, beq_iff_eq, beq_iff_eq] at h
  rcases h with rfl | rfl <;> decide

/-- The quote a scan is in, if any, is a quote. -/
def Position.Quoted (position : Position) : Prop :=
  ∀ quote ∈ position.quote, isQuote quote = true

/-- A position within quotes stays so. -/
theorem Position.Quoted.after {position : Position} (h : position.Quoted) (c : Char) :
    (position.after c).Quoted := by
  unfold Position.after
  split
  · split
    · intro quote hquote
      cases hquote
    · exact h
  · next hnone =>
    split
    · next hc =>
      intro quote hquote
      cases hquote
      exact hc
    · split
      · exact h
      · split
        · exact h
        · exact h

/-- A scan moves past an arrived character as past the one sent. -/
theorem after_carry {position : Position} (h : position.Quoted) (c : Char) :
    position.after (carry c) = position.after c := by
  unfold Position.after
  split
  · next quote hquote =>
    have hq := h quote hquote
    have hbeq : (carry c == quote) = (c == quote) := by
      unfold isQuote at hq
      rw [Bool.or_eq_true, beq_iff_eq, beq_iff_eq] at hq
      rcases hq with rfl | rfl
      · exact carry_beq (by decide) (by decide)
      · exact carry_beq (by decide) (by decide)
    rw [hbeq]
  · rw [isQuote_carry, carry_beq (by decide) (by decide), carry_beq (by decide) (by decide)]
    split
    · next hc => rw [carry_of_isQuote hc]
    · rfl

/-- Ending a token and carrying it over commute. -/
theorem close_map (f : Char → Char) (current : List Char) :
    close (current.map f) = (close current).map (List.map f) := by
  unfold close
  cases current with
  | nil => rfl
  | cons c rest => simp

/-- Scanning what arrived gives what arrived of the tokens, from any
position on. -/
theorem scan_map_carry {position : Position} (h : position.Quoted) (current cs : List Char) :
    scan position (current.map carry) (cs.map carry)
      = (scan position current cs).map (List.map carry) := by
  induction cs generalizing position current with
  | nil => exact close_map carry current
  | cons c rest ih =>
      have hsep : position.separates (carry c) = position.separates c := by
        unfold Position.separates
        rw [isSeparator_carry]
      rw [List.map_cons]
      unfold scan
      rw [hsep]
      split
      · have := ih h []
        rw [List.map_nil] at this
        rw [this, close_map, List.map_append]
      · have := ih (h.after c) (c :: current)
        rw [List.map_cons] at this
        rw [after_carry h, this]

/-- So the tokens of a carried text are the carried tokens. -/
theorem tokens_map_carry (cs : List Char) :
    tokens (cs.map carry) = (tokens cs).map (List.map carry) := by
  have hstart : Position.Quoted {} := fun _ h => by cases h
  exact scan_map_carry hstart [] cs

end Token

-- ================================================================ verbs

namespace Command

open CodePage

/-- The name of a command that was read is the verb of its text. -/
theorem name_parse (text : String) : (parse text).name = verb text := by
  unfold parse verb
  split <;> rfl

/-- The same for texts that are trimmed first. -/
theorem tokensOf_carried {text : String} (h : Text.Tight text.toList) :
    tokensOf (carried text) = (tokensOf text).map (List.map carry) := by
  unfold tokensOf
  rw [toList_carried, Text.trimmed_of_tight h.map_carry, Text.trimmed_of_tight h]
  exact Token.tokens_map_carry _

/-- The verb of the arrived text is what arrived of the verb. -/
theorem verb_carried {text : String} (h : Text.Tight text.toList) :
    verb (carried text) = carried (verb text) := by
  unfold verb
  rw [tokensOf_carried h]
  cases tokensOf text with
  | nil => rfl
  | cons token rest =>
      show Text.upper (String.ofList (token.map carry))
        = carried (Text.upper (String.ofList token))
      rw [← upper_carried]
      unfold carried
      rw [String.toList_ofList]

end Command

-- =============================================================== policy

/-- A policy whose lists hold names only. -/
def CommandPolicy.Plain (policy : CommandPolicy) : Prop :=
  ∀ name ∈ policy.whitelist ++ policy.blacklist, ∀ c ∈ name.toList, Name.isPart c = true

/-- What arrives of a verb is a given name exactly if the verb is. -/
theorem CodePage.carried_eq_iff {verb name : String}
    (h : ∀ c ∈ name.toList, Name.isPart c = true) :
    CodePage.carried verb = name ↔ verb = name := by
  have hlt : ∀ c ∈ name.toList, c.toNat < 256 := fun c hc => by
    have := Name.isPart_lt (h c hc)
    omega
  constructor
  · intro heq
    apply String.toList_inj.mp
    have hlist : name.toList = verb.toList.map CodePage.carry := by
      rw [← heq, CodePage.toList_carried]
    rw [hlist] at h hlt ⊢
    symm
    refine (List.map_congr_left fun c hc => ?_).trans (List.map_id _)
    have hcc := List.mem_map_of_mem (f := CodePage.carry) hc
    have hne : CodePage.carry c ≠ Char.ofNat 0x1A := by
      intro hsub
      have := h _ hcc
      rw [hsub] at this
      exact absurd this (by decide)
    exact ((CodePage.carry_eq_iff (hlt _ hcc) hne).mp rfl).symm
  · rintro rfl
    exact CodePage.carried_of_latin hlt

/-- A list of plain names holds a verb if and only if it holds the carried
one. -/
theorem contains_carried {names : List String}
    (h : ∀ name ∈ names, ∀ c ∈ name.toList, Name.isPart c = true) (verb : String) :
    names.contains (CodePage.carried verb) = names.contains verb := by
  rw [Bool.eq_iff_iff, List.contains_iff_mem, List.contains_iff_mem]
  constructor
  · intro hmem
    have hsame : verb = CodePage.carried verb :=
      (CodePage.carried_eq_iff (h _ hmem)).mp rfl
    rw [hsame]
    exact hmem
  · intro hmem
    have hsame : CodePage.carried verb = verb :=
      (CodePage.carried_eq_iff (h _ hmem)).mpr rfl
    rw [hsame]
    exact hmem

/-- The policy judges what arrived of a verb as it judges the verb. -/
theorem CommandPolicy.permits_carried {policy : CommandPolicy} (h : policy.Plain)
    (verb : String) : policy.permits (CodePage.carried verb) = policy.permits verb := by
  unfold permits
  rw [CodePage.upper_carried]
  split
  · rfl
  · rw [contains_carried fun name hname => h name (List.mem_append_left _ hname)]
  · rw [contains_carried fun name hname => h name (List.mem_append_right _ hname)]

-- ============================================== policies from settings

namespace Settings

/-- The verbs of a list that was accepted are names. -/
theorem verbs_plain {value : String} {names : List String} (h : verbs value = .ok names) :
    ∀ name ∈ names, ∀ c ∈ name.toList, Name.isPart c = true := by
  unfold verbs at h
  simp only at h
  split at h
  · cases h
  · next hfind =>
    cases h
    intro name hname
    simpa using List.find?_eq_none.mp hfind name hname

/-- The names an assignment puts into the policy. -/
def Assignment.names : Assignment → List String
  | .whitelist names | .blacklist names => names
  | _ => []

/-- An assignment that puts only names into the policy. -/
def Assignment.Plain (assignment : Assignment) : Prop :=
  ∀ name ∈ assignment.names, ∀ c ∈ name.toList, Name.isPart c = true

/-- An assignment that was read is plain. -/
theorem Assignment.plain_of_read? {key value : String} {assignment : Assignment}
    (h : read? key value = some (.ok assignment)) : assignment.Plain := by
  have hnone : ∀ other : Assignment, other.names = [] → other.Plain := by
    intro other hother name hname
    rw [hother] at hname
    cases hname
  unfold read? at h
  refine of_choice (motive := Plain) h (fun _ _ _ => hnone _ rfl) fun h => ?_
  refine of_choice (motive := Plain) h (fun _ _ hlist => verbs_plain hlist) fun h => ?_
  refine of_choice (motive := Plain) h (fun _ _ hlist => verbs_plain hlist) fun h => ?_
  iterate 7 refine of_choice (motive := Plain) h (fun _ _ _ => hnone _ rfl) fun h => ?_
  cases h

/-- A value taken in keeps the lists of the policy lists of names. -/
theorem assign?_plain {settings after : Settings} {key value : String}
    (hplain : settings.policy.Plain) (h : settings.assign? key value = some (.ok after)) :
    after.policy.Plain := by
  obtain ⟨assignment, hread, rfl⟩ := assign?_ok h
  have hnames := Assignment.plain_of_read? hread
  cases assignment with
  | whitelist names =>
      intro name hname
      rcases List.mem_append.mp hname with hwhite | hblack
      · exact hnames name hwhite
      · exact hplain name (List.mem_append_right _ hblack)
  | blacklist names =>
      intro name hname
      rcases List.mem_append.mp hname with hwhite | hblack
      · exact hplain name (List.mem_append_left _ hwhite)
      · exact hnames name hblack
  | _ => exact hplain

/-- A line adds plain names only. -/
theorem add_plain {draft after : Draft} {raw : String} (hplain : draft.settings.policy.Plain)
    (h : draft.add raw = .ok after) : after.settings.policy.Plain := by
  unfold Draft.add at h
  simp only [bind, Except.bind] at h
  split at h
  · cases h
  · split at h
    · cases h
      exact hplain
    · split at h
      · cases h
      · split at h
        · cases h
        · cases h
        · next hassign =>
          cases h
          exact assign?_plain hplain hassign

/-- So do several lines. -/
theorem addLines_plain {draft after : Draft} {number : Nat} {content : List String}
    (hplain : draft.settings.policy.Plain)
    (h : draft.addLines number content = .ok after) : after.settings.policy.Plain := by
  induction content generalizing draft number with
  | nil =>
      cases h
      exact hplain
  | cons raw rest ih =>
      unfold Draft.addLines at h
      split at h
      · cases h
      · next next hadd => exact ih (add_plain hplain hadd) h

/-- Settings that were read have a policy of names. -/
theorem parse_plain {text : String} {settings : Settings} (h : parse text = .ok settings) :
    settings.policy.Plain := by
  obtain ⟨draft, hdraft, rfl⟩ := map_ok h
  exact addLines_plain (fun _ h => by cases h) hdraft

end Settings

end TsoBridge
