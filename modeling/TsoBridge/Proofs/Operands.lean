/-
The operands of a list, one by one. The engine gathers operands into words,
keywords and flags and decides on what it gathered, so what is in the text
and what the decision looks at are two things. Here each token is given
what it is read as (`Operand.ofText`), and the decisions on an allocation
and on a free are said on those (`AllocationRequest.parse_eq_ok_iff`,
`DdName.ofFree_eq_ok_iff`).

# What a gathering loses

Words and flags are kept in full and in order. Of a keyword only the last
value is kept, and of the keywords that mean the same only the first in the
engine's list is asked for (`Operand.chosen`). So a DD or a dataset that is
named twice by keywords is not noticed (`operands_overlooked`), and a free
looks at neither flags nor other keywords. All else is accounted for
(`operands_accounted`).
-/
import TsoBridge.Request
import TsoBridge.Proofs.Verb

namespace TsoBridge

/-- What a token is read as. -/
inductive Operand where
  /-- A bare or quoted word that is no flag. -/
  | word (text : String)
  | keyword (key value : String)
  | flag (word : String)
deriving DecidableEq

variable {text : String} {operands : List Operand}

namespace Operand

/-- What a token is read as; `behind` says whether there is a word in front
of it. Behind a word all that is letters is a flag. -/
def ofToken (behind : Bool) (token : List Char) : Operand :=
  if Token.isQuoted token then .word (String.ofList (Token.unquote token))
  else match Text.cut (· == '(') token with
    | some (key, rest) =>
      .keyword (Text.upper (String.ofList key)) (Command.keywordValue rest)
    | none =>
      let word := Text.upper (String.ofList token)
      if token.all Char.isAlpha && behind || Command.knownFlags.contains word then .flag word
      else .word word

/-- The text of a word. -/
def word? : Operand → Option String
  | .word text => some text
  | _ => none

/-- The text of a flag. -/
def flag? : Operand → Option String
  | .flag given => some given
  | _ => none

/-- The value for a keyword. -/
def valueOf? (key : String) : Operand → Option String
  | .keyword given value => if given = key then some value else none
  | _ => none

/-- What tokens are read as, one after the other. -/
def ofTokens (behind : Bool) : List (List Char) → List Operand
  | [] => []
  | token :: rest =>
    let operand := ofToken behind token
    operand :: ofTokens (behind || operand.word?.isSome) rest

/-- What the tokens of an operand list are read as. -/
def ofText (text : String) : List Operand :=
  ofTokens false (Command.tokensOf text)

/-- Every token is one operand. -/
theorem length_ofTokens (behind : Bool) (tokens : List (List Char)) :
    (ofTokens behind tokens).length = tokens.length := by
  induction tokens generalizing behind with
  | nil => rfl
  | cons token rest ih => exact congrArg (· + 1) (ih _)

/-- The last value for a keyword. -/
def lastValue (key : String) (operands : List Operand) : Option String :=
  (operands.filterMap (valueOf? key)).getLast?

/-- The value for several keywords of one meaning: the last one for the
first of them that is there. -/
def chosen (names : List String) (operands : List Operand) : Option String :=
  names.findSome? (lastValue · operands)

end Operand

-- ============================================================ gathering

namespace Command

/-- Gathers one operand. -/
def gather (command : Command) : Operand → Command
  | .word text => { command with positional := command.positional ++ [text] }
  | .keyword key value => { command with keywords := setKeyword key value command.keywords }
  | .flag word => { command with flags := command.flags ++ [word] }

/-- Adding a token is gathering the operand it stands for. -/
theorem addOperand_eq (command : Command) (token : List Char) :
    command.addOperand token
      = command.gather (Operand.ofToken (!command.positional.isEmpty) token) := by
  unfold addOperand Operand.ofToken
  split
  · rfl
  · cases Text.cut (· == '(') token with
    | some parts => rfl
    | none =>
        simp only
        split
        · rfl
        · rfl

/-- There is a word in front of what follows an operand if there was one
before or the operand is one. -/
theorem gather_behind (command : Command) (operand : Operand) :
    (!(command.gather operand).positional.isEmpty)
      = (!command.positional.isEmpty || operand.word?.isSome) := by
  cases operand with
  | word text => simp [gather, Operand.word?]
  | keyword key value => simp [gather, Operand.word?]
  | flag word => simp [gather, Operand.word?]

/-- Adding tokens is gathering what they are read as. -/
theorem foldl_addOperand (tokens : List (List Char)) (command : Command) :
    tokens.foldl addOperand command
      = (Operand.ofTokens (!command.positional.isEmpty) tokens).foldl gather command := by
  induction tokens generalizing command with
  | nil => rfl
  | cons token rest ih =>
      unfold Operand.ofTokens
      rw [List.foldl_cons, addOperand_eq, ih, gather_behind, List.foldl_cons]

/-- So a command gathers the operands of its text. -/
theorem ofOperands_eq (text : String) :
    ofOperands text = (Operand.ofText text).foldl gather {} :=
  foldl_addOperand _ {}

/-- Words are gathered in their order. -/
theorem positional_foldl (operands : List Operand) (command : Command) :
    (operands.foldl gather command).positional
      = command.positional ++ operands.filterMap Operand.word? := by
  induction operands generalizing command with
  | nil => simp
  | cons operand rest ih =>
      rw [List.foldl_cons, ih, List.filterMap_cons]
      cases operand with
      | word text => simp [gather, Operand.word?]
      | keyword key value => simp [gather, Operand.word?]
      | flag word => simp [gather, Operand.word?]

/-- So are flags. -/
theorem flags_foldl (operands : List Operand) (command : Command) :
    (operands.foldl gather command).flags = command.flags ++ operands.filterMap Operand.flag? := by
  induction operands generalizing command with
  | nil => simp
  | cons operand rest ih =>
      rw [List.foldl_cons, ih, List.filterMap_cons]
      cases operand with
      | word text => simp [gather, Operand.flag?]
      | keyword key value => simp [gather, Operand.flag?]
      | flag word => simp [gather, Operand.flag?]

/-- A keyword that is set again has its last value. -/
theorem lookup_setKeyword (key value other : String) (keywords : List (String × String)) :
    (setKeyword key value keywords).lookup other
      = if other = key then some value else keywords.lookup other := by
  induction keywords with
  | nil =>
      unfold setKeyword
      by_cases h : other = key
      · simp [h]
      · simp [List.lookup_cons, h, beq_eq_false_iff_ne.mpr h]
  | cons entry rest ih =>
      obtain ⟨given, held⟩ := entry
      unfold setKeyword
      by_cases hgiven : given = key
      · subst hgiven
        by_cases h : other = given
        · simp [h]
        · simp [List.lookup_cons, h, beq_eq_false_iff_ne.mpr h]
      · simp only [if_neg hgiven, List.lookup_cons, ih]
        by_cases h : other = key
        · subst h
          simp [beq_eq_false_iff_ne.mpr (Ne.symm hgiven)]
        · simp [h]

/-- The value of a keyword is the last one, or the one there was before. -/
theorem lookup_foldl (operands : List Operand) (command : Command) (key : String) :
    (operands.foldl gather command).keywords.lookup key
      = (Operand.lastValue key operands).or (command.keywords.lookup key) := by
  unfold Operand.lastValue
  induction operands generalizing command with
  | nil => simp
  | cons operand rest ih =>
      rw [List.foldl_cons, ih, List.filterMap_cons]
      cases operand with
      | word text => rfl
      | keyword given value =>
          show Option.or _ ((setKeyword given value command.keywords).lookup key) = _
          rw [lookup_setKeyword]
          by_cases h : given = key
          · subst h
            simp only [Operand.valueOf?, if_true, List.getLast?_cons]
            cases (rest.filterMap (Operand.valueOf? given)).getLast? with
            | some last => rfl
            | none => rfl
          · rw [if_neg (Ne.symm h)]
            simp only [Operand.valueOf?, if_neg h]
      | flag word => rfl

/-- A keyword is there if it was given, or was there before. -/
theorem mem_keys_foldl (operands : List Operand) (command : Command) (key : String) :
    key ∈ (operands.foldl gather command).keywords.map Prod.fst ↔
      key ∈ command.keywords.map Prod.fst ∨ ∃ value, .keyword key value ∈ operands := by
  have hset : ∀ (given value : String) (keywords : List (String × String)),
      key ∈ (setKeyword given value keywords).map Prod.fst ↔
        key = given ∨ key ∈ keywords.map Prod.fst := by
    intro given value keywords
    induction keywords with
    | nil => simp [setKeyword]
    | cons entry rest ih =>
        unfold setKeyword
        split
        · next h => simp [h]
        · rw [List.map_cons, List.mem_cons, ih, List.map_cons, List.mem_cons]
          exact or_left_comm
  induction operands generalizing command with
  | nil => simp
  | cons operand rest ih =>
      refine (ih (command.gather operand)).trans ?_
      cases operand with
      | word text => simp [gather]
      | keyword given value =>
          refine (or_congr_left (hset given value command.keywords)).trans ?_
          simp only [List.mem_cons, Operand.keyword.injEq, exists_or, exists_and_left,
            exists_eq, and_true]
          exact or_assoc.trans or_left_comm
      | flag word => simp [gather]

-- ------------------------------------------------- what a list holds

/-- The positional operands of a text are its words. -/
theorem positional_ofOperands (text : String) :
    (ofOperands text).positional = (Operand.ofText text).filterMap Operand.word? := by
  rw [ofOperands_eq, positional_foldl]
  rfl

/-- Its flags are its flags. -/
theorem flags_ofOperands (text : String) :
    (ofOperands text).flags = (Operand.ofText text).filterMap Operand.flag? := by
  rw [ofOperands_eq, flags_foldl]
  rfl

/-- Asking for several keywords, each in upper case. -/
theorem keyword_ofOperands {names : List String} (hupper : ∀ name ∈ names, Text.upper name = name)
    (text : String) :
    (ofOperands text).keyword names = Operand.chosen names (Operand.ofText text) := by
  have hvalue : ∀ key, (ofOperands text).keywords.lookup key
      = Operand.lastValue key (Operand.ofText text) := by
    intro key
    rw [ofOperands_eq, lookup_foldl]
    exact Option.or_none
  unfold keyword Operand.chosen
  induction names with
  | nil => rfl
  | cons name rest ih =>
      rw [List.findSome?_cons, List.findSome?_cons, hupper name List.mem_cons_self, hvalue,
        ih fun other hother => hupper other (List.mem_cons_of_mem _ hother)]

end Command

-- ======================================================== the decisions

/-- A sequence returned: its first part did, and its second did with what
the first returned. -/
theorem bind_eq_ok_iff {ε α β : Type} {x : Except ε α} {f : α → Except ε β} {b : β} :
    (x >>= f) = .ok b ↔ ∃ a, x = .ok a ∧ f a = .ok b := by
  cases x with
  | ok a => simp [bind, Except.bind]
  | error e => simp [bind, Except.bind]

/-- A check passed and the rest returned. -/
theorem unit_bind_eq_ok_iff {ε β : Type} {x : Except ε Unit} {f : Unit → Except ε β} {b : β} :
    (x >>= f) = .ok b ↔ x = .ok () ∧ f () = .ok b := by
  rw [bind_eq_ok_iff]
  exact ⟨fun ⟨_, h⟩ => h, fun h => ⟨(), h⟩⟩

namespace Name

/-- The check passes if and only if there is no flaw. -/
theorem checkDdname_eq_ok_iff {name : String} {u : Unit} :
    checkDdname name = .ok u ↔ ddnameFlaw? name = none := by
  refine ⟨checkDdname_ok, fun h => ?_⟩
  unfold checkDdname
  rw [h]

theorem checkDsname_eq_ok_iff {name : String} {u : Unit} :
    checkDsname name = .ok u ↔ dsnameFlaw? name = none := by
  unfold checkDsname
  cases dsnameFlaw? name with
  | none => simp
  | some flaw => simp

end Name

/-- A status is read from its own word and no other. -/
theorem DatasetStatus.ofKeyword?_eq_some_iff {word : String} {status : DatasetStatus} :
    ofKeyword? word = some status ↔ word = status.keyword := by
  constructor
  · intro h
    unfold ofKeyword? at h
    split at h
    · next hword => cases h; exact hword
    · split at h
      · next hword => cases h; exact hword
      · split at h
        · next hword => cases h; exact hword
        · split at h
          · next hword => cases h; exact hword
          · cases h
  · rintro rfl
    cases status with
    | shr => decide
    | old => decide
    | new => decide
    | mod => decide

namespace AllocationRequest

/-- The DD the operands name: by a keyword, or by the one word there is. -/
def Names (operands : List Operand) (ddname : String) : Prop :=
  operands.filterMap Operand.word? = [ddname] ∧ Operand.chosen ddnameKeywords operands = none
    ∨ operands.filterMap Operand.word? = [] ∧ Operand.chosen ddnameKeywords operands = some ddname

/-- What operands of an allocation have to be, for one that names this DD
and gives this status. -/
structure Asks (operands : List Operand) (ddname : String) (status : Option DatasetStatus) :
    Prop where
  names : Names operands ddname
  flawless : Name.ddnameFlaw? ddname = none
  dataset : ∀ dsname ∈ Operand.chosen dsnameKeywords operands,
    Name.dsnameFlaw? (Text.upper dsname) = none
  keywords : ∀ key value, .keyword key value ∈ operands → key ∈ ddnameKeywords ++ dsnameKeywords
  status : operands.filterMap Operand.flag? = status.toList.map DatasetStatus.keyword

/-- The request for a DD, a dataset and a status; without a status a dataset
is there to be shared, and a temporary one is new. -/
def asked (ddname : String) (dsname : Option String) (status : Option DatasetStatus) :
    AllocationRequest :=
  { ddname := some ddname, dsname, status := status.getD (if dsname.isSome then .shr else .new) }

/-- The DD name of a command is the one its operands choose. -/
theorem ddname_ofOperands (text : String) :
    (Command.ofOperands text).keyword ddnameKeywords
      = Operand.chosen ddnameKeywords (Operand.ofText text) :=
  Command.keyword_ofOperands (by decide +kernel) text

/-- So is its dataset name. -/
theorem dsname_ofOperands (text : String) :
    (Command.ofOperands text).keyword dsnameKeywords
      = Operand.chosen dsnameKeywords (Operand.ofText text) :=
  Command.keyword_ofOperands (by decide +kernel) text

/-- A text has a DD name if and only if its operands name one. -/
theorem ddnameOf_eq_ok_iff {ddname : String} :
    ddnameOf (Command.ofOperands text) text = .ok ddname ↔
      Names (Operand.ofText text) ddname := by
  unfold ddnameOf Names
  rw [ddname_ofOperands, Command.positional_ofOperands]
  cases Operand.chosen ddnameKeywords (Operand.ofText text) with
  | some keyed =>
      cases (Operand.ofText text).filterMap Operand.word? with
      | nil => simp
      | cons word rest => simp
  | none =>
      match (Operand.ofText text).filterMap Operand.word? with
      | [] => simp
      | [word] => simp
      | word :: other :: rest => simp

/-- There is at most one status, and no flag that is none. -/
theorem statusOf_eq_ok_iff {flags : List String} {status : Option DatasetStatus} :
    statusOf none flags = .ok status ↔ flags = status.toList.map DatasetStatus.keyword := by
  match flags with
  | [] =>
      cases status with
      | none => simp [statusOf]
      | some given => simp [statusOf]
  | flag :: rest =>
      unfold statusOf
      cases hflag : DatasetStatus.ofKeyword? flag with
      | none =>
          -- the flag is no status, so it is not the one asked about
          have hne : ∀ given : DatasetStatus, flag ≠ given.keyword := by
            intro given hgiven
            rw [DatasetStatus.ofKeyword?_eq_some_iff.mpr hgiven] at hflag
            cases hflag
          cases status with
          | none => simp
          | some given => simp [hne given]
      | some found =>
          have hfound := DatasetStatus.ofKeyword?_eq_some_iff.mp hflag
          have hmany : rest ≠ [] → ∀ given, statusOf (some found) rest ≠ .ok given := by
            intro hrest given
            obtain ⟨next, later, rfl⟩ := List.exists_cons_of_ne_nil hrest
            unfold statusOf
            cases DatasetStatus.ofKeyword? next with
            | none => simp
            | some second => simp
          cases rest with
          | nil =>
              have hkeyword : ∀ given : DatasetStatus, found = given ↔ flag = given.keyword := by
                intro given
                rw [← DatasetStatus.ofKeyword?_eq_some_iff, hflag, Option.some.injEq]
              cases status with
              | none => simp [statusOf]
              | some given => simp [statusOf, hkeyword given]
          | cons next later =>
              cases status with
              | none => simpa using hmany (List.cons_ne_nil _ _) none
              | some given => simpa using hmany (List.cons_ne_nil _ _) (some given)

/-- The keywords are known exactly if those of the operands are. -/
theorem unknown_eq_none_iff (text : String) :
    (Command.ofOperands text).keywords.find?
        (fun entry => !(ddnameKeywords ++ dsnameKeywords).contains entry.1) = none ↔
      ∀ key value, .keyword key value ∈ Operand.ofText text →
        key ∈ ddnameKeywords ++ dsnameKeywords := by
  simp only [List.find?_eq_none, Bool.not_eq_true, Bool.not_eq_false', List.contains_iff_mem]
  constructor
  · intro h key value hmem
    have hkey := (Command.mem_keys_foldl (Operand.ofText text) {} key).mpr (.inr ⟨value, hmem⟩)
    rw [← Command.ofOperands_eq] at hkey
    obtain ⟨entry, hentry, rfl⟩ := List.mem_map.mp hkey
    exact h entry hentry
  · intro h entry hentry
    have hkey := List.mem_map_of_mem (f := Prod.fst) hentry
    rw [Command.ofOperands_eq, Command.mem_keys_foldl] at hkey
    obtain ⟨value, hmem⟩ := hkey.resolve_left (by simp)
    exact h _ value hmem

/-- A request is read from a text exactly if the operands ask for it. -/
theorem parse_eq_ok_iff {request : AllocationRequest} :
    parse text = .ok request ↔ ∃ ddname status, Asks (Operand.ofText text) ddname status
      ∧ request = asked ddname
        ((Operand.chosen dsnameKeywords (Operand.ofText text)).map Text.upper) status := by
  have hstatus : ∀ (ddname : String) (dsname : Option String),
      (statusOf none (Command.ofOperands text).flags >>= fun status =>
        (pure (asked ddname dsname status) : Except Error AllocationRequest)) = .ok request ↔
      ∃ status : Option DatasetStatus,
        (Operand.ofText text).filterMap Operand.flag? = status.toList.map DatasetStatus.keyword
          ∧ request = asked ddname dsname status := by
    intro ddname dsname
    rw [bind_eq_ok_iff, Command.flags_ofOperands]
    simp only [statusOf_eq_ok_iff, pure, Except.pure, Except.ok.injEq, @eq_comm _ _ request]
  have hknown := unknown_eq_none_iff text
  unfold parse
  rw [bind_eq_ok_iff]
  simp only [unit_bind_eq_ok_iff, ddnameOf_eq_ok_iff, Name.checkDdname_eq_ok_iff,
    dsname_ofOperands]
  cases hfind : (Command.ofOperands text).keywords.find? fun entry =>
      !(ddnameKeywords ++ dsnameKeywords).contains entry.1 with
  | some entry =>
      constructor
      · rintro ⟨ddname, -, -, h⟩
        cases hdsname : Operand.chosen dsnameKeywords (Operand.ofText text) with
        | none => rw [hdsname] at h; cases h
        | some dsname =>
            simp only [hdsname, Option.map_some, unit_bind_eq_ok_iff] at h
            cases h.2.1
      · rintro ⟨ddname, status, hasks, -⟩
        rw [hknown.mpr hasks.keywords] at hfind
        cases hfind
  | none =>
      have hkeywords := hknown.mp hfind
      cases hdsname : Operand.chosen dsnameKeywords (Operand.ofText text) with
      | none =>
          constructor
          · rintro ⟨ddname, hnames, hflawless, h⟩
            obtain ⟨status, hflags, hrequest⟩ := (hstatus ddname none).mp h
            exact ⟨ddname, status, ⟨hnames, hflawless, by simp [hdsname], hkeywords, hflags⟩,
              hrequest⟩
          · rintro ⟨ddname, status, hasks, hrequest⟩
            exact ⟨ddname, hasks.names, hasks.flawless,
              (hstatus ddname none).mpr ⟨status, hasks.status, hrequest⟩⟩
      | some dsname =>
          simp only [Option.map_some, unit_bind_eq_ok_iff, Name.checkDsname_eq_ok_iff]
          constructor
          · rintro ⟨ddname, hnames, hflawless, hdataset, h⟩
            obtain ⟨status, hflags, hrequest⟩ := (hstatus ddname (some (Text.upper dsname))).mp h
            refine ⟨ddname, status, ⟨hnames, hflawless, ?_, hkeywords, hflags⟩, hrequest⟩
            rw [hdsname]
            rintro _ ⟨⟩
            exact hdataset
          · rintro ⟨ddname, status, hasks, hrequest⟩
            exact ⟨ddname, hasks.names, hasks.flawless, hasks.dataset dsname hdsname,
              (hstatus ddname _).mpr ⟨status, hasks.status, hrequest⟩⟩

/-- What a request that was read from a text asks for. -/
theorem parse_ok {request : AllocationRequest} (h : parse text = .ok request) :
    (∃ given, request.ddname = some given ∧ Name.ddnameFlaw? given = none)
      ∧ ∀ dsname, request.dsname = some dsname →
        Name.dsnameFlaw? dsname = none ∧ Text.upper dsname = dsname := by
  obtain ⟨given, status, hasks, rfl⟩ := parse_eq_ok_iff.mp h
  refine ⟨⟨given, rfl, hasks.flawless⟩, fun dsname hdsname => ?_⟩
  obtain ⟨keyed, hkeyed, rfl⟩ := Option.map_eq_some_iff.mp hdsname
  exact ⟨hasks.dataset keyed hkeyed, Text.upper_upper keyed⟩

end AllocationRequest

/-- A text to free by names a DD if its operands do, and the name has no
flaw. -/
theorem DdName.ofFree_eq_ok_iff {name : DdName} :
    ofFree text = .ok name ↔ ∃ ddname, AllocationRequest.Names (Operand.ofText text) ddname
      ∧ Name.ddnameFlaw? ddname = none ∧ Text.upper ddname = name.text := by
  unfold ofFree AllocationRequest.Names
  simp only [AllocationRequest.ddname_ofOperands, Command.positional_ofOperands]
  cases Operand.chosen AllocationRequest.ddnameKeywords (Operand.ofText text) with
  | some keyed =>
      cases (Operand.ofText text).filterMap Operand.word? with
      | nil => simp [ofString_eq_ok_iff]
      | cons word rest => simp
  | none =>
      match (Operand.ofText text).filterMap Operand.word? with
      | [] => simp
      | [word] => simp [ofString_eq_ok_iff]
      | word :: other :: rest => simp

-- ============================================================= counting

namespace Operand

/-- A keyword that names the DD. -/
def isDdKeyword : Operand → Bool
  | .keyword key _ => AllocationRequest.ddnameKeywords.contains key
  | _ => false

/-- An operand that names the DD: a word, or a keyword for that. -/
def isDdname : Operand → Bool
  | .word _ => true
  | operand => operand.isDdKeyword

/-- A keyword that names the dataset. -/
def isDataset : Operand → Bool
  | .keyword key _ => AllocationRequest.dsnameKeywords.contains key
  | _ => false

/-- A flag that is a status. -/
def isStatus : Operand → Bool
  | .flag given => (DatasetStatus.ofKeyword? given).isSome
  | _ => false

/-- A DD is named by a word or by a keyword. -/
theorem countP_isDdname (operands : List Operand) :
    operands.countP isDdname = (operands.filterMap word?).length + operands.countP isDdKeyword := by
  induction operands with
  | nil => rfl
  | cons operand rest ih =>
      rw [List.countP_cons, List.countP_cons, List.filterMap_cons, ih]
      cases operand with
      | word text =>
          simp only [isDdname, isDdKeyword, word?, List.length_cons, if_true, Bool.false_eq_true,
            if_false]
          omega
      | keyword key value => exact Nat.add_assoc _ _ _
      | flag given => rfl

/-- No value is chosen exactly where none of the keywords is. -/
theorem chosen_eq_none_iff {names : List String} :
    chosen names operands = none ↔ ∀ key value, .keyword key value ∈ operands → key ∉ names := by
  have hlast : ∀ name, lastValue name operands = none ↔
      ∀ value, .keyword name value ∉ operands := by
    intro name
    unfold lastValue
    rw [List.getLast?_eq_none_iff, List.filterMap_eq_nil_iff]
    constructor
    · intro h value hmem
      have := h _ hmem
      simp [valueOf?] at this
    · intro h operand hmem
      cases operand with
      | word text => rfl
      | keyword key value =>
          have hne : key ≠ name := fun heq => h value (heq ▸ hmem)
          simp [valueOf?, hne]
      | flag given => rfl
  unfold chosen
  simp only [List.findSome?_eq_none_iff, hlast]
  exact ⟨fun h key value hmem hkey => h key hkey value hmem,
    fun h name hname value hmem => h name value hmem hname⟩

end Operand

namespace AllocationRequest

/-- Operands of which none is passed over: one names the DD, one at most the
dataset, one at most is a status, and there is nothing else. -/
structure Exact (operands : List Operand) : Prop where
  ddname : operands.countP Operand.isDdname = 1
  dataset : operands.countP Operand.isDataset ≤ 1
  status : operands.countP Operand.isStatus ≤ 1
  known : ∀ operand ∈ operands,
    operand.isDdname = true ∨ operand.isDataset = true ∨ operand.isStatus = true

/-- Where a DD is named, it is named once unless keywords name it twice. -/
theorem Names.countP_isDdname {ddname : String} (h : Names operands ddname) :
    1 ≤ operands.countP Operand.isDdname
      ∧ (operands.countP Operand.isDdname = 1 ↔ operands.countP Operand.isDdKeyword ≤ 1) := by
  rw [Operand.countP_isDdname]
  rcases h with ⟨hword, hnone⟩ | ⟨hword, hsome⟩
  · have hkeywords : operands.countP Operand.isDdKeyword = 0 := by
      rw [List.countP_eq_zero]
      intro operand hmem hkeyword
      cases operand with
      | keyword key value =>
          have hkey := Operand.chosen_eq_none_iff.mp hnone key value hmem
          exact hkey (List.contains_iff_mem.mp hkeyword)
      | word text => cases hkeyword
      | flag given => cases hkeyword
    rw [hword, hkeywords]
    simp
  · have hkeywords : 0 < operands.countP Operand.isDdKeyword := by
      rw [List.countP_pos_iff]
      by_contra hnone
      have : Operand.chosen ddnameKeywords operands = none := by
        refine Operand.chosen_eq_none_iff.mpr fun key value hmem hkey => hnone ?_
        exact ⟨_, hmem, List.contains_iff_mem.mpr hkey⟩
      rw [this] at hsome
      cases hsome
    rw [hword, List.length_nil]
    omega

/-- Operands that are accepted are known, and one at most is a status. -/
theorem Asks.known {ddname : String} {status : Option DatasetStatus}
    (h : Asks operands ddname status) :
    (∀ operand ∈ operands,
      operand.isDdname = true ∨ operand.isDataset = true ∨ operand.isStatus = true)
      ∧ operands.countP Operand.isStatus ≤ 1 := by
  constructor
  · intro operand hmem
    cases operand with
    | word text => exact .inl rfl
    | keyword key value =>
        rcases List.mem_append.mp (h.keywords key value hmem) with hkey | hkey
        · exact .inl (List.contains_iff_mem.mpr hkey)
        · exact .inr (.inl (List.contains_iff_mem.mpr hkey))
    | flag given =>
        have hflag : given ∈ operands.filterMap Operand.flag? :=
          List.mem_filterMap.mpr ⟨_, hmem, rfl⟩
        rw [h.status] at hflag
        obtain ⟨found, -, rfl⟩ := List.mem_map.mp hflag
        refine .inr (.inr ?_)
        show (DatasetStatus.ofKeyword? found.keyword).isSome = true
        rw [DatasetStatus.ofKeyword?_eq_some_iff.mpr rfl]
        rfl
  · have hflags : operands.countP Operand.isStatus ≤ (operands.filterMap Operand.flag?).length := by
      rw [List.length_filterMap_eq_countP]
      refine List.countP_mono_left fun operand _ hstatus => ?_
      cases operand with
      | word text => cases hstatus
      | keyword key value => cases hstatus
      | flag given => rfl
    rw [h.status, List.length_map] at hflags
    cases status with
    | none => exact Nat.le_trans hflags (Nat.zero_le _)
    | some found => exact hflags

end AllocationRequest

-- ============================================================== theorem

open AllocationRequest in
/-- There is an operand for each token. The operands of an allocation are
accepted exactly where they ask for one, and then each of them is known and
one at most is a status; none is passed over exactly if no two keywords name
the DD and no two the dataset. The operands of a free are accepted exactly
where they name a DD, and then there is one operand exactly if no two
keywords name the DD and nothing stands there that names none. Every other
text is refused. -/
theorem operands_accounted (text : String) :
    (Operand.ofText text).length = (Command.tokensOf text).length ∧
      let operands := Operand.ofText text
      ((∃ request, AllocationRequest.parse text = .ok request) ↔
        ∃ ddname status, Asks operands ddname status)
      ∧ (∀ ddname status, Asks operands ddname status →
        (Exact operands ↔ operands.countP Operand.isDdKeyword ≤ 1
          ∧ operands.countP Operand.isDataset ≤ 1))
      ∧ ((¬ ∃ ddname status, Asks operands ddname status) →
        ∃ cause, AllocationRequest.parse text = .error cause)
      ∧ ((∃ name, DdName.ofFree text = .ok name) ↔
        ∃ ddname, Names operands ddname ∧ Name.ddnameFlaw? ddname = none)
      ∧ (∀ ddname, Names operands ddname →
        (operands.length = 1 ↔ operands.countP Operand.isDdKeyword ≤ 1
          ∧ ∀ operand ∈ operands, operand.isDdname = true))
      ∧ ((¬ ∃ ddname, Names operands ddname ∧ Name.ddnameFlaw? ddname = none) →
        ∃ cause, DdName.ofFree text = .error cause) := by
  refine ⟨Operand.length_ofTokens _ _, ?_⟩
  intro operands
  have hparse : (∃ request, AllocationRequest.parse text = .ok request) ↔
      ∃ ddname status, Asks operands ddname status := by
    simp only [parse_eq_ok_iff]
    exact ⟨fun ⟨_, ddname, status, h, _⟩ => ⟨ddname, status, h⟩,
      fun ⟨ddname, status, h⟩ => ⟨_, ddname, status, h, rfl⟩⟩
  have hfree : (∃ name, DdName.ofFree text = .ok name) ↔
      ∃ ddname, Names operands ddname ∧ Name.ddnameFlaw? ddname = none := by
    constructor
    · rintro ⟨name, hname⟩
      obtain ⟨ddname, hnames, hflawless, -⟩ := DdName.ofFree_eq_ok_iff.mp hname
      exact ⟨ddname, hnames, hflawless⟩
    · rintro ⟨ddname, hnames, hflawless⟩
      obtain ⟨name, hname⟩ := DdName.ofString_of_no_flaw hflawless
      exact ⟨name, DdName.ofFree_eq_ok_iff.mpr
        ⟨ddname, hnames, DdName.ofString_eq_ok_iff.mp hname⟩⟩
  refine ⟨hparse, fun ddname status hasks => ?_, fun hnone => ?_,
    hfree, fun ddname hnames => ?_, fun hnone => ?_⟩
  · obtain ⟨hknown, hstatus⟩ := hasks.known
    have hcount := hasks.names.countP_isDdname.2
    exact ⟨fun h => ⟨hcount.mp h.ddname, h.dataset⟩,
      fun h => ⟨hcount.mpr h.1, h.2, hstatus, hknown⟩⟩
  · cases hread : AllocationRequest.parse text with
    | ok request => exact absurd (hparse.mp ⟨request, hread⟩) hnone
    | error cause => exact ⟨cause, rfl⟩
  · obtain ⟨hsome, hcount⟩ := hnames.countP_isDdname
    have hle : operands.countP Operand.isDdname ≤ operands.length := List.countP_le_length
    constructor
    · intro hone
      exact ⟨hcount.mp (by omega), List.countP_eq_length.mp (by omega)⟩
    · rintro ⟨hkeywords, hall⟩
      rw [← List.countP_eq_length.mpr hall]
      exact hcount.mpr hkeywords
  · cases hread : DdName.ofFree text with
    | ok name => exact absurd (hfree.mp ⟨name, hread⟩) hnone
    | error cause => exact ⟨cause, rfl⟩

open AllocationRequest in
/-- Two keywords that name a DD are taken for one, and beside the DD a free
is given anything. -/
theorem operands_overlooked :
    AllocationRequest.parse "FILE(A) DD(B) DA(X.Y) DSN(Z)"
        = .ok { ddname := some "A", dsname := some "Z", status := .shr }
      ∧ ¬ Exact (Operand.ofText "FILE(A) DD(B) DA(X.Y) DSN(Z)")
      ∧ DdName.ofFree "FILE(A) DD(B)" = .ok { text := "A" }
      ∧ (Operand.ofText "FILE(A) DD(B)").countP Operand.isDdname = 2
      ∧ DdName.ofFree "A SHR DA(X.Y) B" = .ok { text := "A" }
      ∧ (Operand.ofText "A SHR DA(X.Y) B").length = 4 := by
  refine ⟨by decide +kernel, fun h => ?_, by decide +kernel, by decide +kernel, by decide +kernel,
    by decide +kernel⟩
  have htwo : (Operand.ofText "FILE(A) DD(B) DA(X.Y) DSN(Z)").countP Operand.isDdname = 2 := by
    decide +kernel
  rw [h.ddname] at htwo
  cases htwo

end TsoBridge
