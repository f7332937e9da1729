/-
Settings by their lines. A line does what it does by itself (`effect`): it
sets one part of the settings, or nothing, or it cannot be used. Lines are
read exactly if each of them can be used and no key comes twice, and then
what they set is set (`ofLines_ok_iff`).

# Order

Each key has a part of the settings of its own, so two assignments of
different keys commute (`Assignment.apply_comm`), and that no key comes
twice does not depend on the order either. A line that is blank, a comment
or a key of someone else sets nothing (`readLine_skipped_iff`) and can be
put in or left out anywhere.

# The first error

Lines are taken in one by one and reading stops at the first that fails,
so what was read before it is read without it, and what comes behind it
does not matter (`addLines_error`).
-/
import Mathlib.Data.List.Nodup
import Mathlib.Order.Bounds.Defs
import Mathlib.Tactic.MkIffOfInductiveProp
import TsoBridge.Proofs.Assignment
import TsoBridge.Proofs.Parts
import TsoBridge.Proofs.Spacing

namespace TsoBridge

-- ============================================================== trimming

namespace Text

variable {lead cs : List Char}

/-- A text is its trimmed part with blanks around. -/
theorem eq_trimmed_around (cs : List Char) :
    ∃ lead trail, cs = lead ++ (trimmed cs ++ trail) ∧ (∀ c ∈ lead, isBlank c = true)
      ∧ ∀ c ∈ trail, isBlank c = true := by
  refine ⟨cs.takeWhile isBlank, ((cs.dropWhile isBlank).reverse.takeWhile isBlank).reverse,
    ?_, fun c hc => List.mem_takeWhile_imp hc, fun c hc => ?_⟩
  · unfold trimmed
    rw [← List.reverse_append, List.takeWhile_append_dropWhile, List.reverse_reverse,
      List.takeWhile_append_dropWhile]
  · exact List.mem_takeWhile_imp (List.mem_reverse.mp hc)

/-- Nothing is left of blanks. -/
theorem trimmed_of_blank (h : ∀ c ∈ cs, isBlank c = true) : trimmed cs = [] := by
  unfold trimmed
  rw [List.dropWhile_eq_nil_iff.mpr h]
  rfl

/-- Blanks in front do not matter. -/
theorem trimmed_append_of_blank (h : ∀ c ∈ lead, isBlank c = true) (cs : List Char) :
    trimmed (lead ++ cs) = trimmed cs := by
  unfold trimmed
  rw [List.dropWhile_append_of_pos h]

theorem trimmed_dropWhile (cs : List Char) : trimmed (cs.dropWhile isBlank) = trimmed cs := by
  unfold trimmed
  rw [dropWhile_of_head? (head?_dropWhile_isBlank cs)]

theorem tight_singleton {c : Char} (h : isBlank c = false) : Tight [c] := by
  constructor
  · rintro d ⟨⟩
    exact h
  · rintro d ⟨⟩
    exact h

end Text

namespace Settings

open Text

variable {raw : String} {content other : List String} {settings : Settings}

-- ============================================================ idle lines

/-- A line that says nothing to this system: it is blank, a comment, or
sets a key that lies in none of the namespaces. -/
inductive Silent (raw : String) : Prop where
  | blank (h : ∀ c ∈ raw.toList, isBlank c = true)
  | comment (lead rest : List Char) (mark : Char) (htext : raw.toList = lead ++ mark :: rest)
      (hlead : ∀ c ∈ lead, isBlank c = true) (hmark : mark = '#' ∨ mark = '*')
  | foreign (before after : List Char) (htext : raw.toList = before ++ '=' :: after)
      (hfirst : '=' ∉ before) (hkey : lower (trim (String.ofList before)) ≠ "")
      (hspaces : ∀ space ∈ ["tso.", "allow.", "trace.", "limits."],
        ¬space.toList <+: (lower (trim (String.ofList before))).toList)

/-- A silent line that is not too long. -/
def Idle (raw : String) : Prop :=
  raw.utf8ByteSize ≤ 1024 ∧ Silent raw

/-- A key is nobody's if it begins with none of the prefixes. -/
theorem isOwned_eq_false_iff {key : String} :
    isOwned key = false ↔
      ∀ space ∈ ["tso.", "allow.", "trace.", "limits."], ¬space.toList <+: key.toList := by
  unfold isOwned namespaces
  rw [List.any_eq_false]
  simp only [List.isPrefixOf_iff_prefix]

/-- A line that is passed over says nothing. -/
theorem silent_of_skipped (h : readLine raw = .ok .skipped) : Silent raw := by
  obtain ⟨lead, trail, htext, hlead, htrail⟩ := eq_trimmed_around raw.toList
  have hmarked : ∀ mark, mark = '#' ∨ mark = '*' → (trimmed raw.toList).head? = some mark →
      Silent raw := by
    intro mark hmark hhead
    obtain ⟨rest, hrest⟩ := List.head?_eq_some_iff.mp hhead
    rw [hrest] at htext
    exact .comment lead (rest ++ trail) mark htext hlead hmark
  unfold readLine at h
  split at h
  · cases h
  simp only at h
  split at h
  · next hnothing =>
    simp only [Bool.or_eq_true, List.isEmpty_iff, beq_iff_eq] at hnothing
    rcases hnothing with (hempty | hhash) | hstar
    · rw [hempty, List.nil_append] at htext
      refine .blank fun c hc => ?_
      rw [htext] at hc
      exact (List.mem_append.mp hc).elim (hlead c) (htrail c)
    · exact hmarked '#' (.inl rfl) hhash
    · exact hmarked '*' (.inr rfl) hstar
  split at h
  · cases h
  next before after hcut =>
    obtain ⟨c, hc, hparts, hfree⟩ := cut_eq_some hcut
    have hequals : c = '=' := by simpa using hc
    have hkey : trim (String.ofList (lead ++ before)) = trim (String.ofList before) := by
      unfold trim
      rw [String.toList_ofList, String.toList_ofList, trimmed_append_of_blank hlead]
    split at h
    · cases h
    next hsome =>
    split at h
    · cases h
    next howned =>
      refine .foreign (lead ++ before) (after ++ trail) ?_ ?_ ?_ ?_
      · rw [hparts, hequals] at htext
        rw [htext]
        simp
      · intro hmem
        rcases List.mem_append.mp hmem with hin | hin
        · have hblank := hlead _ hin
          exact absurd hblank (by decide)
        · have hother := hfree _ hin
          exact absurd hother (by decide)
      · rw [hkey]
        exact hsome
      · rw [hkey]
        exact isOwned_eq_false_iff.mp (Bool.eq_false_iff.mpr howned)

/-- What is left of a line from a mark on, with blanks in front of it. -/
theorem trimmed_mark {lead rest : List Char} {mark : Char} (hmark : isBlank mark = false)
    (h : raw.toList = lead ++ mark :: rest) :
    ∃ back, trimmed raw.toList = lead.dropWhile isBlank ++ mark :: back := by
  have htrimmed := trimmed_middle (List.cons_ne_nil mark []) (tight_singleton hmark) lead rest
  rw [h]
  exact ⟨_, htrimmed⟩

/-- The lines that are passed over are the idle ones. -/
theorem readLine_skipped_iff : readLine raw = .ok .skipped ↔ Idle raw := by
  constructor
  · intro h
    refine ⟨Nat.le_of_not_lt fun hlong => ?_, silent_of_skipped h⟩
    unfold readLine maxLine at h
    rw [if_pos hlong] at h
    cases h
  · rintro ⟨hsize, hsilent⟩
    unfold readLine maxLine
    rw [if_neg (Nat.not_lt.mpr hsize)]
    cases hsilent with
    | blank h =>
        simp only [trimmed_of_blank h, List.isEmpty_nil, Bool.true_or, if_true]
    | comment lead rest mark htext hlead hmark =>
        have hblank : isBlank mark = false := by
          rcases hmark with rfl | rfl
          · decide
          · decide
        obtain ⟨back, htrimmed⟩ := trimmed_mark hblank htext
        rw [List.dropWhile_eq_nil_iff.mpr hlead, List.nil_append] at htrimmed
        simp only [htrimmed, List.head?_cons, List.isEmpty_cons, Bool.false_or]
        rw [if_pos]
        simpa using hmark
    | foreign before after htext hfirst hkey hspaces =>
        obtain ⟨back, htrimmed⟩ := trimmed_mark (by decide) htext
        have hfree : ∀ c ∈ before.dropWhile isBlank, (c == '=') = false := fun c hc =>
          beq_eq_false_iff_ne.mpr fun heq =>
            hfirst (heq ▸ (List.dropWhile_sublist _).mem hc)
        have hname : lower (trim (String.ofList (before.dropWhile isBlank)))
            = lower (trim (String.ofList before)) := by
          unfold trim
          rw [String.toList_ofList, String.toList_ofList, trimmed_dropWhile]
        simp only [htrimmed, cut_append hfree (beq_self_eq_true '='), hname, if_neg hkey,
          isOwned_eq_false_iff.mpr hspaces, Bool.false_eq_true, if_false, ite_self]

-- ================================================================= lines

/-- What a line does by itself: an assignment or nothing; `none` for a line
that cannot be used. -/
def effect (raw : String) : Option (Option Assignment) :=
  match readLine raw with
  | .error _ => none
  | .ok .skipped => some none
  | .ok (.entry key value) =>
    match Assignment.read? key value with
    | some (.ok assignment) => some (some assignment)
    | _ => none

theorem effect_of_idle (h : Idle raw) : effect raw = some none := by
  unfold effect
  rw [readLine_skipped_iff.mpr h]

/-- The draft after an assignment. -/
def Draft.set (draft : Draft) (assignment : Assignment) : Draft :=
  { settings := assignment.apply draft.settings, seen := assignment.key :: draft.seen }

/-- A line is taken in by what it does by itself. -/
theorem add_cases (draft : Draft) (raw : String) :
    (effect raw = none ∧ ∃ flaw, draft.add raw = .error flaw)
      ∨ (effect raw = some none ∧ draft.add raw = .ok draft)
      ∨ ∃ assignment, effect raw = some (some assignment)
        ∧ draft.add raw = if assignment.key ∈ draft.seen then .error (.duplicate assignment.key)
          else .ok (draft.set assignment) := by
  unfold effect Draft.add
  cases readLine raw with
  | error flaw => exact .inl ⟨rfl, flaw, rfl⟩
  | ok line =>
      cases line with
      | skipped => exact .inr (.inl ⟨rfl, rfl⟩)
      | entry key value =>
          simp only [bind, Except.bind, assign?_eq]
          cases hread : Assignment.read? key value with
          | none =>
              refine .inl ⟨rfl, ?_⟩
              split
              · exact ⟨_, rfl⟩
              · exact ⟨_, rfl⟩
          | some read =>
              cases read with
              | error flaw =>
                  refine .inl ⟨rfl, ?_⟩
                  split
                  · exact ⟨_, rfl⟩
                  · exact ⟨_, rfl⟩
              | ok assignment =>
                  obtain rfl := Assignment.key_of_read? hread
                  refine .inr (.inr ⟨assignment, rfl, ?_⟩)
                  simp only [List.contains_iff_mem]
                  split
                  · rfl
                  · rfl

/-- What lines set, in their order. -/
def assignments (content : List String) : List Assignment :=
  content.filterMap fun raw => (effect raw).join

theorem assignments_cons_nothing (h : (effect raw).join = none) :
    assignments (raw :: content) = assignments content :=
  List.filterMap_cons_none h

/-- A line that assigns comes before the rest. -/
theorem assignments_cons {assignment : Assignment} (h : effect raw = some (some assignment)) :
    assignments (raw :: content) = assignment :: assignments content :=
  List.filterMap_cons_some (by rw [h]; rfl)

/-- Lines of which each can be used and no two set the same key. -/
@[mk_iff]
structure Usable (content : List String) : Prop where
  each : ∀ raw ∈ content, effect raw ≠ none
  once : ((assignments content).map Assignment.key).Nodup

/-- A line without effect changes nothing about the others. -/
theorem usable_cons_nothing (h : effect raw = some none) :
    Usable (raw :: content) ↔ Usable content := by
  rw [usable_iff, usable_iff, List.forall_mem_cons,
    assignments_cons_nothing (by rw [h]; rfl), h]
  simp

/-- A line that assigns may not be followed by another for its key. -/
theorem usable_cons {assignment : Assignment} (h : effect raw = some (some assignment)) :
    Usable (raw :: content) ↔ Usable content
      ∧ ∀ later ∈ assignments content, later.key ≠ assignment.key := by
  have hkey : assignment.key ∉ (assignments content).map Assignment.key
      ↔ ∀ later ∈ assignments content, later.key ≠ assignment.key := by
    simp
  rw [usable_iff, usable_iff, List.forall_mem_cons, assignments_cons h, List.map_cons,
    List.nodup_cons, hkey]
  constructor
  · rintro ⟨⟨-, heach⟩, hlater, honce⟩
    exact ⟨⟨heach, honce⟩, hlater⟩
  · rintro ⟨⟨heach, honce⟩, hlater⟩
    refine ⟨⟨?_, heach⟩, hlater, honce⟩
    rw [h]
    exact Option.some_ne_none _

/-- Lines are taken in exactly if they are usable and set no key that was
set before, and what they leave is what they set. -/
theorem addLines_ok_iff {draft last : Draft} {number : Nat} :
    draft.addLines number content = .ok last ↔
      Usable content ∧ (∀ assignment ∈ assignments content, assignment.key ∉ draft.seen)
        ∧ (assignments content).foldl Draft.set draft = last := by
  induction content generalizing draft number with
  | nil =>
      unfold Draft.addLines
      constructor
      · intro h
        cases h
        exact ⟨⟨fun _ hraw => absurd hraw List.not_mem_nil, List.nodup_nil⟩,
          fun _ hmem => absurd hmem List.not_mem_nil, rfl⟩
      · rintro ⟨-, -, hlast⟩
        exact congrArg Except.ok hlast
  | cons raw rest ih =>
      unfold Draft.addLines
      obtain ⟨heffect, flaw, hadd⟩ | ⟨heffect, hadd⟩ | ⟨assignment, heffect, hadd⟩ :=
        add_cases draft raw
      · rw [hadd]
        refine ⟨fun h => (by cases h), fun h => ?_⟩
        exact absurd heffect (h.1.each raw List.mem_cons_self)
      · rw [hadd, usable_cons_nothing heffect, assignments_cons_nothing (by rw [heffect]; rfl)]
        exact ih
      · rw [hadd, usable_cons heffect, assignments_cons heffect]
        by_cases hseen : assignment.key ∈ draft.seen
        · rw [if_pos hseen]
          refine ⟨fun h => (by cases h), fun h => ?_⟩
          exact absurd hseen (h.2.1 assignment List.mem_cons_self)
        · rw [if_neg hseen]
          refine ih.trans ?_
          simp only [Draft.set, List.mem_cons, not_or, List.foldl_cons, forall_eq_or_imp]
          constructor
          · rintro ⟨husable, hkeys, hlast⟩
            exact ⟨⟨husable, fun later hlater => (hkeys later hlater).1⟩,
              ⟨hseen, fun later hlater => (hkeys later hlater).2⟩, hlast⟩
          · rintro ⟨⟨husable, hlater⟩, ⟨-, hkeys⟩, hlast⟩
            exact ⟨husable, fun later hmem => ⟨hlater later hmem, hkeys later hmem⟩, hlast⟩

/-- The settings of a draft are the assignments applied in order. -/
theorem settings_foldl_set (draft : Draft) (list : List Assignment) :
    (list.foldl Draft.set draft).settings = list.foldl Assignment.apply draft.settings := by
  induction list generalizing draft with
  | nil => rfl
  | cons assignment rest ih => exact ih (draft.set assignment)

/-- Settings are read exactly from usable lines, and are what the lines
set. -/
theorem ofLines_ok_iff :
    ofLines content = .ok settings ↔
      Usable content ∧ (assignments content).foldl Assignment.apply {} = settings := by
  unfold ofLines
  constructor
  · intro h
    obtain ⟨last, hlast, rfl⟩ := map_ok h
    obtain ⟨husable, -, rfl⟩ := addLines_ok_iff.mp hlast
    exact ⟨husable, (settings_foldl_set {} _).symm⟩
  · rintro ⟨husable, rfl⟩
    have hlast : Draft.addLines {} 1 content
        = .ok ((assignments content).foldl Draft.set {}) :=
      addLines_ok_iff.mpr ⟨husable, fun _ _ => List.not_mem_nil, rfl⟩
    rw [hlast]
    exact congrArg Except.ok (settings_foldl_set {} _)

-- ================================================================= order

/-- Lines in another order, or with idle lines put in or left out. -/
inductive Rearranged : List String → List String → Prop where
  | perm {content other : List String} (h : content.Perm other) : Rearranged content other
  | insert (before after : List String) {raw : String} (h : Idle raw) :
      Rearranged (before ++ after) (before ++ raw :: after)
  | remove (before after : List String) {raw : String} (h : Idle raw) :
      Rearranged (before ++ raw :: after) (before ++ after)
  | trans {first second third : List String} (h : Rearranged first second)
      (h' : Rearranged second third) : Rearranged first third

/-- Where an idle line is put in, the lines set the same. -/
theorem assignments_idle (before after : List String) (h : Idle raw) :
    assignments (before ++ raw :: after) = assignments (before ++ after) := by
  have hrest : assignments (raw :: after) = assignments after :=
    assignments_cons_nothing (by rw [effect_of_idle h]; rfl)
  unfold assignments at hrest ⊢
  rw [List.filterMap_append, List.filterMap_append, hrest]

/-- Rearranged lines assign the same, in another order. -/
theorem Rearranged.assignments_perm (h : Rearranged content other) :
    (assignments content).Perm (assignments other) := by
  induction h with
  | perm h => exact h.filterMap _
  | insert before after h => rw [assignments_idle before after h]
  | remove before after h => rw [assignments_idle before after h]
  | trans _ _ ih ih' => exact ih.trans ih'

/-- What holds of every line holds of every rearranged one. -/
theorem Rearranged.each (h : Rearranged content other) :
    (∀ raw ∈ content, effect raw ≠ none) → ∀ raw ∈ other, effect raw ≠ none := by
  induction h with
  | perm h => exact fun heach raw hraw => heach raw (h.mem_iff.mpr hraw)
  | insert before after h =>
      rw [List.forall_mem_append, List.forall_mem_append, List.forall_mem_cons, effect_of_idle h]
      exact fun ⟨hbefore, hafter⟩ => ⟨hbefore, Option.some_ne_none _, hafter⟩
  | remove before after h =>
      rw [List.forall_mem_append, List.forall_mem_append, List.forall_mem_cons]
      exact fun ⟨hbefore, _, hafter⟩ => ⟨hbefore, hafter⟩
  | trans _ _ ih ih' => exact fun heach => ih' (ih heach)

/-- Rearranged lines give the same settings. -/
theorem Rearranged.ofLines (h : Rearranged content other)
    (hread : Settings.ofLines content = .ok settings) : Settings.ofLines other = .ok settings := by
  obtain ⟨⟨heach, honce⟩, hsettings⟩ := ofLines_ok_iff.mp hread
  have hperm := h.assignments_perm
  refine ofLines_ok_iff.mpr ⟨⟨h.each heach, (hperm.map _).nodup_iff.mp honce⟩, ?_⟩
  rw [← hsettings]
  refine (hperm.foldl_eq' (fun first hfirst second hsecond before => ?_) ({} : Settings)).symm
  by_cases hsame : first.key = second.key
  · rw [List.inj_on_of_nodup_map honce hfirst hsecond hsame]
  · exact Assignment.apply_comm hsame before

-- ======================================================= the first error

/-- Lines may be added in two parts. -/
theorem addLines_append (draft : Draft) (number : Nat) (content later : List String) :
    draft.addLines number (content ++ later)
      = draft.addLines number content >>= fun next =>
          next.addLines (number + content.length) later := by
  induction content generalizing draft number with
  | nil => rfl
  | cons raw rest ih =>
      rw [List.cons_append, Draft.addLines, Draft.addLines]
      cases draft.add raw with
      | error flaw => rfl
      | ok next =>
          simp only
          rw [ih, List.length_cons, Nat.add_right_comm, Nat.add_assoc]

/-- Reading stops at the first line that fails. -/
theorem addLines_error {draft : Draft} {number : Nat} {cause : Error}
    (h : draft.addLines number content = .error cause) :
    ∃ read raw later flaw next, content = read ++ raw :: later
      ∧ cause = .setting (number + read.length) flaw
      ∧ draft.addLines number read = .ok next ∧ next.add raw = .error flaw := by
  induction content generalizing draft number with
  | nil => cases h
  | cons raw rest ih =>
      unfold Draft.addLines at h
      cases hadd : draft.add raw with
      | error flaw =>
          rw [hadd] at h
          cases h
          exact ⟨[], raw, rest, flaw, draft, rfl, rfl, rfl, hadd⟩
      | ok next =>
          rw [hadd] at h
          obtain ⟨read, bad, later, flaw, last, rfl, rfl, hread, hbad⟩ := ih h
          refine ⟨raw :: read, bad, later, flaw, last, rfl, ?_, ?_, hbad⟩
          · rw [List.length_cons, Nat.add_assoc, Nat.add_comm 1]
          · unfold Draft.addLines
            rw [hadd]
            exact hread

/-- Lines that are read in front of others are read without them. -/
theorem ofLines_of_prefix {front : List String} (hfront : front <+: content)
    (h : ofLines content = .ok settings) : ∃ found, ofLines front = .ok found := by
  obtain ⟨later, rfl⟩ := hfront
  obtain ⟨last, hlast, -⟩ := map_ok h
  rw [addLines_append] at hlast
  unfold ofLines
  cases hfront : Draft.addLines {} 1 front with
  | error cause =>
      rw [hfront] at hlast
      cases hlast
  | ok next => exact ⟨_, rfl⟩

/-- The line that is reported is the last of the fewest lines that fail,
and they fail alike. -/
theorem ofLines_error {cause : Error} (h : ofLines content = .error cause) :
    ∃ number flaw, cause = .setting number flaw
      ∧ ofLines (content.take number) = .error cause
      ∧ ∀ count < number, ∃ found, ofLines (content.take count) = .ok found := by
  have hdraft : Draft.addLines {} 1 content = .error cause := by
    unfold ofLines at h
    cases hread : Draft.addLines {} 1 content with
    | error found =>
        rw [hread] at h
        cases h
        rfl
    | ok last =>
        rw [hread] at h
        cases h
  obtain ⟨read, raw, later, flaw, next, rfl, rfl, hread, hbad⟩ := addLines_error hdraft
  refine ⟨1 + read.length, flaw, rfl, ?_, fun count hcount => ?_⟩
  · have htake : (read ++ raw :: later).take (1 + read.length) = read ++ [raw] := by
      rw [Nat.add_comm, List.take_length_add_append]
      rfl
    unfold ofLines
    rw [htake, addLines_append, hread]
    show (Draft.addLines next (1 + read.length) [raw]).map _ = _
    unfold Draft.addLines
    rw [hbad]
    rfl
  · have hread' : ofLines read = .ok next.settings := by
      unfold ofLines
      rw [hread]
      rfl
    have hwithin : (read ++ raw :: later).take count = read.take count :=
      List.take_append_of_le_length (by omega)
    rw [hwithin]
    exact ofLines_of_prefix (List.take_prefix _ _) hread'

-- ================================================================ theorem

/-- Settings do not depend on the order of their lines, nor on lines that
say nothing to this system. Where settings cannot be read, the line that is
reported is the least number of lines from the start that cannot be read
alone, and these lines give the same error. -/
theorem parse_by_lines :
    (∀ text other settings, Rearranged (lines text) (lines other) →
      parse text = .ok settings → parse other = .ok settings)
    ∧ (∀ text cause, parse text = .error cause → ∃ number flaw, cause = .setting number flaw
        ∧ IsLeast {count | ∃ front failure, lines front = (lines text).take count
            ∧ parse front = .error failure} number
        ∧ ∀ front, lines front = (lines text).take number → parse front = .error cause)
    ∧ ∀ text count, ∃ front, lines front = (lines text).take count := by
  have hfront : ∀ text count, ∃ front, lines front = (lines text).take count := by
    intro text count
    refine ⟨joined ((lines text).take count), lines_joined fun line hline => ?_⟩
    exact feedless_of_mem_lines (List.mem_of_mem_take hline)
  refine ⟨fun text other settings h hread => h.ofLines hread, fun text cause h => ?_, hfront⟩
  obtain ⟨number, flaw, rfl, hfails, hreads⟩ := ofLines_error h
  have hsame : ∀ front, lines front = (lines text).take number →
      parse front = .error (.setting number flaw) := by
    intro front hlines
    unfold parse
    rw [hlines, hfails]
  refine ⟨number, flaw, rfl, ⟨?_, ?_⟩, hsame⟩
  · obtain ⟨front, hlines⟩ := hfront text number
    exact ⟨front, _, hlines, hsame front hlines⟩
  · rintro count ⟨front, failure, hlines, hfailure⟩
    by_contra hless
    obtain ⟨found, hfound⟩ := hreads count (Nat.lt_of_not_le hless)
    unfold parse at hfailure
    rw [hlines, hfound] at hfailure
    cases hfailure

/-- Two keys in the other order, with a comment and a key of someone else
between; and a key that comes twice, with what stands behind it left out. -/
theorem parse_by_lines_swapped :
    parse "tso.out.dd = A\nTSO.REXX.DD=B\n" = .ok { rexxDd := "B", outDd := "A" }
      ∧ parse "* note\nTSO.REXX.DD=B\nlua.path = x\ntso.out.dd = A"
        = .ok { rexxDd := "B", outDd := "A" }
      ∧ parse "tso.out.dd = A\n\nTSO.OUT.DD=B\nmore"
        = .error (.setting 3 (.duplicate "tso.out.dd"))
      ∧ parse "tso.out.dd = A\n\nTSO.OUT.DD=B"
        = .error (.setting 3 (.duplicate "tso.out.dd")) := by
  have hread : parse "tso.out.dd = A\nTSO.REXX.DD=B\n" = .ok { rexxDd := "B", outDd := "A" } := by
    decide +kernel
  have hfails : parse "tso.out.dd = A\n\nTSO.OUT.DD=B\nmore"
      = .error (.setting 3 (.duplicate "tso.out.dd")) := by
    decide +kernel
  obtain ⟨hreads, herrors, -⟩ := parse_by_lines
  refine ⟨hread, hreads _ _ _ ?_ hread, hfails, ?_⟩
  · have hlines : lines "tso.out.dd = A\nTSO.REXX.DD=B\n"
        = ["tso.out.dd = A", "TSO.REXX.DD=B"] := by
      decide +kernel
    have hother : lines "* note\nTSO.REXX.DD=B\nlua.path = x\ntso.out.dd = A"
        = ["* note", "TSO.REXX.DD=B", "lua.path = x", "tso.out.dd = A"] := by
      decide +kernel
    have hnote : Idle "* note" := readLine_skipped_iff.mp (by decide +kernel)
    have hforeign : Idle "lua.path = x" := readLine_skipped_iff.mp (by decide +kernel)
    rw [hlines, hother]
    exact (Rearranged.perm (List.Perm.swap _ _ [])).trans
      ((Rearranged.insert ["TSO.REXX.DD=B"] ["tso.out.dd = A"] hforeign).trans
        (.insert [] ["TSO.REXX.DD=B", "lua.path = x", "tso.out.dd = A"] hnote))
  · obtain ⟨number, flaw, hcause, -, hsame⟩ := herrors _ _ hfails
    cases hcause
    exact hsame _ (by decide +kernel)

end Settings
end TsoBridge
