/-
What one key of the settings sets. A key and a value that are accepted are
an assignment (`Assignment.read?`), and the settings change by that
assignment and by nothing else (`Settings.assign?_eq`). Ten keys set ten
different parts, so the order of two assignments matters only if they have
the same key (`Assignment.apply_comm`).
-/
import TsoBridge.Settings

namespace TsoBridge
namespace Settings

/-- What one key sets. -/
inductive Assignment where
  | policyMode (mode : PolicyMode)
  | whitelist (names : List String)
  | blacklist (names : List String)
  | traceLevel (level : TraceLevel)
  | lineLimit (most : Option Nat)
  | captureDefault (on : Bool)
  | captureMode (mode : CaptureMode)
  | rexxExec (exec : String)
  | rexxDd (ddname : String)
  | outDd (ddname : String)

theorem map_ok {ε α β : Type} {x : Except ε α} {f : α → β} {b : β}
    (h : x.map f = .ok b) : ∃ a, x = .ok a ∧ f a = b := by
  cases x with
  | ok a => exact ⟨a, rfl, Except.ok.inj h⟩
  | error e => cases h

theorem map_map {ε α β γ : Type} (x : Except ε α) (f : α → β) (g : β → γ) :
    (x.map f).map g = x.map fun a => g (f a) := by
  cases x <;> rfl

namespace Assignment

/-- The key it is written with. -/
def key : Assignment → String
  | .policyMode _ => "allow.tso.cmd"
  | .whitelist _ => "tso.cmd.whitelist"
  | .blacklist _ => "tso.cmd.blacklist"
  | .traceLevel _ => "trace.level"
  | .lineLimit _ => "limits.output.lines"
  | .captureDefault _ => "tso.cmd.capture.default"
  | .captureMode _ => "tso.cmd.mode"
  | .rexxExec _ => "tso.rexx.exec"
  | .rexxDd _ => "tso.rexx.dd"
  | .outDd _ => "tso.out.dd"

/-- The settings with its part set. -/
def apply (settings : Settings) : Assignment → Settings
  | .policyMode mode => { settings with policy := { settings.policy with mode := some mode } }
  | .whitelist names => { settings with policy := { settings.policy with whitelist := names } }
  | .blacklist names => { settings with policy := { settings.policy with blacklist := names } }
  | .traceLevel level => { settings with traceLevel := some level }
  | .lineLimit most => { settings with lineLimit := most }
  | .captureDefault on => { settings with captureDefault := on }
  | .captureMode mode => { settings with captureMode := mode }
  | .rexxExec exec => { settings with rexxExec := exec }
  | .rexxDd ddname => { settings with rexxDd := ddname }
  | .outDd ddname => { settings with outDd := ddname }

/-- Different keys set different parts. -/
theorem apply_comm {first second : Assignment} (h : first.key ≠ second.key)
    (settings : Settings) :
    second.apply (first.apply settings) = first.apply (second.apply settings) := by
  -- two of a kind have the same key, any others change different fields
  cases first <;> cases second <;> first | exact absurd rfl h | rfl

/-- The assignment a key and a value are; `none` for a key that sets
nothing. -/
def read? (key value : String) : Option (Except ValueFlaw Assignment) :=
  if key = "allow.tso.cmd" then some ((Settings.policyMode value).map .policyMode)
  else if key = "tso.cmd.whitelist" then some ((verbs value).map .whitelist)
  else if key = "tso.cmd.blacklist" then some ((verbs value).map .blacklist)
  else if key = "trace.level" then some ((TraceLevel.ofString value).map .traceLevel)
  else if key = "limits.output.lines" then some ((limit value).map .lineLimit)
  else if key = "tso.cmd.capture.default" then some ((switch value).map .captureDefault)
  else if key = "tso.cmd.mode" then some ((CaptureMode.ofString value).map .captureMode)
  else if key = "tso.rexx.exec" then some ((name value).map .rexxExec)
  else if key = "tso.rexx.dd" then some ((name value).map .rexxDd)
  else if key = "tso.out.dd" then some ((name value).map .outDd)
  else none

/-- What holds of an assignment that was read, from what holds if it was
read by one name and what holds if it was read by another. -/
theorem of_choice {α : Type} {key name : String} {value : Except ValueFlaw α}
    {make : α → Assignment} {rest : Option (Except ValueFlaw Assignment)} {assignment : Assignment}
    {motive : Assignment → Prop}
    (h : (if key = name then some (value.map make) else rest) = some (.ok assignment))
    (hmake : key = name → ∀ a, value = .ok a → motive (make a))
    (hrest : rest = some (.ok assignment) → motive assignment) : motive assignment := by
  by_cases hname : key = name
  · rw [if_pos hname] at h
    obtain ⟨a, hvalue, rfl⟩ := map_ok (Option.some.inj h)
    exact hmake hname a hvalue
  · rw [if_neg hname] at h
    exact hrest h

theorem key_of_read? {key value : String} {assignment : Assignment}
    (h : read? key value = some (.ok assignment)) : assignment.key = key := by
  unfold read? at h
  iterate 10
    refine of_choice (motive := fun read => read.key = key) h (fun hname _ _ => hname.symm)
      fun h => ?_
  cases h

end Assignment

/-- Settings change by the assignment that a key and a value are. -/
theorem assign?_eq (settings : Settings) (key value : String) :
    settings.assign? key value
      = (Assignment.read? key value).map fun read => read.map (Assignment.apply settings) := by
  unfold assign? Assignment.read?
  simp only [apply_ite (Option.map _), Option.map_some, Option.map_none, map_map]
  rfl

/-- A key and a value that were taken in. -/
theorem assign?_ok {settings after : Settings} {key value : String}
    (h : settings.assign? key value = some (.ok after)) :
    ∃ assignment, Assignment.read? key value = some (.ok assignment)
      ∧ after = assignment.apply settings := by
  rw [assign?_eq] at h
  obtain ⟨read, hread, hafter⟩ := Option.map_eq_some_iff.mp h
  obtain ⟨assignment, rfl, rfl⟩ := map_ok hafter
  exact ⟨assignment, hread, rfl⟩

end Settings
end TsoBridge
