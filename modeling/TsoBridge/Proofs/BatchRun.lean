/-
What a batch run adds up to. The exit of a script frees what is still live.
That writes nothing to the terminal, and it is done before the exit code is
looked at, so a code no program can end with costs a step of its own and not
the releases. On an obliging host the releases give back the DDs the run
found (`run_accounted`).
-/
import TsoBridge.Proofs.BatchSteps
import TsoBridge.Proofs.Settling

namespace TsoBridge.Batch

open Session (Reachable)
open Sim (SimHost Touched Obliging Heavy Tame)

variable {host : SimHost} {settings : Settings} {s t u : Session SimHost}
  {ops : List (Nat × BatchOp)} {steps : List BatchStep}

-- ================================================================== codes

/-- Whether the first exit has a code no program can end with. -/
def Refused (ops : List (Nat × BatchOp)) : Prop :=
  ∃ code, requested ops = some (some code) ∧ ¬(0 ≤ code ∧ code ≤ 4095)

/-- The highest of the return codes and zero, a failed step counting as
12. -/
def worst (steps : List BatchStep) : Int :=
  ((steps.filterMap (·.returnCode)).map Int32.toInt).foldl max
    (if steps.any fun step => step.error.isSome then 12 else 0)

/-- The code a script ends with: that of its exit, if a program can end
with it, and otherwise 12; without an exit the highest of its steps. -/
def endCode (steps : List BatchStep) : Option (Option Int) → Int
  | some code => if 0 ≤ code.getD 0 ∧ code.getD 0 ≤ 4095 then code.getD 0 else 12
  | none => min 4095 (worst steps)

-- ============================================================ the account

/-- What a run from `s` adds up to: `steps` are those of its lines, which
left the session as `u`, and `failures` is what went wrong with the releases
at the exit. -/
structure Accounted (ops : List (Nat × BatchOp)) (s : Session SimHost) (report : BatchRun)
    (t : Session SimHost) (steps : List BatchStep) (u : Session SimHost)
    (failures : List Error) : Prop where
  ran : Ran ops s steps u
  exited : Session.releaseAll u = (.ok failures, t)
  /-- One step a line, in order. -/
  lines : steps.map (fun step => (step.line, step.op))
    = (executed ops).map fun entry => (entry.1, entry.2.title)
  kept : ¬Refused ops → report.steps = steps
  /-- A refused exit code makes a step of its own. -/
  extra : Refused ops → ∃ last, report.steps = steps ++ [last] ∧ last.op = "exit"
    ∧ (executed ops).getLast?.map Prod.fst = some last.line ∧ last.error.isSome = true
  exitCode : report.exitCode = endCode steps (requested ops)
  failed : report.failed = true ↔
    (∃ step ∈ report.steps, step.error.isSome = true) ∨ failures ≠ []
  released : ¬Refused ops → report.released = u.bindings.liveNames.length - failures.length
  /-- Each line on the terminal is in the step that wrote it. -/
  terminal : ∃ parts, t.host.terminal = s.host.terminal ++ parts.flatten
    ∧ List.Forall₂ (fun part step => ∃ captured, step.lines = captured ++ part.map Prod.snd)
      parts steps

-- ================================================================ highest

/-- The fold over the steps is the highest code. -/
theorem foldl_rcOf {steps : List BatchStep}
    (h : ∀ step ∈ steps, step.error.isSome = true → step.returnCode = none) {most : Int}
    (hmost : 0 ≤ most) :
    steps.foldl (fun most step => max most (rcOf step)) most
      = ((steps.filterMap (·.returnCode)).map Int32.toInt).foldl max
        (if steps.any fun step => step.error.isSome then max most 12 else most) := by
  induction steps generalizing most with
  | nil => rfl
  | cons step rest ih =>
      obtain ⟨hstep, hrest⟩ := List.forall_mem_cons.mp h
      rw [List.foldl_cons, ih hrest (le_max_of_le_left hmost)]
      cases herror : step.error with
      | some message =>
          have hnone := hstep (by rw [herror]; rfl)
          have hrc : rcOf step = 12 := by simp [rcOf, herror, errorRc]
          simp [hrc, hnone, herror]
      | none =>
          have hrc : rcOf step = (step.returnCode.map Int32.toInt).getD 0 := by
            simp [rcOf, herror]
          cases hcode : step.returnCode with
          | none =>
              rw [hcode] at hrc
              simp [hrc, hcode, herror, max_eq_left hmost]
          | some rc =>
              rw [hcode] at hrc
              rw [hrc, List.filterMap_cons_some hcode, List.map_cons, List.foldl_cons, List.any_cons,
                herror]
              congr 1
              simp only [Option.isSome_none, Bool.false_or, Option.map_some, Option.getD_some]
              split
              · exact max_right_comm _ _ _
              · rfl

/-- The highest code is the worst of those the steps show. -/
theorem Ran.highest_eq (h : Ran ops s steps u) : highest steps = worst steps :=
  foldl_rcOf h.silent le_rfl

theorem le_foldl_max (codes : List Int) (most : Int) : most ≤ codes.foldl max most := by
  induction codes generalizing most with
  | nil => exact le_rfl
  | cons code rest ih => exact (le_max_left most code).trans (ih _)

/-- It is never below zero. -/
theorem worst_nonneg (steps : List BatchStep) : 0 ≤ worst steps := by
  unfold worst
  refine le_trans ?_ (le_foldl_max _ _)
  split
  · decide
  · exact le_rfl

-- =============================================================== the exit

/-- The sweep at the end of a run fails with nothing, whatever goes wrong
with the single releases. -/
theorem raises_releaseAll :
    (Session.releaseAll : Op (Session SimHost) (List Error)).Raises fun _ => False := by
  have hsweep : Session.Meets .free Session.linkage (id : SimHost → SimHost) (fun _ => False)
      (fun _ => True) Session.releaseAll Session.releaseAll := by
    refine Session.meets_sweep (Session.meets_self (Op.fulfils_free _ _)) (fun capability => ?_)
      Session.meets_note
    exact Session.meets_onBindings
      (Bindings.meets_releaseAll fun name => Bindings.meets_self (Op.fulfils_free _ _))
  exact hsweep.raises

/-- What an exit makes of its code, after the releases. -/
def exitResult (code : Int) (live : Nat) (failures : List Error) :
    Except ScriptError ExitReport :=
  if 0 ≤ code ∧ code ≤ 4095 then
    .ok { code, released := live - failures.length, failed := failures.length }
  else .error { operation := .exit, cause := .exitCode code }

/-- The exit of a script frees first and looks at the code then. -/
theorem exit_completes (code : Option Int) (u : Session SimHost) :
    (Script.exit code).Completes u fun result t => ∃ failures,
      Session.releaseAll u = (.ok failures, t)
        ∧ result = exitResult (code.getD 0) u.bindings.liveNames.length failures := by
  refine Op.ends_gets_bind ?_
  refine (raises_releaseAll.completes u).bind fun failures t hreleased => ?_
  have hout : (decide (code.getD 0 < 0) || decide (Script.maxExitCode < code.getD 0)) = true
      ↔ ¬(0 ≤ code.getD 0 ∧ code.getD 0 ≤ 4095) := by
    have hmax : Script.maxExitCode = 4095 := rfl
    rw [hmax, Bool.or_eq_true, decide_eq_true_eq, decide_eq_true_eq]
    omega
  by_cases hcode : 0 ≤ code.getD 0 ∧ code.getD 0 ≤ 4095
  · rw [if_neg fun h => hout.mp h hcode]
    exact Op.completes_pure ⟨failures, hreleased, (if_pos hcode).symm⟩
  · rw [if_pos (hout.mpr hcode)]
    exact Op.completes_pure ⟨failures, hreleased, (if_neg hcode).symm⟩

/-- The code of a script whose exit is not refused is one a program can end
with. -/
theorem code_of_accepted (h : ¬Refused ops) (steps : List BatchStep) :
    ((requested ops).getD (some (min (worst steps) 4095))).getD 0 = endCode steps (requested ops)
      ∧ 0 ≤ endCode steps (requested ops) ∧ endCode steps (requested ops) ≤ 4095 := by
  cases hasked : requested ops with
  | none => exact ⟨min_comm _ _, le_min (by decide) (worst_nonneg steps), min_le_left _ _⟩
  | some code =>
      have hin : 0 ≤ code.getD 0 ∧ code.getD 0 ≤ 4095 := by
        cases code with
        | none => decide
        | some given =>
            by_contra hout
            exact h ⟨given, hasked, hout⟩
      have hcode : endCode steps (some code) = code.getD 0 := if_pos hin
      rw [hcode]
      exact ⟨rfl, hin⟩

/-- A script that is ended by an exit has a last line. -/
theorem lastLine_of_requested {code : Option Int} (h : requested ops = some code)
    (hlines : steps.map (fun step => (step.line, step.op))
      = (executed ops).map fun entry => (entry.1, entry.2.title)) :
    (executed ops).getLast?.map Prod.fst = some ((steps.getLast?.map BatchStep.line).getD 0) := by
  have hlast := congrArg (fun lines => lines.getLast?.map Prod.fst) hlines
  simp only [List.getLast?_map, Option.map_map, Function.comp_def] at hlast
  have hsome : (executed ops).getLast? ≠ none := by
    cases ops with
    | nil => cases h
    | cons entry rest => simp [executed]
  obtain ⟨entry, hentry⟩ := Option.ne_none_iff_exists'.mp hsome
  rw [hlast, hentry]
  rfl

-- ================================================================ the run

/-- A run that does not trap is accounted for. -/
theorem run_completes (ops : List (Nat × BatchOp)) (hnamed : s.linkage.Named) :
    (run ops).Completes s fun report t =>
      ∃ steps u failures, Accounted ops s report t steps u failures := by
  refine (runSteps_ran ops hnamed).bind fun value u hu => ?_
  obtain ⟨steps, asked⟩ := value
  obtain ⟨rfl, hran⟩ : asked = requested ops ∧ Ran ops s steps u := hu
  refine (exit_completes _ u).bind fun result t ht => ?_
  obtain ⟨failures, hexited, rfl⟩ := ht
  have hterminal : t.host.terminal = u.host.terminal :=
    ((Sim.silent_releaseAll u).ok hexited (hran.later.named hnamed)).2
  obtain ⟨parts, hparts, hall⟩ := hran.terminal
  have hlines := hran.lines
  by_cases hrefused : Refused ops
  · obtain ⟨code, hasked, hout⟩ := id hrefused
    have hresult : exitResult (((requested ops).getD (some (min (highest steps)
        Script.maxExitCode))).getD 0) u.bindings.liveNames.length failures
          = .error { operation := .exit, cause := .exitCode code } := by
      rw [hasked]
      exact if_neg hout
    rw [hresult]
    refine Op.completes_pure ⟨steps, u, failures, {
      ran := hran
      exited := hexited
      lines := hlines
      kept := fun hnot => absurd hrefused hnot
      extra := fun _ => ⟨_, rfl, rfl, lastLine_of_requested hasked hlines, rfl⟩
      exitCode := ?_
      failed := ?_
      released := fun hnot => absurd hrefused hnot
      terminal := ⟨parts, hterminal.trans hparts, hall⟩ }⟩
    · rw [hasked]
      exact (if_neg hout).symm
    · refine ⟨fun _ => .inl ⟨_, List.mem_append_right _ List.mem_cons_self, rfl⟩, fun _ => rfl⟩
  · obtain ⟨hcode, hin⟩ := code_of_accepted hrefused steps
    have hresult : exitResult (((requested ops).getD (some (min (highest steps)
        Script.maxExitCode))).getD 0) u.bindings.liveNames.length failures
          = .ok { code := endCode steps (requested ops)
                  released := u.bindings.liveNames.length - failures.length
                  failed := failures.length } := by
      rw [hran.highest_eq, show Script.maxExitCode = 4095 from rfl, hcode]
      exact if_pos hin
    rw [hresult]
    refine Op.completes_pure ⟨steps, u, failures, {
      ran := hran
      exited := hexited
      lines := hlines
      kept := fun _ => rfl
      extra := fun h => absurd h hrefused
      exitCode := rfl
      failed := ?_
      released := fun _ => rfl
      terminal := ⟨parts, hterminal.trans hparts, hall⟩ }⟩
    show (steps.any _ || decide (0 < failures.length)) = true ↔ _
    rw [Bool.or_eq_true, List.any_eq_true, decide_eq_true_eq]
    exact or_congr Iff.rfl List.length_pos_iff

-- ================================================================== traps

/-- A run traps where a counter is spent, or in a command whose text is too
long for an exec. -/
theorem tame_run (ops : List (Nat × BatchOp)) :
    Tame (fun t => ∃ line text authorized,
      (line, .cmd text authorized) ∈ executed ops ∧ Heavy text t) (fun _ => True) (run ops) := by
  refine (tame_runSteps ops fun line text authorized hmem t hheavy =>
    ⟨line, text, authorized, hmem, hheavy⟩).andThen fun value => ?_
  refine (Script.meets_exit _ Sim.tame_releaseAll).andThen fun result => ?_
  split
  · exact Op.meets_return _
  · exact Op.meets_return _

/-- A run traps in its first line where the allocation does. -/
theorem trap_run {operands : String} {request : AllocationRequest}
    (hparse : AllocationRequest.parse operands = .ok request)
    (h : (Session.allocate request s).1 = trap) (line : Nat) (rest : List (Nat × BatchOp)) :
    (run ((line, .alloc operands) :: rest) s).1 = trap := by
  have hread : (liftM (AllocationRequest.parse operands) : Op (Session SimHost) _) s
      = (.ok request, s) := by
    rw [hparse]
    rfl
  have halloc : (Script.alloc operands s).1 = trap := by
    unfold Script.alloc Script.engine
    refine Op.trap_bind (Op.trap_attempt ?_) _
    rw [Op.run_bind_of_ok hread]
    exact Op.trap_bind h _
  have hseen : (Op.gets fun t : Session SimHost => t.host.terminal.length) s
      = (.ok s.host.terminal.length, s) := rfl
  have hstep : (runStep line (.alloc operands) s).1 = trap := by
    unfold runStep
    rw [Op.run_bind_of_ok hseen]
    exact Op.trap_bind (Op.trap_bind halloc _) _
  exact Op.trap_bind (Op.trap_bind hstep _) _

-- ================================================================ theorem

/-- A run of a batch script carries out its lines up to the first exit, and
its report adds up: one step a line with the lines and the warning that are
its own, one more for a refused exit code, and the code and the verdict that
come of them. It traps where a counter of the host is spent or the text of a
command is too long for an exec, and fails in no other way. A run that
starts a session on an obliging host frees what it allocated: nothing goes
wrong at the exit, and the DDs are the ones it found. -/
theorem run_accounted (hmade : host.Made) (hs : Reachable Touched host settings s)
    (ops : List (Nat × BatchOp)) :
    (run ops).Ends s fun r t =>
      (r = .error .trap ∧ (t.host.Spent ∨ ∃ line text authorized,
          (line, .cmd text authorized) ∈ executed ops ∧ Heavy text t))
        ∨ ∃ report steps u failures, r = .ok report ∧ Accounted ops s report t steps u failures
          ∧ (s = Session.start host settings → Obliging host →
            t.host.dds = host.dds ∧ failures = []
              ∧ (¬Refused ops → report.released = u.bindings.liveNames.length)) := by
  have hspent := ((tame_run ops).guarded (Sim.reachable_resting hs)).2.1
  rcases run_completes ops hs.named with htrap | ⟨report, hok, steps, u, failures, haccounted⟩
  · have horderly := Sim.reachable_orderly hs hmade.orderly
    exact .inl ⟨htrap, (hspent htrap).imp_left fun h => h horderly⟩
  · refine .inr ⟨report, steps, u, failures, hok, haccounted, fun hstart hobliging => ?_⟩
    subst hstart
    have hover := haccounted.ran.overlays hobliging hs (Sim.overlays_start host settings)
    have hu : Reachable Touched host settings u := hs.trans haccounted.ran.later
    obtain ⟨hnone, hdds⟩ := (Sim.releaseAll_restores hu hobliging hover).ok haccounted.exited
    obtain rfl : failures = [] := Except.ok.inj hnone
    exact ⟨hdds, rfl, haccounted.released⟩

/-- A script that leaves an allocation behind; its last line is not carried
out. -/
theorem run_accounted_left_allocated :
    let host := SimHost.build {} Sim.noon
    let s := Session.start host {}
    let ops := [(1, .alloc "X"), (2, .msg (some 1) "half way"), (4, .exit (some 3)),
      (5, .cmd "TIME" false)]
    host.Made ∧ Reachable Touched host {} s ∧ Obliging host ∧ ¬Refused ops
      ∧ ∃ report t, run ops s = (.ok report, t) ∧ report.exitCode = 3
        ∧ report.steps.map (fun step => (step.line, step.lines))
          = [(1, []), (2, ["half way"]), (4, [])]
        ∧ report.released = 1 ∧ report.failed = false ∧ t.host.dds = host.dds := by
  intro host s ops
  have hmade : host.Made := .build {} Sim.noon
  have hs : Reachable Touched host {} s := .refl
  have hobliging : Obliging host := ⟨rfl, rfl, by decide +kernel⟩
  have hrefused : ¬Refused ops := by
    rintro ⟨code, hasked, hout⟩
    cases hasked
    exact hout (by decide)
  have hreport : (run ops s).1 = .ok
      { steps := [{ line := 1, op := "alloc", returnCode := some 0 },
          { line := 2, op := "msg", returnCode := some 0, lines := ["half way"] },
          { line := 4, op := "exit" }]
        exitCode := 3, released := 1, failed := false } := by
    decide +kernel
  obtain ⟨t, hrun⟩ := Op.ends_of_fst hreport
  refine ⟨hmade, hs, hobliging, hrefused, _, t, hrun, rfl, rfl, rfl, rfl, ?_⟩
  rcases (run_accounted hmade hs ops).ok hrun with ⟨htrap, -⟩ | ⟨_, _, _, _, -, -, hrestored⟩
  · cases htrap
  · exact (hrestored rfl hobliging).1

/-- What no account is given of: a run that traps because the numbers of
temporary datasets are used up, and a release that fails once more at the
exit, for which the step of its command has no second warning. -/
theorem run_unaccounted :
    let host := SimHost.build {} Sim.noon
    let s := Session.start (SimHost.build (Sim.Options.withoutModule {} "TSODFRE") Sim.noon) {}
    let ops := [(1, .cmd "SEND 'A'" false)]
    let failure := Error.cleanupFailed "LUZ00001" (-1) 0 0
    (∃ t, Reachable Touched host {} t ∧ (run [(1, .alloc "WORK")] t).1 = trap)
      ∧ (run ops s).1 = .ok
        { steps := [{ line := 1, op := "cmd", returnCode := some 0, lines := ["A"],
                      warnings := [failure.message] }]
          exitCode := 0, released := 0, failed := true }
      ∧ (Session.releaseAll (runSteps ops s).2).1 = .ok [failure] := by
  intro host s ops failure
  have hestablished : (Session.establish (Session.start host {})).2.environment.state
      = .ready ⟨0x10040⟩ (.probed 0) := by
    decide +kernel
  have hrefusing : Sim.Refusing host {} { text := "TSOOUT" } (Session.establish (Session.start host {})).2 :=
    .established hestablished (by decide) (by decide +kernel) (by decide +kernel)
      (by decide +kernel)
  obtain ⟨t, ht, -, hlast⟩ := hrefusing.exhausts
  have hparse : AllocationRequest.parse "WORK"
      = .ok { ddname := some "WORK", dsname := none, status := .new } := by
    decide +kernel
  have hspent := ht.spent hlast (DdName.ofString_text { text := "WORK" }) .new
  have htrap := trap_run hparse hspent 1 []
  exact ⟨⟨t, ht.reachable, htrap⟩, by decide +kernel⟩

end TsoBridge.Batch
