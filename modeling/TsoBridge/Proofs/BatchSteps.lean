/-
The steps of a batch run. A script is carried out up to its first exit, one
step a line. `Recorded` is the account of one line: the session it starts
in, the step it makes and the session it leaves. Whatever the operation
wrote to the terminal and whatever failed release it led to stands in its
own step, because a step takes both away before the next one starts. `Ran`
strings such accounts together, each line starting where the one before it
ended (`runSteps_ran`).

What holds of one operation holds of the steps: they trap for no other
reason than an operation does (`tame_runSteps`), and on an obliging host
they lay their allocations over the DDs they found (`Ran.overlays`).
-/
import TsoBridge.Batch.Run
import TsoBridge.Proofs.Script
import TsoBridge.Proofs.Sim.Overlay
import TsoBridge.Proofs.Sim.Terminal

namespace TsoBridge

open Op (Contract)
open Session (Step Reachable SameFailures)
open Sim (SimHost Touched Overlays Lays Obliging Printed Heavy Tame)

variable {α : Type} {host : SimHost} {settings : Settings} {s t u : Session SimHost}
  {found : Sim.DdTable} {op : BatchOp} {ops : List (Nat × BatchOp)} {steps : List BatchStep}

-- ================================================================ scripts

/-- The code given to an exit, if the operation is one. -/
def BatchOp.exit? : BatchOp → Option (Option Int)
  | .exit code => some code
  | _ => none

/-- Only an exit has a code of its own. -/
theorem BatchOp.exit?_eq_some {code : Option Int} (h : op.exit? = some code) :
    op = .exit code := by
  cases op with
  | exit given => cases h; rfl
  | _ => cases h

/-- Whether the operation runs a command. -/
def BatchOp.isCommand : BatchOp → Bool
  | .cmd _ _ => true
  | _ => false

namespace Batch

/-- The lines a run carries out: those up to the first exit. -/
def executed (ops : List (Nat × BatchOp)) : List (Nat × BatchOp) :=
  ops.take (ops.findIdx (fun entry => entry.2.exit?.isSome) + 1)

/-- The code given to the first exit, if there is one. -/
def requested (ops : List (Nat × BatchOp)) : Option (Option Int) :=
  ops.findSome? fun entry => entry.2.exit?

-- ================================================================== steps

/-- The lines an operation that returned hands over. -/
def returned : Outcome (Except ScriptError StepValue) → List String
  | .ok (.ok value) => value.lines
  | _ => []

/-- The step has the return code of the operation, or its failure. -/
def Tells : Except ScriptError StepValue → BatchStep → Prop
  | .ok value, step => step.returnCode = some value.rc ∧ step.error = none
  | .error failure, step => step.returnCode = none ∧ step.error = some failure.message
      ∧ step.code = some failure.code

/-- The failed release an operation leads to: that of the private DD of
its command. -/
def ownFailure : BatchOp → Session SimHost → Option Error
  | .cmd text authorized, s => Session.releaseFailure text { authorized } s
  | _, _ => none

/-- The step an operation makes in the session `s`, which it leaves as
`t`. -/
structure Recorded (line : Nat) (op : BatchOp) (s : Session SimHost) (step : BatchStep)
    (t : Session SimHost) : Prop where
  line : step.line = line
  title : step.op = op.title
  after : t = { (perform op s).2 with failures := [] }
  tells : ∃ result, (perform op s).1 = .ok result ∧ Tells result step
  /-- The lines it handed over, then those it wrote to the terminal. -/
  lines : ∃ written, t.host.terminal = s.host.terminal ++ written
    ∧ step.lines = returned (perform op s).1 ++ written.map (·.2)
  /-- Its own failed release, behind those that were pending; a command
  that returned drops those. -/
  warnings : step.warnings = ((if op.isCommand && step.error.isNone then [] else s.failures)
    ++ (ownFailure op s).toList).map Error.message

/-- Lines carried out one after the other, up to the first exit. -/
inductive Ran : List (Nat × BatchOp) → Session SimHost → List BatchStep → Session SimHost → Prop
    where
  | done (s : Session SimHost) : Ran [] s [] s
  | exit (line : Nat) (code : Option Int) (rest : List (Nat × BatchOp)) (s : Session SimHost) :
      Ran ((line, .exit code) :: rest) s [{ line, op := "exit" }] s
  | next {line : Nat} {op : BatchOp} {rest : List (Nat × BatchOp)} {s t u : Session SimHost}
      {step : BatchStep} {steps : List BatchStep} (hop : op.exit? = none)
      (hstep : Recorded line op s step t) (hrest : Ran rest t steps u) :
      Ran ((line, op) :: rest) s (step :: steps) u

-- ============================================================= operations

/-- An operation meets a contract of the session. -/
abbrev Holds (C : Contract (Session SimHost)) (x : Op (Session SimHost) α) : Prop :=
  Session.Meets C id (id : SimHost → SimHost) (fun _ => True) (fun _ => True) x x

/-- The operations of a session that a batch is made of meet a contract; of
commands only the one that is run has to. -/
structure Performed (C : Contract (Session SimHost)) (op : BatchOp) : Prop where
  run : ∀ text authorized, op = .cmd text authorized → Holds C (Session.run text { authorized })
  takeFailures : Holds C Session.takeFailures
  allocate : ∀ request, Holds C (Session.allocate request)
  free : ∀ name, Holds C (Session.free name)
  message : ∀ text level, Holds C (Session.message text level)

/-- So the operation of a batch meets the contract, and fails with nothing:
what goes wrong is in its result. -/
theorem meets_perform {C : Contract (Session SimHost)} {causes : Error → Prop}
    (h : Performed C op) :
    Session.Meets C id (id : SimHost → SimHost) causes (fun _ => True) (perform op)
      (perform op) := by
  cases op with
  | cmd text authorized =>
      refine (Script.meets_cmd (h.run text authorized rfl) h.takeFailures).andThen fun _ => ?_
      exact Op.meets_return _
  | alloc operands =>
      exact (Script.meets_alloc operands h.allocate).andThen fun _ => Op.meets_return _
  | free operands => exact (Script.meets_free operands h.free).andThen fun _ => Op.meets_return _
  | msg level text =>
      exact (Script.meets_msg text level (h.message text)).andThen fun _ => Op.meets_return _
  | exit code => exact Op.meets_return _

/-- Nothing is asked of an operation, and still it does not fail. -/
theorem raises_perform (op : BatchOp) : (perform op).Raises fun _ => False := by
  have hfree : ∀ {α : Type} (x : Op (Session SimHost) α), Holds .free x :=
    fun x => Session.meets_self (Op.fulfils_free x id)
  exact (meets_perform ⟨fun _ _ _ => hfree _, hfree _, fun _ => hfree _, fun _ => hfree _,
    fun _ _ => hfree _⟩).raises

/-- A later session of the same life. -/
def Later (s t : Session SimHost) : Prop :=
  Relation.ReflTransGen (Step Touched) s t

instance : IsPreorder (Session SimHost) Later where
  refl _ := .refl
  trans _ _ _ h h' := h.trans h'

/-- Every operation of a batch is a step of its session, or several. -/
theorem later_perform (op : BatchOp) : (perform op).Within Later := by
  have hstep : ∀ {α : Type} {x : Op (Session SimHost) α}, (∀ s, Step Touched s (x s).2) →
      Holds (.keeping (fun _ => True) Later) x :=
    fun h => Session.meets_self (Op.Within.fulfils (fun s => .single (h s)) fun _ _ _ h => h)
  have hmeets : Holds (.keeping (fun _ => True) Later) (perform op) := meets_perform {
    run := fun text _ _ => hstep fun s => .run s text _
    takeFailures := hstep fun s => .takeFailures s
    allocate := fun request => hstep fun s => .allocate s request
    free := fun name => hstep fun s => .free s name
    message := fun text level => hstep fun s => .message s text level }
  exact hmeets.fulfils.within

-- ============================================================== failures

/-- The warning that came with a value. -/
def warned : Except ScriptError StepValue → List String
  | .ok value => value.warning.toList
  | .error _ => []

/-- What a step reports of the list of the session when its operation had
this result: what was pending, which a command that returned drops, and the
operation's own failed release. -/
def owed (op : BatchOp) (result : Except ScriptError StepValue) (s : Session SimHost) :
    List String :=
  ((if op.isCommand && result.isOk then [] else s.failures)
    ++ (ownFailure op s).toList).map Error.message

/-- Where the operation is no command, what was pending is pending. -/
theorem owed_of_sameFailures {result : Except ScriptError StepValue} (hop : op.isCommand = false)
    (hown : ownFailure op s = none) (hquiet : warned result = []) (h : SameFailures s t) :
    warned result ++ t.failures.map Error.message = owed op result s := by
  unfold owed
  rw [hquiet, hop, hown, h]
  simp

/-- A command that returned owes its own failure alone. -/
theorem owed_returned (text : String) (authorized : Bool) (value : StepValue)
    (s : Session SimHost) :
    owed (.cmd text authorized) (.ok value) s
      = (Session.releaseFailure text { authorized } s).toList.map Error.message := by
  have hreturned : ((BatchOp.cmd text authorized).isCommand
      && (Except.ok value : Except ScriptError StepValue).isOk) = true := rfl
  unfold owed
  rw [if_pos hreturned, List.nil_append]
  rfl

/-- An operation that is no command owes nothing and delivers nothing. -/
theorem owed_plain {x : Op (Session SimHost) (Except ScriptError Int32)}
    (h : x.Within SameFailures) (hop : op.isCommand = false) (hown : ownFailure op s = none) :
    (x >>= fun result => pure (result.map fun rc => ({ rc } : StepValue))).Ends s fun r t =>
      ∀ result, r = .ok result →
        warned result ++ t.failures.map Error.message = owed op result s := by
  refine (h s).bind (fun result t ht value hvalue => ?_) fun _ _ _ _ h => by cases h
  cases hvalue
  cases result with
  | ok rc => exact owed_of_sameFailures hop hown rfl ht
  | error failure => exact owed_of_sameFailures hop hown rfl ht

/-- An operation hands over or leaves in the list what its step owes. -/
theorem perform_owed (op : BatchOp) (s : Session SimHost) :
    (perform op).Ends s fun r t => ∀ result, r = .ok result →
      warned result ++ t.failures.map Error.message = owed op result s := by
  cases op with
  | cmd text authorized =>
      have hreports := Session.run_reports text Sim.readsPlainly { authorized } s
      rcases hrun : Session.run text { authorized } s with ⟨(cause | _) | outcome, t⟩
      · have hnoted := (hreports.fault hrun).noted
        refine Op.Ends.bind_of_ok (Script.cmd_of_fault hrun) fun result hresult => ?_
        cases hresult
        exact congrArg (List.map Error.message) hnoted
      · rw [Op.Ends, perform, Op.run_bind_of_fault (Script.cmd_of_fault hrun)]
        exact fun _ h => by cases h
      · refine Op.Ends.bind_of_ok (Script.cmd_of_ok hrun) fun result hresult => ?_
        cases hresult
        have hown := (hreports.ok hrun).own outcome rfl
        refine Eq.trans ?_ (owed_returned text authorized _ s).symm
        show (outcome.cleanup.map Error.message).toList ++ [] = _
        rw [hown, List.append_nil, Option.toList_map]
  | alloc operands => exact owed_plain (Script.sameFailures_alloc operands) rfl rfl
  | free operands => exact owed_plain (Script.sameFailures_free operands) rfl rfl
  | msg level text => exact owed_plain (Script.sameFailures_msg text level) rfl rfl
  | exit code =>
      intro result hresult
      cases hresult
      exact owed_of_sameFailures rfl rfl rfl rfl

-- ================================================================= steps

/-- Later on, modules are still filed under their names. -/
theorem Later.named (h : Later s t) (hnamed : s.linkage.Named) : t.linkage.Named := by
  induction h with
  | refl => exact hnamed
  | tail _ hstep ih => exact hstep.named ih

/-- Later on, the lines on the terminal are still there. -/
theorem Later.printed (h : Later s t) (hnamed : s.linkage.Named) : Printed s.host t.host := by
  induction h with
  | refl => exact .same rfl
  | tail hlater hstep ih => exact ih.trans (Sim.step_printed hstep (Later.named hlater hnamed))

/-- A step records its operation. -/
theorem runStep_recorded (line : Nat) (op : BatchOp) (hnamed : s.linkage.Named) :
    (runStep line op).Completes s fun step t => Recorded line op s step t := by
  refine Op.ends_gets_bind ?_
  refine ((raises_perform op).completes s).bind fun result u hperform => ?_
  have hlater : Later s u := (later_perform op s).ok hperform
  have howed := (perform_owed op s).ok hperform result rfl
  obtain ⟨written, hwritten⟩ := hlater.printed hnamed
  refine Op.ends_gets_bind ?_
  rw [hwritten, List.drop_left]
  refine Op.Ends.bind_of_ok rfl (.inr ?_)
  have hresult : (perform op s).1 = .ok result := congrArg Prod.fst hperform
  have hafter : { u with failures := [] } = { (perform op s).2 with failures := [] } := by
    rw [hperform]
  cases result with
  | ok value =>
      refine ⟨_, rfl, rfl, rfl, hafter, ⟨_, hresult, rfl, rfl⟩, ⟨written, hwritten, ?_⟩, howed⟩
      rw [hresult]
      rfl
  | error failure =>
      refine ⟨_, rfl, rfl, rfl, hafter, ⟨_, hresult, rfl, rfl, rfl⟩, ⟨written, hwritten, ?_⟩,
        howed⟩
      rw [hresult]
      rfl

/-- A recorded step leads to a later session. -/
theorem Recorded.later {line : Nat} {step : BatchStep} (h : Recorded line op s step t) :
    Later s t := by
  rw [h.after]
  exact (later_perform op s : Later s (perform op s).2).tail (.takeFailures _)

/-- What a line that is no exit does before the next. -/
theorem runSteps_cons (line : Nat) (hop : op.exit? = none) (rest : List (Nat × BatchOp)) :
    runSteps ((line, op) :: rest) = (do
      let step ← runStep line op
      let (steps, requested) ← runSteps rest
      return (step :: steps, requested)) := by
  cases op with
  | exit code => cases hop
  | _ => rfl

/-- The steps of a run are those of its lines up to the first exit. -/
theorem runSteps_ran (ops : List (Nat × BatchOp)) (hnamed : s.linkage.Named) :
    (runSteps ops).Completes s fun value t => value.2 = requested ops ∧ Ran ops s value.1 t := by
  induction ops generalizing s with
  | nil => exact Op.completes_pure ⟨rfl, .done s⟩
  | cons entry rest ih =>
      obtain ⟨line, op⟩ := entry
      cases hop : op.exit? with
      | some code =>
          obtain rfl := BatchOp.exit?_eq_some hop
          exact Op.completes_pure ⟨rfl, .exit line code rest s⟩
      | none =>
          have hasked : requested ((line, op) :: rest) = requested rest := by
            unfold requested
            rw [List.findSome?_cons, hop]
          rw [runSteps_cons line hop]
          refine (runStep_recorded line op hnamed).bind fun step t hstep => ?_
          refine (ih (hstep.later.named hnamed)).bind fun value u hu => ?_
          exact Op.completes_pure ⟨hu.1.trans hasked.symm, .next hop hstep hu.2⟩

/-- So does a run. -/
theorem Ran.later (h : Ran ops s steps u) : Later s u := by
  induction h with
  | done s => exact .refl
  | exit line code rest s => exact .refl
  | next hop hstep hrest ih => exact hstep.later.trans ih

/-- An exit is the last operation that is executed. -/
theorem executed_exit (line : Nat) (code : Option Int) (rest : List (Nat × BatchOp)) :
    executed ((line, .exit code) :: rest) = [(line, .exit code)] := by
  simp [executed, List.findIdx_cons, BatchOp.exit?]

/-- Any other is executed, and the rest goes on. -/
theorem executed_next (line : Nat) (hop : op.exit? = none) (rest : List (Nat × BatchOp)) :
    executed ((line, op) :: rest) = (line, op) :: executed rest := by
  simp [executed, List.findIdx_cons, hop]

/-- The steps of a run are the operations executed, line by line. -/
theorem Ran.lines (h : Ran ops s steps u) :
    steps.map (fun step => (step.line, step.op))
      = (executed ops).map fun entry => (entry.1, entry.2.title) := by
  induction h with
  | done s => rfl
  | exit line code rest s =>
      rw [executed_exit]
      rfl
  | next hop hstep hrest ih =>
      rw [executed_next _ hop, List.map_cons, List.map_cons, ih, hstep.line, hstep.title]

/-- The lines on the terminal, step by step. -/
theorem Ran.terminal (h : Ran ops s steps u) :
    ∃ parts, u.host.terminal = s.host.terminal ++ parts.flatten
      ∧ List.Forall₂ (fun part step => ∃ captured, step.lines = captured ++ part.map Prod.snd)
        parts steps := by
  induction h with
  | done s => exact ⟨[], (List.append_nil _).symm, .nil⟩
  | exit line code rest s => exact ⟨[[]], (List.append_nil _).symm, .cons ⟨[], rfl⟩ .nil⟩
  | next hop hstep hrest ih =>
      obtain ⟨written, hwritten, hlines⟩ := hstep.lines
      obtain ⟨parts, hparts, hall⟩ := ih
      refine ⟨written :: parts, ?_, .cons ⟨_, hlines⟩ hall⟩
      rw [hparts, hwritten, List.flatten_cons, List.append_assoc]

/-- A failed step has no return code. -/
theorem Ran.silent (h : Ran ops s steps u) :
    ∀ step ∈ steps, step.error.isSome = true → step.returnCode = none := by
  induction h with
  | done s => exact fun _ hmem => by cases hmem
  | exit line code rest s =>
      intro step hmem herror
      cases List.mem_singleton.mp hmem
      rfl
  | next hop hstep hrest ih =>
      refine List.forall_mem_cons.mpr ⟨fun herror => ?_, ih⟩
      obtain ⟨value | failure, -, htells⟩ := hstep.tells
      · exact htells.1
      · rw [htells.2] at herror
        cases herror

-- ================================================================== traps

section Traps

variable {large : Session SimHost → Prop}

/-- Taking the failures away touches nothing else. -/
theorem tame_takeFailures : Tame large (fun _ => True) Session.takeFailures :=
  Sim.tame_of_restful (Sim.restful_of_conserved (fun s => Sim.Conserved.refl s.linkage)
    fun _ => nofun)

/-- An operation traps where a counter is spent, and a command also where
its text is too long for an exec. -/
theorem tame_perform (hlarge : ∀ text authorized, op = .cmd text authorized →
    ∀ t, Heavy text t → large t) : Tame large (fun _ => True) (perform op) :=
  meets_perform {
    run := fun text authorized hop =>
      (Sim.tame_run text { authorized }).enlarge (hlarge text authorized hop)
    takeFailures := tame_takeFailures
    allocate := Sim.tame_allocate
    free := Sim.tame_free
    message := Sim.tame_message }

/-- A step adds a look at the terminal. -/
theorem tame_runStep (line : Nat) (hlarge : ∀ text authorized, op = .cmd text authorized →
    ∀ t, Heavy text t → large t) : Tame large (fun _ => True) (runStep line op) := by
  refine (Op.meets_gets _ _ fun _ => rfl).andThen fun seen => ?_
  refine (tame_perform hlarge).andThen fun result => ?_
  refine (Op.meets_gets _ _ fun _ => rfl).andThen fun terminal => ?_
  refine tame_takeFailures.andThen fun failures => ?_
  simp only
  split
  · exact Op.meets_return _
  · exact Op.meets_return _

/-- So a run traps only where one of its steps may. -/
theorem tame_runSteps (ops : List (Nat × BatchOp))
    (hlarge : ∀ line text authorized, (line, .cmd text authorized) ∈ executed ops →
      ∀ t, Heavy text t → large t) :
    Tame large (fun _ => True) (runSteps ops) := by
  induction ops with
  | nil => exact Op.meets_return _
  | cons entry rest ih =>
      obtain ⟨line, op⟩ := entry
      cases hop : op.exit? with
      | some code =>
          obtain rfl := BatchOp.exit?_eq_some hop
          exact Op.meets_return _
      | none =>
          rw [runSteps_cons line hop]
          rw [executed_next line hop] at hlarge
          refine (tame_runStep line fun text authorized hcmd => ?_).andThen fun step => ?_
          · exact hlarge line text authorized (by rw [hcmd]; exact List.mem_cons_self)
          · refine (ih fun line text authorized hmem => ?_).andThen fun value => Op.meets_return _
            exact hlarge line text authorized (List.mem_cons_of_mem _ hmem)

end Traps

-- =============================================================== releases

section Obliging

/-- The contract of an obliging host: unless they trap, operations leave the
table `found` with the live names over it. -/
def laying (host : SimHost) (settings : Settings) (found : Sim.DdTable) :
    Contract (Session SimHost) where
  given s := Reachable Touched host settings s
  keeps s t := Overlays found s → Overlays found t
  traps _ _ := True
  keeps_refl _ := id
  keeps_trans h h' := h' ∘ h
  traps_trans _ _ := trivial

/-- The steps of a session meet it if they lay their allocations over what
they found. -/
theorem holds_laying {x : Op (Session SimHost) α} (hstep : ∀ s, Step Touched s (x s).2)
    (h : ∀ s, Reachable Touched host settings s → Overlays found s → Lays found x s) :
    Holds (laying host settings found) x :=
  Session.meets_self fun s hs =>
    ⟨hs.tail (hstep s), fun hsafe hover => h s hs hover hsafe, fun _ => trivial, fun _ _ => trivial⟩

variable (hobliging : Obliging host)
include hobliging

/-- Every operation of a batch lays its allocations over what it found. -/
theorem laying_perform (op : BatchOp) : Holds (laying host settings found) (perform op) :=
  meets_perform {
    run := fun text _ _ => holds_laying (fun s => .run s text _)
      fun _ hs hover => Sim.lays_run hs hobliging hover text _
    takeFailures := holds_laying (fun s => .takeFailures s)
      fun _ _ hover => Sim.lays_takeFailures hover
    allocate := fun request => holds_laying (fun s => .allocate s request)
      fun _ hs hover => Sim.lays_allocate hs hobliging hover request
    free := fun name => holds_laying (fun s => .free s name)
      fun _ hs hover => Sim.lays_free hs hobliging hover name
    message := fun text level => holds_laying (fun s => .message s text level)
      fun _ _ hover => Sim.lays_message hover text level }

/-- So does a run, line by line. -/
theorem Ran.overlays (hran : Ran ops s steps u) (hs : Reachable Touched host settings s)
    (h : Overlays found s) : Overlays found u := by
  induction hran with
  | done s => exact h
  | exit line code rest s => exact h
  | @next line op rest s t u step steps hop hstep hrest ih =>
      refine ih (hs.trans hstep.later) ?_
      obtain ⟨result, hresult, -⟩ := hstep.tells
      have hlaying : Holds (laying host settings found) (perform op) := laying_perform hobliging op
      have hthere : Overlays found (perform op s).2 :=
        (hlaying.fulfils s hs).keeps (by rw [hresult]; exact nofun) h
      rw [hstep.after]
      exact ⟨hthere.struck, hthere.posts⟩

end Obliging

end Batch
end TsoBridge
