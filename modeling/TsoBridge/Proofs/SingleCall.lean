/-
A command is handed to the host at most once. Three modules run commands;
the engine branches to one of them at most once for each request, and a
request that failed in one of the ways a caller may take as "nothing was
run" branched to none.

# The argument

A request is a quiet part, one execute call, and a quiet part behind it.
What the first part returns does not matter: nothing was run yet. What
the last part returns does, because the automatic mode starts over with
the interpreter when it sees a missing module. So the causes are cut in
two: an early cause (`Error.isEarly`) never comes out of anything that
follows an execute call (`Outcome.Late`), and `Op.Once` says both at once:
no execute call, or one and an outcome that is late.

The host is arbitrary but for two things: a module is found under its own
name, and reading a DD fails with a read failure only.
-/
import TsoBridge.Proofs.Sim.Host

namespace TsoBridge

variable {H : Type} {σ τ α β : Type}

-- ================================================= early and late causes

/-- The causes that say that nothing was run. -/
def Error.isEarly : Error → Bool
  | .policyDenied _ => true
  | .environmentUnavailable _ _ _ => true
  | .allocationFailed _ _ _ _ _ => true
  | .unusableDdname _ _ _ _ _ => true
  | .invocationFailed .prepare _ _ _ => true
  | .serviceUnavailable _ => true
  | _ => false

/-- An outcome that may follow an execute call: its cause, if it has one,
is no early one. -/
def Outcome.Late (r : Outcome α) : Prop :=
  r.Raises fun cause => cause.isEarly = false

/-- However `x` ends, the outcome may follow an execute call. -/
def Op.EndsLate (x : Op σ α) : Prop :=
  x.Raises fun cause => cause.isEarly = false

/-- Nothing mechanical is early. -/
theorem mechanical_late : Error.Mechanical fun cause => cause.isEarly = false := by
  intro cause h
  cases cause with
  | obtainFailed | addressFault | bufferOverrun | invalidParmList | readFailed => rfl
  | _ => cases h

/-- Nor is what an execute service refuses. -/
theorem executing_late : Error.Executing fun cause => cause.isEarly = false where
  mechanical := mechanical_late
  refused _ _ _ := rfl
  command _ := rfl
  order _ _ := rfl
  answer _ := rfl

-- ============================================================== counting

/-- The number of execute calls so far. -/
def Linkage.executions (link : Linkage H) : Nat :=
  link.calls.countP isExecute

/-- Executions are counted by the calls that were added. -/
theorem Linkage.executions_append {link after : Linkage H} {new : List String}
    (h : after.calls = link.calls ++ new) :
    after.executions = link.executions + new.countP isExecute := by
  unfold executions
  rw [h, List.countP_append]

namespace Op

variable {link : σ → Linkage H} {late : Outcome α → Prop} {late' : Outcome β → Prop}

/-- No execute call, or one and an outcome that is `late`. -/
def Once (link : σ → Linkage H) (late : Outcome α → Prop) (x : Op σ α) : Prop :=
  ∀ s, (link s).Named → x.Ends s fun r t =>
    (link t).Named ∧ ((link t).executions = (link s).executions
      ∨ (link t).executions = (link s).executions + 1 ∧ late r)

/-- The outcome of an attempt, late in itself and in the error it
returns. -/
def LateInside (r : Outcome (Except Error α)) : Prop :=
  r.Late ∧ ∀ cause, r = .ok (.error cause) → cause.isEarly = false

/-- A late cause is kept in the result of an attempt. -/
theorem Once.attempt {x : Op σ α} (h : x.Once link Outcome.Late) :
    x.attempt.Once link LateInside := by
  intro s hs
  refine (h s hs).attempt (fun a t hat => ⟨hat.1, ?_⟩) (fun e t het => ⟨het.1, ?_⟩)
    fun t ht => ⟨ht.1, ?_⟩
  · refine hat.2.imp_right fun hone => ⟨hone.1, Outcome.raises_ok _, fun cause heq => ?_⟩
    cases heq
  · refine het.2.imp_right fun hone => ⟨hone.1, Outcome.raises_ok _, fun cause heq => ?_⟩
    cases heq
    exact hone.2 e rfl
  · refine ht.2.imp_right fun hone => ⟨hone.1, Outcome.raises_trap, fun cause heq => ?_⟩
    cases heq

/-- Calls are counted on the part that holds the linkage. -/
theorem Once.on {link' : τ → Linkage H} {part : σ → τ} {put : σ → τ → σ} {x : Op τ α}
    (h : x.Once link' late) (hpart : ∀ s, link' (part s) = link s)
    (hput : ∀ s t, link (put s t) = link' t) : (x.on part put).Once link late := by
  intro s hs
  rw [← hpart s] at hs
  refine (h (part s) hs).on fun r t hrt => ?_
  rw [hput, ← hpart s]
  exact hrt

theorem Once.onFirst {x : Op (Linkage H) α} (h : x.Once id late) :
    (onFirst x : Op (Linkage H × τ) α).Once Prod.fst late :=
  h.on (fun _ => rfl) fun _ _ => rfl

end Op

/-- A frame adds no call. -/
theorem Linkage.once_framed {late : Outcome α → Prop} {x : Op (Linkage H) α}
    (h : x.Once id late) : (framed x).Once id late :=
  fun link hnamed => h { link with storage := link.storage.openFrame } hnamed

variable [Host H]

namespace Op

variable {link : σ → Linkage H} {late : Outcome α → Prop} {late' : Outcome β → Prop}

/-- Quiet moves execute nothing. -/
theorem reach_executions {before after : Linkage H} (h : Linkage.Reach Quiet before after) :
    after.executions = before.executions := by
  obtain ⟨new, hnew, hquiet⟩ := h.calls
  have hzero : new.countP isExecute = 0 :=
    List.countP_eq_zero.mpr fun module hmodule => by simp [hquiet module hmodule]
  rw [Linkage.executions_append hnew, hzero]
  rfl

/-- So quiet work is done at most once, trivially. -/
theorem Uses.once {x : Op σ α} (h : x.Uses link Quiet fun _ => True) :
    x.Once link late :=
  fun s hs => (h s hs).mono fun _ _ hrt => ⟨hrt.1.named hs, .inl (reach_executions hrt.1)⟩

/-- A quiet part may stand in front. -/
theorem Uses.before {value : α → Prop} {x : Op σ α} {f : α → Op σ β}
    (hx : x.Uses link Quiet value) (hf : ∀ a, value a → (f a).Once link late') :
    (x >>= f).Once link late' := by
  intro s hs
  refine (hx s hs).bind (fun a t hat => ?_) fun fault t hft => ?_
  · rw [← reach_executions hat.1]
    exact hf a (hat.2 a rfl) t (hat.1.named hs)
  · exact ⟨hft.1.named hs, .inl (reach_executions hft.1)⟩

/-- A quiet part may stand behind, if what it returns after an execute
call is late. -/
theorem Once.after {x : Op σ α} {f : α → Op σ β} (hx : x.Once link late)
    (hquiet : ∀ a, (f a).Uses link Quiet fun _ => True)
    (hlate : ∀ a t, late (.ok a) → (f a).Ends t fun r _ => late' r)
    (hfault : ∀ fault, late (.error fault) → late' (.error fault)) :
    (x >>= f).Once link late' := by
  intro s hs
  refine (hx s hs).bind (fun a t hat => ?_) fun fault t hft => ?_
  · have hrest := hquiet a t hat.1
    rcases hat.2 with hsame | ⟨hone, ha⟩
    · refine hrest.mono fun r u hru => ⟨hru.1.named hat.1, .inl ?_⟩
      rw [reach_executions hru.1, hsame]
    · refine (hrest.and (hlate a t ha)).mono fun r u hru => ⟨hru.1.1.named hat.1, .inr ?_⟩
      exact ⟨by rw [reach_executions hru.1.1, hone], hru.2⟩
  · exact ⟨hft.1, hft.2.imp_right fun h => ⟨h.1, hfault fault h.2⟩⟩

/-- The usual case: what stands behind ends late by itself. -/
theorem Once.afterLate {x : Op σ α} {f : α → Op σ β} (hx : x.Once link Outcome.Late)
    (hquiet : ∀ a, (f a).Uses link Quiet fun _ => True) (hlate : ∀ a, (f a).EndsLate) :
    (x >>= f).Once link Outcome.Late :=
  hx.after hquiet (fun a t _ => hlate a t) fun fault h cause heq => by
    cases heq
    exact h cause rfl

end Op

-- ============================================================= the call

namespace Linkage

/-- A branch is one call, and it ends late if it was an execution. -/
theorem once_branch (entry : EntryPoint) (r1 : Address) :
    (branch entry r1 : Op (Linkage H) Int32).Once id Outcome.Late := by
  intro link hnamed
  obtain ⟨hmodules, hcalls, -⟩ := branch_modules entry r1 link
  have hlate : (branch entry r1 link).1.Late := by
    unfold branch
    rcases Host.call link.toMachine entry r1 with ⟨_ | r15, machine⟩
    · exact Outcome.raises_trap
    · exact Outcome.raises_ok r15
  have hcount : (branch entry r1 link).2.executions
      = link.executions + if isExecute entry.module then 1 else 0 := by
    unfold executions
    rw [hcalls, List.countP_append, List.countP_singleton]
  refine ⟨fun key found hget => hnamed key found (hmodules ▸ hget), ?_⟩
  by_cases hexecute : isExecute entry.module = true
  · rw [if_pos hexecute] at hcount
    exact .inr ⟨hcount, hlate⟩
  · rw [if_neg hexecute] at hcount
    exact .inl hcount

/-- So is a call with its parameter list. -/
theorem once_call (entry : EntryPoint) (parms : ParmList) :
    (call entry parms : Op (Linkage H) Int32).Once id Outcome.Late :=
  (reach_place parms).uses.before fun r1 _ => once_branch entry r1

/-- What is done around the call is quiet, and late behind it. -/
theorem Exchange.once {entry : EntryPoint} {x y : Op (Linkage H) α} (h : Exchange entry x y) : x.Once id Outcome.Late := by
  have hstore : Storing (Reach Quiet : Linkage H → Linkage H → Prop) :=
    ⟨reach_obtain, reach_obtainWith, reach_write⟩
  induction h with
  | call parms h =>
      exact (once_call entry parms).afterLate (fun r15 => ((h r15).within hstore).uses)
        fun r15 => (h r15).raises mechanical_late
  | before hx _ ih => exact (hx.within hstore).uses.before fun a _ => ih a

/-- A service is called once. -/
theorem Posted.once {entry : EntryPoint} {x y : Op (Linkage H) α} (h : Posted entry x y) : x.Once id Outcome.Late := by
  cases h with
  | framed h => exact once_framed h.once

end Linkage

-- =========================================================== one request

variable [Host.LoadsByName H]

namespace Invocation

/-- An execute call is the one execution there is. -/
theorem once_callExecute (capability : Capability) (invocation : Invocation) :
    (callExecute capability invocation : Op (Linkage H) CommandReport).Once id
      Outcome.Late := by
  refine (Op.uses_lift_except _).before fun token _ => ?_
  refine (Linkage.uses_fetch _).before fun entry _ => ?_
  refine (Op.uses_lift_except _).before fun bare _ => ?_
  refine (posted_sendBlock entry capability _).once.afterLate
    (fun answer => ?_) fun answer => ?_
  · exact Op.uses_lift_except _
  · exact Op.raises_lift (raises_reportOf executing_late answer.1 answer.2)

/-- A command executes once, whatever was prepared before. -/
theorem once_run (capability : Capability) (route : Route) (command : String)
    (output : Option DdName) :
    (run capability route command output : Op (Linkage H) CommandReport).Once id
      Outcome.Late := by
  rw [run_eq]
  refine (Op.uses_lift_except _).before fun invocation _ => ?_
  refine (uses_obtainToken Session.Supported.quiet.prepare route).before fun token _ => ?_
  exact once_callExecute capability _

end Invocation

namespace ExecCapture

/-- So does an exec. -/
theorem once_run (h : Host.ReadsPlainly H) (capability : Capability) (command : String) :
    (run capability command : Op (Linkage H × ExecCapture) CommandReport).Once Prod.fst
      Outcome.Late := by
  unfold run
  simp only
  split
  · exact (Op.uses_fail _).once
  · refine (Linkage.uses_fetch _).onFirst.before fun entry _ => ?_
    refine (Op.uses_gets _).before fun capture _ => ?_
    have hcatch : (catchUp capture : Op (Linkage H × ExecCapture) Unit).Uses Prod.fst Quiet
        fun _ => True :=
      (meets_catchUp Linkage.served .any Error.Running.any.toExecuting capture).uses
    refine hcatch.before fun _ _ => ?_
    have hcall : (callExec entry capability (capture.requestOf (Text.trim command)) :
        Op (Linkage H) _).Once id Outcome.Late :=
      (posted_callExec entry capability _).once
    refine hcall.onFirst.afterLate (fun answer => ?_) fun answer => ?_
    · exact (meets_collect Linkage.served .any Error.Running.any.toExecuting _ _ _ _).uses
    · exact (meets_collect (Linkage.served_free (Host.maps_id _)) (h.readsWith mechanical_late)
        executing_late _ _ _ _).raises

end ExecCapture

/-- The outcome of work with a binding, late in itself and in the error
the work returned. -/
def Bindings.Released.Late (r : Outcome (Bindings.Released α)) : Prop :=
  r.Late ∧ ∀ released cause, r = .ok released → released.result = .error cause →
    cause.isEarly = false

/-- Allocating and freeing around the work execute nothing. -/
theorem Bindings.once_withBinding (capability : Capability) (hint : Option String)
    {work : DdName → Op (Linkage H) α} (hwork : ∀ name, (work name).Once id Outcome.Late) :
    (withBinding capability hint work : Op (Linkage H × Bindings) (Released α)).Once Prod.fst
      Released.Late := by
  refine (uses_allocate Session.Supported.quiet.allocate Session.Supported.quiet.free capability
    _).before fun bound _ => ?_
  refine (hwork bound.1).onFirst.attempt.after (fun result => ?_) (fun result t hresult => ?_)
    fun fault hfault => ⟨hfault.1.fault, fun _ _ heq => by cases heq⟩
  · exact (uses_release Session.Supported.quiet.free capability bound.1).andThen fun _ =>
      Op.uses_pure trivial
  · -- the free has no error to end with, and the result of the work stays
    have hrelease : (release capability bound.1 : Op (Linkage H × Bindings) _).EndsLate :=
      (Op.raises_attempt _).bind fun freed => by
        split
        · exact Op.raises_pure _
        · exact Op.raises_pure _
    refine (hrelease t).bind (fun cleanup u _ => ⟨Outcome.raises_ok _, ?_⟩) fun fault u hfault =>
      ⟨hfault.fault, fun _ _ heq => by cases heq⟩
    intro released cause heq hcause
    cases heq
    exact hresult.2 cause (congrArg _ hcause)

namespace Session

variable (h : Host.ReadsPlainly H)
include h

/-- Reading the output behind a command executes nothing. -/
theorem once_captured (capability : Capability) (route : Route) (text : String)
    (name : DdName) :
    (captured capability route text name : Op (Linkage H) (DdName × CommandReport)).Once id
      Outcome.Late := by
  refine (Invocation.once_run capability route text (some name)).afterLate (fun report => ?_)
    fun report => ?_
  · exact (Output.uses_readLines name.text).andThen fun _ => Op.uses_pure trivial
  · exact (Output.meets_readLines (Linkage.served_free (Host.maps_id _))
      (h.readsWith mechanical_late) mechanical_late name.text).raises.bind fun _ => Op.raises_pure _

/-- The direct path executes once. -/
theorem once_runDirect (capability : Capability) (route : Route) (text : String) :
    (runDirect capability route text : Op (Session H) CommandOutcome).Once linkage
      Outcome.Late := by
  refine (uses_onLinkage (Invocation.uses_resolve route)).before fun _ _ => ?_
  have hbound : (onBindings (Bindings.withBinding capability none
      (captured capability route text)) : Op (Session H) _).Once linkage
        Bindings.Released.Late :=
    (Bindings.once_withBinding capability none (once_captured h capability route text)).on
      (fun _ => rfl) fun _ _ => rfl
  refine hbound.after (fun released => ?_) (fun released t hreleased => ?_) fun fault => ?_
  · refine (uses_note _).andThen fun _ => ?_
    exact (Op.uses_lift_except _).andThen fun _ => Op.uses_pure trivial
  · have hresult : Outcome.Late (Outcome.ofExcept released.result) := by
      cases hr : released.result with
      | ok value => exact Outcome.raises_ok _
      | error cause => exact Outcome.raises_error (hreleased.2 released cause rfl hr)
    have hnote : (note released.cleanup.toList : Op (Session H) Unit).EndsLate :=
      fun _ => Outcome.raises_ok _
    refine hnote.bind (fun _ => ?_) t
    exact Op.Raises.bind (fun _ => hresult) fun _ => Op.raises_pure _
  · intro hfault
    exact hfault.1.fault

/-- So does the exec path. -/
theorem once_runExec (capability : Capability) (route : Route) (text : String) :
    (runExec capability route text : Op (Session H) CommandOutcome).Once linkage
      Outcome.Late := by
  unfold runExec
  split
  · exact (Op.uses_fail _).once
  · have hrun : (onCapture (ExecCapture.run capability text) :
        Op (Session H) CommandReport).Once linkage Outcome.Late :=
      (ExecCapture.once_run h capability text).on (fun _ => rfl) fun _ _ => rfl
    exact hrun.afterLate (fun _ => Op.uses_pure trivial) fun _ => Op.raises_pure _

/-- The automatic mode is the direct path, or the interpreter from where
the direct path left off without an execute call. -/
theorem runAuto_cases (capability : Capability) (route : Route) (text : String)
    {s : Session H} (hs : s.linkage.Named) :
    runAuto capability route text s = runDirect capability route text s
      ∨ ∃ module after,
        runDirect capability route text s = (.error (.error (.serviceUnavailable module)), after)
        ∧ runAuto capability route text s = runExec capability route text after
        ∧ after.linkage.executions = s.linkage.executions := by
  have hdirect := once_runDirect h capability route text s hs
  rcases hr : runDirect capability route text s with ⟨(cause | _) | outcome, after⟩
  · have hattempt := Op.run_attempt_of_error hr
    cases cause with
    | serviceUnavailable module =>
        have hauto : runAuto capability route text s
            = (if route = .standard then runExec capability route text
              else Op.fail (.serviceUnavailable module)) after :=
          Op.run_bind_of_ok hattempt
        by_cases hroute : route = .standard
        · rw [if_pos hroute] at hauto
          refine .inr ⟨module, after, rfl, hauto, ?_⟩
          rw [Op.Ends, hr] at hdirect
          rcases hdirect.2 with hsame | ⟨-, hlate⟩
          · exact hsame
          · exact absurd (hlate _ rfl) (by simp [Error.isEarly])
        · rw [if_neg hroute] at hauto
          exact .inl hauto
    | _ => exact .inl (Op.run_bind_of_ok hattempt)
  · exact .inl (Op.run_bind_of_fault (Op.run_attempt_of_trap hr))
  · exact .inl (Op.run_bind_of_ok (Op.run_attempt_of_ok hr))

/-- The automatic mode tries both, but the second only after a cause that
came before any execution. -/
theorem once_runAuto (capability : Capability) (route : Route) (text : String) :
    (runAuto capability route text : Op (Session H) CommandOutcome).Once linkage
      Outcome.Late := by
  intro s hs
  have hdirect := once_runDirect h capability route text s hs
  rcases runAuto_cases h capability route text hs with heq | ⟨module, after, hr, heq, hcount⟩
  · rw [Op.Ends, heq]
    exact hdirect
  · rw [Op.Ends, hr] at hdirect
    rw [Op.Ends, heq, ← hcount]
    exact once_runExec h capability route text after hdirect.1

/-- A command of a session executes at most once, by whatever path. -/
theorem once_run (text : String) (options : CommandOptions) :
    (run text options : Op (Session H) CommandOutcome).Once linkage Outcome.Late := by
  refine (Op.uses_gets _).before fun settings _ => ?_
  simp only
  split
  · exact (Op.uses_fail _).once
  split
  · exact (Op.uses_fail _).once
  refine (uses_establish Session.Supported.quiet).before fun capability _ => ?_
  have hby : (runBy capability (routeOf options) (Text.trim text) options :
      Op (Session H) CommandOutcome).Once linkage Outcome.Late := by
    refine (Op.uses_gets _).before fun settings _ => ?_
    split
    · have hrun : (onLinkage (Invocation.run capability (routeOf options) (Text.trim text) none) :
          Op (Session H) CommandReport).Once linkage Outcome.Late :=
        (Invocation.once_run capability _ _ none).on (fun _ => rfl) fun _ _ => rfl
      exact hrun.afterLate (fun _ => Op.uses_pure trivial) fun _ => Op.raises_pure _
    · split
      · exact once_runDirect h capability _ _
      · exact once_runExec h capability _ _
      · exact once_runAuto h capability _ _
  exact hby.afterLate (fun _ => Op.uses_pure trivial) fun _ => Op.raises_pure _

/-- One request makes at most one execute call, whatever the host answers,
and none if it fails with a cause that says that nothing was run. The
automatic mode goes on to the interpreter only where the direct path made
no execute call. -/
theorem executes_at_most_once {touch : H → H → Prop} {host : H} {settings : Settings}
    {s : Session H} (hs : Reachable touch host settings s) (text : String)
    (options : CommandOptions) :
    (∃ new, (run text options s).2.linkage.calls = s.linkage.calls ++ new
      ∧ new.countP isExecute ≤ 1
      ∧ ∀ cause, (run text options s).1 = .error (.error cause) → cause.isEarly = true →
        new.countP isExecute = 0)
    ∧ ∀ capability route command,
      runAuto capability route command s = runDirect capability route command s
      ∨ ∃ module after new,
        runDirect capability route command s
          = (.error (.error (.serviceUnavailable module)), after)
        ∧ runAuto capability route command s = runExec capability route command after
        ∧ after.linkage.calls = s.linkage.calls ++ new ∧ new.countP isExecute = 0 := by
  have hall : Supported fun _ => True := fun _ _ => trivial
  constructor
  · have hmoves : Linkage.Reach (fun _ => True) s.linkage (run text options s).2.linkage :=
      (uses_run hall trivial text trivial s hs.named).1
    obtain ⟨new, hnew, -⟩ := hmoves.calls
    have hcount := Linkage.executions_append hnew
    refine ⟨new, hnew, ?_⟩
    rcases (once_run h text options s hs.named).2 with hnone | ⟨hone, hlate⟩
    · exact ⟨by omega, fun _ _ _ => by omega⟩
    · refine ⟨by omega, fun cause hcause hearly => ?_⟩
      rw [hlate cause hcause] at hearly
      cases hearly
  · intro capability route command
    refine (runAuto_cases h capability route command hs.named).imp_right ?_
    rintro ⟨module, after, hdirect, hauto, hnone⟩
    have hmoves : Linkage.Reach (fun _ => True) s.linkage after.linkage := by
      have hrun : Linkage.Reach (fun _ => True) s.linkage
          (runDirect capability route command s).2.linkage :=
        ((meets_runDirect (commanded_moves (Host.maps_id _) hall trivial trivial command)
          capability).uses s hs.named).1
      rwa [hdirect] at hrun
    obtain ⟨new, hnew, -⟩ := hmoves.calls
    have hcount := Linkage.executions_append hnew
    exact ⟨module, after, new, hdirect, hauto, hnew, by omega⟩

end Session

namespace Sim

open Session

/-- A host without the execute service: the automatic mode asks the
interpreter, once. -/
theorem executes_at_most_once_fallback :
    let s := start (SimHost.build (Options.withoutModule {} "IKJEFTSR") noon) {}
    let options : CommandOptions := { mode := some .auto }
    Reachable Touched s.host {} s
      ∧ (∃ new, (run "TIME" options s).2.linkage.calls = s.linkage.calls ++ new
        ∧ new.countP isExecute ≤ 1
        ∧ ∀ cause, (run "TIME" options s).1 = .error (.error cause) → cause.isEarly = true →
          new.countP isExecute = 0)
      ∧ (run "TIME" options s).2.linkage.calls = ["IKJTSOEV", "IRXEXEC"] := by
  intro s options
  have hs : Reachable Touched s.host {} s := Relation.ReflTransGen.refl
  exact ⟨hs, (executes_at_most_once readsPlainly hs "TIME" options).1, by decide +kernel⟩

end Sim
end TsoBridge
