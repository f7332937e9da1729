/-
Who may run what on the simulated host. The storage of a call, its
parameter list and its text come from the caller, and nothing is assumed
of them: the host alone keeps the two separations.

A verb that has to run authorized runs in a call of the authorized command
processor whose flags say so and whose text starts with the marker, and
nowhere else. The two execute services run a command only for a token that
a prepare call of the same host handed out before.

A session that was not asked for authorization never branches to the
authorized command processor, in any capture mode, so none of its commands
has to run authorized.
-/
import Mathlib.Data.List.Induction
import TsoBridge.Proofs.Sim.Host

namespace TsoBridge.Sim

open Service (ExecuteParms)

-- ======================================================= sequences of calls

/-- A call as a caller makes it, with whatever storage it likes. -/
structure HostCall where
  storage : Storage
  entry : EntryPoint
  r1 : Address

/-- The host after a call. -/
def HostCall.after (call : HostCall) (host : SimHost) : SimHost :=
  (SimHost.call { host, storage := call.storage } call.entry call.r1).2.host

/-- The host after a sequence of calls, the first one first. -/
def afterAll (host : SimHost) (calls : List HostCall) : SimHost :=
  calls.foldl (fun host call => call.after host) host

theorem afterAll_snoc (host : SimHost) (calls : List HostCall) (call : HostCall) :
    afterAll host (calls ++ [call]) = call.after (afterAll host calls) := by
  unfold afterAll
  rw [List.foldl_append]
  rfl

/-- One of the calls was a prepare call, and it handed out the token. -/
def Issued (host : SimHost) (calls : List HostCall) (token : Bytes) : Prop :=
  ∃ before call rest, calls = before ++ call :: rest
    ∧ call.entry.module ∈ Invocation.prepareModules
    ∧ (afterAll host (before ++ [call])).tokens = token :: (afterAll host before).tokens

theorem Issued.snoc {host : SimHost} {calls : List HostCall} {token : Bytes}
    (h : Issued host calls token) (call : HostCall) : Issued host (calls ++ [call]) token := by
  obtain ⟨before, prepare, rest, rfl, hmodule, htokens⟩ := h
  exact ⟨before, prepare, rest ++ [call], by simp, hmodule, htokens⟩

/-- A host that started without tokens knows only those it handed out. -/
theorem issued_of_mem {host : SimHost} (hfresh : host.tokens = []) {calls : List HostCall}
    {token : Bytes} (h : token ∈ (afterAll host calls).tokens) : Issued host calls token := by
  induction calls using List.reverseRecOn with
  | nil =>
      have hnone : token ∈ host.tokens := h
      rw [hfresh] at hnone
      cases hnone
  | append_singleton calls call ih =>
      have hcall := call_tokens { host := afterAll host calls, storage := call.storage }
        call.entry call.r1
      rw [afterAll_snoc] at h
      rcases hcall with hsame | ⟨hmodule, fresh, hfresh⟩
      · have hmem : token ∈ (afterAll host calls).tokens := by
          rw [← hsame]
          exact h
        exact (ih hmem).snoc call
      · have hmem : token ∈ fresh :: (afterAll host calls).tokens := by
          rw [← hfresh]
          exact h
        rcases List.mem_cons.mp hmem with rfl | hold
        · refine ⟨calls, call, [], rfl, hmodule, ?_⟩
          rw [afterAll_snoc]
          exact hfresh
        · exact (ih hold).snoc call

-- ========================================================= what may be run

/-- How a command may come to run in a call that follows others: behind
the parameter list of an execute service there stand flags, a text and a
token that an earlier call handed out; a verb that has to run authorized
needs the authorized command processor, its flag and the marker. -/
structure Rightful (host : SimHost) (earlier : List HostCall) (call : HostCall)
    (command : Command) : Prop where
  module : isExecute call.entry.module = true
  authorized : command.name ∈ (afterAll host earlier).authcmd →
    call.entry.module = "TSOEFTR"
      ∧ ∃ p flags rest token, Handed call.storage call.r1 p flags (Route.marker ++ rest) token
        ∧ flags.authorized = true ∧ command = Command.parse rest
  token : call.entry.module = "IKJEFTSR" ∨ call.entry.module = "TSOEFTR" →
    ∃ p flags text token, Handed call.storage call.r1 p flags text token
      ∧ Issued host earlier token

theorem rightful_of_runs {host : SimHost} (hfresh : host.tokens = []) {earlier : List HostCall}
    {call : HostCall} {module : String} {command : Command} (hmodule : call.entry.module = module)
    (h : Runs { host := afterAll host earlier, storage := call.storage } call.r1 module command) :
    Rightful host earlier call command := by
  cases h with
  | @standard p flags text token hhanded htoken hflags hverb =>
      refine ⟨by rw [hmodule]; rfl, fun hauthcmd => absurd hauthcmd hverb, fun _ => ?_⟩
      exact ⟨p, flags, text, token, hhanded, issued_of_mem hfresh htoken⟩
  | @authorized p flags text rest token hhanded htoken hflags hmarker =>
      refine ⟨by rw [hmodule]; rfl, fun _ => ⟨hmodule, ?_⟩, fun _ => ?_⟩
      · rw [hmarker] at hhanded
        exact ⟨p, flags, rest, token, hhanded, hflags, rfl⟩
      · exact ⟨p, flags, text, token, hhanded, issued_of_mem hfresh htoken⟩
  | exec hhanded hverb =>
      refine ⟨by rw [hmodule]; rfl, fun hauthcmd => absurd hauthcmd hverb, fun hother => ?_⟩
      rw [hmodule] at hother
      exact absurd hother (by decide)

/-- Moves that never branch to the authorized command processor run no
command that has to run authorized. -/
theorem reach_unauthorized {link after : Linkage SimHost}
    (h : Linkage.Reach (· ≠ "TSOEFTR") link after) :
    ∃ new, after.host.executed = link.host.executed ++ new
      ∧ ∀ command ∈ new, command.name ∉ link.host.authcmd := by
  refine reach_executed h fun m r1 module command hauthcmd hbranch hruns => ?_
  rw [← hauthcmd]
  cases hruns with
  | standard _ _ _ hverb => exact hverb
  | authorized => exact absurd rfl hbranch
  | exec _ hverb => exact hverb

open Session

/-- In every sequence of calls each call keeps the list of verbs that have
to run authorized and runs no command, or one, and that rightfully. A
session that was not asked for authorization runs none of those verbs. -/
theorem authorization_separated {host : SimHost} (hfresh : host.tokens = []) :
    (∀ earlier call, (afterAll host (earlier ++ [call])).authcmd = (afterAll host earlier).authcmd
      ∧ ((afterAll host (earlier ++ [call])).executed = (afterAll host earlier).executed
        ∨ ∃ command, (afterAll host (earlier ++ [call])).executed
            = (afterAll host earlier).executed ++ [command]
          ∧ Rightful host earlier call command))
    ∧ ∀ settings s text options, Reachable Touched host settings s →
      options.authorized = false →
      ∃ new, (run text options s).2.host.executed = s.host.executed ++ new
        ∧ ∀ command ∈ new, command.name ∉ s.host.authcmd := by
  constructor
  · intro earlier call
    have hcall := call_ranAtMostOne { host := afterAll host earlier, storage := call.storage }
      call.entry call.r1
    have hsetup := call_setup { host := afterAll host earlier, storage := call.storage } call.entry
      call.r1
    rw [afterAll_snoc]
    constructor
    · unfold HostCall.after
      rw [← hsetup.1]
      rfl
    · refine hcall.imp_right fun ⟨command, hruns, hnoted⟩ => ⟨command, hnoted, ?_⟩
      exact rightful_of_runs hfresh rfl hruns
  · intro settings s text options hs hoptions
    have hsupport : Supported (· ≠ "TSOEFTR") := by
      intro module hmodule heq
      subst heq
      exact absurd hmodule (by decide)
    have hroute : (routeOf options).module ≠ "TSOEFTR" := by
      unfold routeOf
      rw [hoptions]
      decide
    have hreach := (uses_run hsupport (by decide) text hroute s hs.named).1
    unfold Session.host
    exact reach_unauthorized hreach

/-- A verb that has to run authorized: it is run for a caller who asks for
authorization, and not for one who does not. -/
theorem authorization_separated_parmlib :
    let s := start (SimHost.build {} noon) {}
    s.host.tokens = [] ∧ Reachable Touched s.host {} s
      ∧ (∃ new, (run "PARMLIB" {} s).2.host.executed = s.host.executed ++ new
        ∧ ∀ command ∈ new, command.name ∉ s.host.authcmd)
      ∧ (run "PARMLIB" { authorized := true } s).2.host.executed = [Command.parse "PARMLIB"]
      ∧ "PARMLIB" ∈ s.host.authcmd := by
  intro s
  have hs : Reachable Touched s.host {} s := Relation.ReflTransGen.refl
  refine ⟨rfl, hs, (authorization_separated rfl).2 {} s "PARMLIB" {} hs rfl, ?_, ?_⟩
  · decide +kernel
  · decide +kernel

end TsoBridge.Sim
