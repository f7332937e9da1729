/-
The policy reaches the host. A session judges the verb of the caller's
text; the host parses what arrived of that text, after the code page, the
marker of the authorized route or the argument table of an exec. Nothing
the host ever runs for a session has a verb that its policy does not
permit.

# The argument

Only a branch to one of three modules can run a command, and the engine
branches to them with one text, the trimmed text of the request. That the
commands run so far are all allowed (`Obeys`) is a contract the engine
keeps if it is handed that text (`served_obeying`), so it is shown for the
two branches and read off for the request. What arrives of a trimmed text
has as its verb what arrives of the verb, and for policies made of names
that makes no difference.

A refusal by the policy comes before everything else and is the only
source of its cause, so the session it leaves is the one it found.
-/
import TsoBridge.Proofs.Refusal
import TsoBridge.Proofs.Sim.Host
import TsoBridge.Proofs.Sim.Received
import TsoBridge.Proofs.Verb

namespace TsoBridge

open CodePage (carried)

variable {α : Type}

namespace Sim

open Linkage (Served Terms)

-- ============================================================== obeying

/-- The commands run on the way from one linkage to another are
allowed. -/
def Obeys (allowed : Command → Prop) (link after : Linkage SimHost) : Prop :=
  ∃ new, after.host.executed = link.host.executed ++ new ∧ ∀ command ∈ new, allowed command

/-- Nothing was run. -/
theorem obeys_of_same {allowed : Command → Prop} {link after : Linkage SimHost}
    (h : after.host.executed = link.host.executed) : Obeys allowed link after :=
  ⟨[], h.trans (List.append_nil _).symm, fun _ h => absurd h List.not_mem_nil⟩

instance (allowed : Command → Prop) : IsPreorder (Linkage SimHost) (Obeys allowed) where
  refl _ := obeys_of_same rfl
  trans s t u h h' := by
    obtain ⟨first, hfirst, hall⟩ := h
    obtain ⟨second, hsecond, hall'⟩ := h'
    refine ⟨first ++ second, ?_, fun command hcommand => ?_⟩
    · rw [hsecond, hfirst, List.append_assoc]
    · rcases List.mem_append.mp hcommand with hold | hnew
      · exact hall command hold
      · exact hall' command hnew

/-- A linkage in order: with a named cache and well formed storage. -/
def InOrder (link : Linkage SimHost) : Prop :=
  link.Named ∧ link.storage.WellFormed

/-- From a linkage in order, only allowed commands are run. -/
abbrev obeying (allowed : Command → Prop) : Op.Contract (Linkage SimHost) :=
  .keeping InOrder (Obeys allowed)

variable {allowed : Command → Prop}

/-- Quiet moves run nothing. -/
theorem obeys_of_reach {before after : Linkage SimHost}
    (h : Linkage.Reach Quiet before after) : Obeys allowed before after := by
  refine obeys_of_same ?_
  rw [← reach_quiet h]
  rfl

/-- Quiet work keeps the contract, and says of its value what it says. -/
theorem obeying_of_uses {value : α → Prop} {x : Op (Linkage SimHost) α}
    (h : x.Uses id Quiet value) : x.Fulfils (obeying allowed) id value :=
  fun link hlink => (h link hlink.1).mono fun _ _ hafter =>
    Op.Contract.kept_keeping ⟨hafter.1.named hlink.1, reach_wellFormed hafter.1 hlink.2⟩
      (obeys_of_reach hafter.1) hafter.2

/-- Work that branched once keeps the contract, if the branch runs allowed
commands only. -/
theorem obeying_of_branch {x : Op (Linkage SimHost) α} (entry : EntryPoint)
    (hmoves : x.Within (Linkage.Reach fun _ => True))
    (h : ∀ before : Linkage SimHost, before.storage.WellFormed →
      x.Ends before fun _ after => after.host = before.host
        ∨ ∃ storage r1, after.host = (Linkage.branch entry r1 { before with storage }).2.host
          ∧ ∀ command, Runs { host := before.host, storage } r1 entry.module command →
            allowed command) :
    x.Fulfils (obeying allowed) id fun _ => True := by
  rintro before ⟨hnamed, hwf⟩
  refine ((h before hwf).and (hmoves before)).mono fun r after hafter => ?_
  obtain ⟨hbranch, hreach⟩ := hafter
  refine Op.Contract.kept_keeping ⟨hreach.named hnamed, reach_wellFormed hreach hwf⟩ ?_
    fun _ _ => trivial
  rcases hbranch with hsame | ⟨storage, r1, hhost, hallowed⟩
  · exact obeys_of_same (congrArg SimHost.executed hsame)
  · have hmachine := (Linkage.branch_modules entry r1 { before with storage }).2.2
    have hran := call_ranAtMostOne { host := before.host, storage } entry r1
    change (Linkage.branch entry r1 { before with storage }).2.toMachine = _ at hmachine
    show Obeys allowed before after
    unfold Obeys
    rw [hhost, hmachine]
    rcases hran with hnone | ⟨command, hruns, hnoted⟩
    · exact ⟨[], hnone.trans (List.append_nil _).symm, fun _ h => absurd h List.not_mem_nil⟩
    · refine ⟨[command], hnoted, fun other hother => ?_⟩
      rw [List.mem_singleton.mp hother]
      exact hallowed command hruns

-- =========================================================== one request

/-- A call block that carries an allowed text of the route. -/
theorem obeying_sendBlock {route : Route} {text : String}
    (hallowed : allowed (Command.parse (carried text))) {entry : EntryPoint}
    (hentry : entry.module = route.module) (capability : Capability) {block : CallBlock}
    (hblock : block.command = CodePage.encode (route.textOf text)) :
    (Invocation.sendBlock entry capability block).Fulfils (obeying allowed) id
      fun _ => True := by
  have hposted : Linkage.Posted entry
      (Invocation.sendBlock entry capability block : Op (Linkage SimHost) _)
      (Invocation.sendBlock entry capability block : Op (Linkage SimHost) _) :=
    Invocation.posted_sendBlock entry capability block
  refine obeying_of_branch entry (hposted.reach trivial) fun before hwf => ?_
  rcases Invocation.sendBlock_branch entry capability block hwf
    with hunsent | ⟨storage, base, r1, hsent, hhost, -⟩
  · exact .inl hunsent.1
  · refine .inr ⟨storage, r1, hhost, fun command hruns => ?_⟩
    rw [hentry] at hruns
    rw [Runs.of_sent hsent hblock hruns]
    exact hallowed

/-- A request that hands the interpreter an allowed text. -/
theorem obeying_callExec {text outDd : String}
    (hallowed : allowed (Command.parse (carried text))) {entry : EntryPoint}
    (hentry : entry.module = "IRXEXEC") (capability : Capability) {request : ExecRequest}
    (hrequest : request.arguments = ["CMD", text, outDd]) :
    (ExecCapture.callExec entry capability request).Fulfils (obeying allowed) id
      fun _ => True := by
  have hposted : Linkage.Posted entry
      (ExecCapture.callExec entry capability request : Op (Linkage SimHost) _)
      (ExecCapture.callExec entry capability request : Op (Linkage SimHost) _) :=
    ExecCapture.posted_callExec entry capability request
  refine obeying_of_branch entry (hposted.reach trivial) fun before hwf => ?_
  rcases ExecCapture.callExec_branch entry capability request hwf
    with hsame | ⟨storage, base, r1, hsent, hhost⟩
  · exact .inl hsame
  · refine .inr ⟨storage, r1, hhost, fun command hruns => ?_⟩
    rw [hentry] at hruns
    rw [Runs.of_sentExec hsent hrequest hruns]
    exact hallowed

/-- What the services are called with for a text: modules under their
names, and nothing but that text. -/
def sending (text : String) : Terms where
  known module entry := entry.module = module
  called _ := True
  token _ := True
  block route block := block.command = CodePage.encode (route.textOf text)
  request request := ∃ outDd, request.arguments = ["CMD", text, outDd]

/-- The engine obeys, if the text it sends is allowed. -/
theorem served_obeying {text : String} (hallowed : allowed (Command.parse (carried text))) :
    Served (obeying allowed) (id : SimHost → SimHost) (sending text) := by
  have hposted : ∀ (entry : EntryPoint) {α : Type} {x y : Op (Linkage SimHost) α},
      Quiet entry.module → Linkage.Posted entry x y →
      x.Fulfils (obeying allowed) id fun _ => True := fun entry _ _ _ hquiet hposted =>
    obeying_of_uses (hposted.reach hquiet).uses
  have hquiet := Session.Supported.quiet
  exact
    { maps := Host.maps_id _
      fetch := fun module hmem =>
        obeying_of_uses (Linkage.uses_fetch_named (Linkage.upper_sought hmem))
      question := fun entry hentry _ =>
        hposted entry (hentry ▸ hquiet.environment) (Environment.posted_question entry)
      allocate := fun entry capability ddname wanted hentry _ =>
        hposted entry (hentry ▸ hquiet.allocate)
          (Bindings.posted_allocate entry capability ddname wanted)
      free := fun entry capability ddname hentry _ =>
        hposted entry (hentry ▸ hquiet.free) (Bindings.posted_free entry capability ddname)
      prepare := fun entry hknown _ => by
        obtain ⟨module, hmem, hentry⟩ := hknown
        have hmodule : entry.module = module := hentry
        exact hposted entry (hmodule ▸ hquiet.prepare module hmem)
          (Invocation.posted_sendPrepare entry)
      execute := fun entry route capability block hentry _ hblock =>
        obeying_sendBlock hallowed hentry capability hblock
      interpret := fun entry capability request hentry _ hrequest => by
        obtain ⟨outDd, harguments⟩ := hrequest
        exact obeying_callExec hallowed hentry capability harguments
      openRecords := fun ddname =>
        obeying_of_uses fun link _ => ⟨(Linkage.Move.openRecords link ddname).reach, fun _ _ => trivial⟩
      openStream := fun ddname =>
        obeying_of_uses fun link _ => ⟨(Linkage.Move.openStream link ddname).reach, fun _ _ => trivial⟩ }

-- ============================================================ one session

open Session

/-- So does a command with such a text. -/
theorem commanded_obeying {text : String}
    (hallowed : allowed (Command.parse (carried (Text.trim text)))) (route : Route) :
    Commanded (obeying allowed) linkage (id : SimHost → SimHost) (fun _ => True) route text := by
  refine commanded_served (served_obeying hallowed) (fun _ _ _ _ => trivial) .any .any .any
    (fun _ _ => trivial) (fun _ _ => trivial) (fun output token bare _ hbare => ?_)
    fun capture => ⟨_, rfl⟩
  have hcommand : bare.command = CodePage.encode (route.textOf (Text.trim text)) :=
    CallBlock.make_command hbare
  exact hcommand

/-- The policy lets a command run. -/
def Allows (policy : CommandPolicy) (command : Command) : Prop :=
  policy.permits command.name = true

/-- What arrives of a trimmed text is allowed if its verb is permitted. -/
theorem allows_arrived {policy : CommandPolicy} (h : policy.Plain) {text : String}
    (hpermits : policy.permits (Command.verb (Text.trim text)) = true) :
    Allows policy (Command.parse (carried (Text.trim text))) := by
  have htight : Text.Tight (Text.trim text).toList := by
    rw [Text.toList_trim]
    exact Text.tight_trimmed _
  unfold Allows
  rw [Command.name_parse, Command.verb_carried htight, CommandPolicy.permits_carried h]
  exact hpermits

/-- One request obeys the policy of its session. -/
theorem obeys_run {s : Session SimHost} (hs : InOrder s.linkage) (h : s.settings.policy.Plain)
    (text : String) (options : CommandOptions) :
    Obeys (Allows s.settings.policy) s.linkage (run text options s).2.linkage := by
  show (run text options).Ends s fun _ t => Obeys (Allows s.settings.policy) s.linkage t.linkage
  refine Op.ends_gets_bind ?_
  simp only
  split
  · exact obeys_of_same rfl
  split
  · exact obeys_of_same rfl
  · next hpermitted =>
    rw [Bool.not_eq_true, Bool.not_eq_false'] at hpermitted
    have hallowed : Allows s.settings.policy
        (Command.parse (carried (Text.trim (Text.trim text)))) := by
      refine allows_arrived h ?_
      rw [Text.trim_trim]
      exact hpermitted
    have hestablish : Session.Meets (obeying (Allows s.settings.policy)) linkage
        (id : SimHost → SimHost) (fun _ => True) (fun _ => True) establish establish :=
      meets_establish (served_obeying hallowed) (fun _ _ _ _ => trivial) .any
    have hrest := hestablish.andThen fun capability =>
      (meets_runBy (commanded_obeying hallowed (routeOf options)) capability options).andThen
        fun outcome => Op.meets_return (outcome.limitLines s.settings.lineLimit)
    exact (hrest.fulfils s hs).stays

/-- So does one step of a session, whatever it is. -/
theorem step_obeys {s t : Session SimHost} (hs : InOrder s.linkage) (h : s.settings.policy.Plain)
    (hstep : Step Touched s t) : Obeys (Allows s.settings.policy) s.linkage t.linkage := by
  rcases hstep.cases hs.1 with ⟨text, options, rfl⟩ | hmoves | ⟨after, htouched, hlinkage⟩
  · exact obeys_run hs h text options
  · exact obeys_of_reach (hmoves.widen Supported.quiet)
  · refine obeys_of_same ?_
    rw [hlinkage, ← htouched.scope]
    rfl

/-- The commands a reachable session has run are permitted. -/
theorem reachable_permitted {host : SimHost} {settings : Settings} {s : Session SimHost}
    (hplain : settings.policy.Plain) (h : Reachable Touched host settings s) :
    Obeys (Allows settings.policy) (start host settings).linkage s.linkage := by
  induction h with
  | refl => exact refl_of (Obeys _) _
  | @tail middle last hreach hstep ih =>
      have hsettings : middle.settings = settings := Reachable.settings hreach
      have hobeys := step_obeys ⟨Reachable.named hreach, reachable_wellFormed hreach⟩
        (hsettings.symm ▸ hplain) hstep
      rw [hsettings] at hobeys
      exact trans_of (Obeys _) ih hobeys

/-- A verb that is not permitted is denied. -/
theorem run_not_permitted {s : Session SimHost} {text : String} {options : CommandOptions}
    (htext : Text.trim text ≠ "")
    (hdenied : s.settings.policy.permits (Command.verb (Text.trim text)) = false) :
    run text options s
      = (.error (.error (.policyDenied (Command.verb (Text.trim text)))), s) := by
  have hgets : Op.gets (fun s : Session SimHost => s.settings) s = (.ok s.settings, s) := rfl
  unfold run
  rw [Op.run_bind_of_ok hgets]
  simp only [if_neg htext, hdenied, Bool.not_false, if_true]
  rfl

/-- For settings that were read from text, every host and every sequence
of operations: the commands the host ran for the session have permitted
verbs. A text whose verb is not permitted is denied, and a denied request
changes nothing, neither of the session nor of the host in it. -/
theorem policy_reaches_host {source : String} {settings : Settings}
    (hsettings : Settings.parse source = .ok settings) {host : SimHost} {s : Session SimHost}
    (hs : Reachable Touched host settings s) :
    (∃ new, s.host.executed = host.executed ++ new
      ∧ ∀ command ∈ new, settings.policy.permits command.name = true)
    ∧ ∀ text options,
      (Text.trim text ≠ "" → settings.policy.permits (Command.verb (Text.trim text)) = false →
        (run text options s).1
          = .error (.error (.policyDenied (Command.verb (Text.trim text)))))
      ∧ ∀ verb t, run text options s = (.error (.error (.policyDenied verb)), t) → t = s := by
  refine ⟨reachable_permitted (Settings.parse_plain hsettings) hs, fun text options => ⟨?_, ?_⟩⟩
  · intro htext hdenied
    rw [← hs.settings] at hdenied
    rw [run_not_permitted htext hdenied]
  · intro verb t h
    exact run_denied readsPlainly text h

/-- A text with a character the host's code does not have: what runs is
another text with the same verb. -/
theorem policy_reaches_host_time :
    let source := "allow.tso.cmd = whitelist\ntso.cmd.whitelist = TIME"
    let settings : Settings := { policy := { mode := some .whitelist, whitelist := ["TIME"] } }
    let s := (run " time \u2603" {} (start (SimHost.build {} noon) settings)).2
    Settings.parse source = .ok settings ∧ Reachable Touched (SimHost.build {} noon) settings s
      ∧ (∃ new, s.host.executed = (SimHost.build {} noon).executed ++ new
        ∧ ∀ command ∈ new, settings.policy.permits command.name = true)
      ∧ s.host.executed = [Command.parse "TIME \u001a"]
      ∧ ∀ verb t, run "LISTDS" {} s = (.error (.error (.policyDenied verb)), t) → t = s := by
  intro source settings s
  have hsettings : Settings.parse source = .ok settings := by decide +kernel
  have hs : Reachable Touched (SimHost.build {} noon) settings s :=
    Relation.ReflTransGen.single (.run _ _ _)
  have hpolicy := policy_reaches_host hsettings hs
  exact ⟨hsettings, hs, hpolicy.1, by decide +kernel, (hpolicy.2 "LISTDS" {}).2⟩

end Sim
end TsoBridge
