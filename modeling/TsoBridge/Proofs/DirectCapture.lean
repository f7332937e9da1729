/-
Direct capture from end to end. A command that was captured through a
private DD reports what the command processor returned for the text as it
arrived, in the host as it was when the DD had been allocated: its codes,
and its lines cut into records and read back.

# The way of a command

The run is followed from the back. An execute call that is reported on was
accepted, so it ran the command of its call block and sent the output to
the DD the block names (`callExecute_captured`). Between the allocation
and that call lie a look for modules and one prepare call, which change
nothing a command sees (`reach_unseen`). What the engine then reads are
the records of the DD (`captured_faithful`). The steps up to the
allocation, `Session.allocated`, are those of the run itself
(`Session.run_direct`).
-/
import TsoBridge.Proofs.Sim.Binding
import TsoBridge.Proofs.Sim.Output

namespace TsoBridge

-- ============================================================== the limit

namespace CommandOutcome

/-- At most the first lines stay, and the others are counted. -/
theorem limitLines_eq (outcome : CommandOutcome) (limit : Option Nat)
    (h : outcome.truncated = 0) :
    outcome.limitLines limit
      = { outcome with
          report := { outcome.report with
            lines := (limit.map outcome.report.lines.take).getD outcome.report.lines }
          truncated := (limit.map (outcome.report.lines.length - ·)).getD 0 } := by
  cases limit with
  | none =>
      cases outcome
      cases h
      rfl
  | some most =>
      unfold limitLines
      by_cases hmore : most < outcome.report.lines.length
      · simp only [if_pos hmore, Option.map_some, Option.getD_some]
      · have hall : outcome.report.lines.take most = outcome.report.lines :=
          List.take_of_length_le (by omega)
        have hnone : outcome.report.lines.length - most = 0 := by omega
        simp only [if_neg hmore, Option.map_some, Option.getD_some, hall, hnone]
        rw [← h]

theorem limitLines_path (outcome : CommandOutcome) (limit : Option Nat) :
    (outcome.limitLines limit).path = outcome.path := by
  cases limit with
  | none => rfl
  | some most =>
      unfold limitLines
      by_cases hmore : most < outcome.report.lines.length
      · simp only [if_pos hmore]
      · simp only [if_neg hmore]

end CommandOutcome

-- ========================================================== the run's steps

namespace Session

variable {H : Type} [Host H]

/-- The steps of a captured command up to its private DD: the environment
is usable, the modules are there, and the DD is allocated. -/
def allocated (options : CommandOptions) : Op (Session H) DdName := do
  let capability ← establish
  let _ ← onLinkage (Invocation.resolve (routeOf options))
  let (name, _) ← onBindings (Bindings.allocate capability (AllocationRequest.temporary none))
  return name

variable {capability : Capability} {route : Route} {text : String} {options : CommandOptions}
  {s t : Session H} {outcome : CommandOutcome}

theorem runExec_path (h : runExec capability route text s = (.ok outcome, t)) :
    outcome.path = .legacy := by
  unfold runExec at h
  split at h
  · exact (Op.fail_ok h).elim
  · obtain ⟨report, u, -, hreturn⟩ := Op.bind_ok h
    rw [← (Op.pure_ok hreturn).1]

theorem runAuto_direct (h : runAuto capability route text s = (.ok outcome, t))
    (hpath : outcome.path = .direct) :
    runDirect capability route text s = (.ok outcome, t) := by
  obtain ⟨tried, u, hattempt, h1⟩ := Op.bind_ok h
  cases tried with
  | ok direct =>
      obtain ⟨rfl, rfl⟩ := Op.pure_ok h1
      exact Op.attempt_ok hattempt
  | error cause =>
      cases cause with
      | serviceUnavailable module =>
          by_cases hroute : route = .standard
          · have hexec : runExec capability route text u = (.ok outcome, t) := by
              simpa only [if_pos hroute] using h1
            rw [runExec_path hexec] at hpath
            cases hpath
          · have hfail : (Op.fail (.serviceUnavailable module) :
                Op (Session H) CommandOutcome) u = (.ok outcome, t) := by
              simpa only [if_neg hroute] using h1
            exact (Op.fail_ok hfail).elim
      | _ => exact (Op.fail_ok h1).elim

/-- A command that took the direct path was run by it. -/
theorem runBy_direct (h : runBy capability route text options s = (.ok outcome, t))
    (hpath : outcome.path = .direct) :
    runDirect capability route text s = (.ok outcome, t) := by
  obtain ⟨settings, u, hsettings, h1⟩ := Op.bind_ok h
  obtain ⟨rfl, rfl⟩ := Op.gets_ok hsettings
  cases hcapture : options.capture.getD u.settings.captureDefault with
  | false =>
      rw [hcapture] at h1
      obtain ⟨report, v, -, hreturn⟩ := Op.bind_ok h1
      rw [← (Op.pure_ok hreturn).1] at hpath
      cases hpath
  | true =>
      rw [hcapture] at h1
      cases hmode : options.mode.getD u.settings.captureMode with
      | direct =>
          rw [hmode] at h1
          exact h1
      | legacy =>
          rw [hmode] at h1
          rw [runExec_path h1] at hpath
          cases hpath
      | auto =>
          rw [hmode] at h1
          exact runAuto_direct h1 hpath

/-- Work with a private DD that was done: the DD was allocated and the
work returned, whatever became of the free. -/
theorem withBinding_ok {α : Type} {work : DdName → Op (Linkage H) α} {value : α}
    {p q : Linkage H × Bindings} {released : Bindings.Released α}
    (h : Bindings.withBinding capability none work p = (.ok released, q))
    (hvalue : released.result = .ok value) :
    ∃ name result p' link,
      Bindings.allocate capability (AllocationRequest.temporary none) p = (.ok (name, result), p')
      ∧ work name p'.1 = (.ok value, link) := by
  obtain ⟨⟨name, result⟩, p', hallocate, h1⟩ := Op.bind_ok h
  obtain ⟨done, p'', hattempt, h2⟩ := Op.bind_ok h1
  obtain ⟨cleanup, q', -, h3⟩ := Op.bind_ok h2
  obtain ⟨rfl, -⟩ := Op.pure_ok h3
  simp only at hvalue
  rw [hvalue] at hattempt
  exact ⟨name, result, p', p''.1, hallocate, (Op.onFirst_ok (Op.attempt_ok hattempt)).1⟩

/-- A command that returned: it was neither empty nor denied, so the
environment was found usable, a path was taken, and the lines were
limited. -/
theorem run_ok (h : run text options s = (.ok outcome, t)) :
    ∃ capability u whole w, establish s = (.ok capability, u)
      ∧ runBy capability (routeOf options) (Text.trim text) options u = (.ok whole, w)
      ∧ outcome = whole.limitLines s.settings.lineLimit := by
  obtain ⟨settings, u, hsettings, h1⟩ := Op.bind_ok h
  obtain ⟨rfl, rfl⟩ := Op.gets_ok hsettings
  by_cases hempty : Text.trim text = ""
  · rw [if_pos hempty] at h1
    exact (Op.fail_ok h1).elim
  rw [if_neg hempty] at h1
  by_cases hdenied : (!u.settings.policy.permits (Command.verb (Text.trim text))) = true
  · rw [if_pos hdenied] at h1
    exact (Op.fail_ok h1).elim
  rw [if_neg hdenied] at h1
  obtain ⟨capability, v, hestablish, h2⟩ := Op.bind_ok h1
  obtain ⟨whole, w, hby, h3⟩ := Op.bind_ok h2
  exact ⟨capability, v, whole, w, hestablish, hby, (Op.pure_ok h3).1.symm⟩

/-- A command that took the direct path: its steps up to the private DD,
what was done with the DD, and the limit on lines. -/
theorem run_direct (h : run text options s = (.ok outcome, t)) (hpath : outcome.path = .direct) :
    ∃ capability name bound report cleanup s' link,
      allocated options s = (.ok name, s')
      ∧ captured capability (routeOf options) (Text.trim text) name s'.linkage
        = (.ok (bound, report), link)
      ∧ outcome = CommandOutcome.limitLines
        { report, path := .direct, binding := some bound, cleanup } s.settings.lineLimit := by
  obtain ⟨capability, v, whole, w, hestablish, hby, rfl⟩ := run_ok h
  rw [CommandOutcome.limitLines_path] at hpath
  have hdirect : runDirect capability (routeOf options) (Text.trim text) v = (.ok whole, w) :=
    runBy_direct hby hpath
  -- the steps of the direct path
  obtain ⟨entries, x, hresolve, h4⟩ := Op.bind_ok hdirect
  obtain ⟨released, y, hbinding, h5⟩ := Op.bind_ok h4
  obtain ⟨_, z, -, h6⟩ := Op.bind_ok h5
  obtain ⟨⟨bound, report⟩, hresult, h7⟩ := Op.lift_except_bind_ok h6
  obtain ⟨rfl, -⟩ := Op.pure_ok h7
  obtain ⟨pair, hwith, -⟩ := Op.on_ok hbinding
  obtain ⟨name, result, p', link, hallocate, hwork⟩ := withBinding_ok hwith hresult
  refine ⟨capability, name, bound, report, released.cleanup,
    { x with linkage := p'.1, bindings := p'.2 }, link, ?_, hwork, rfl⟩
  have hsteps : onBindings (Bindings.allocate capability (AllocationRequest.temporary none)) x
      = (.ok (name, result), { x with linkage := p'.1, bindings := p'.2 }) := by
    unfold onBindings Op.on
    rw [hallocate]
  unfold allocated
  rw [Op.run_bind_of_ok hestablish, Op.run_bind_of_ok hresolve, Op.run_bind_of_ok hsteps]
  rfl

end Session

namespace Sim

open CodePage (carried)
open Storage (HasBlock)

variable {link after : Linkage SimHost}

-- ============================================================ the call

/-- What a command does not see makes no difference to it, nor to a
DD. -/
theorem view_unseen {host other : SimHost} (h : Scope.unseen.keep host other = other) :
    other.view = host.view := by
  rw [← h]
  rfl

theorem HoldsRecords.unseen {host other : SimHost} {ddname : String} {records : List Bytes}
    (hholds : HoldsRecords host ddname records)
    (h : Scope.unseen.keep host other = other) : HoldsRecords other ddname records := by
  rw [← h]
  exact hholds

/-- The records of what a command wrote. -/
def recordsFor (result : CommandResult) : List Bytes :=
  result.output.flatMap fun line =>
    Dataset.recordsOf Dataset.outputLrecl (CodePage.encode line)

/-- An execute service sends the output to the DD that the call block
names. -/
theorem Service.Accepted.output_of_sent {m : Machine SimHost} {viaProcessor : Bool}
    {block : CallBlock} {cppl base r1 : Address} {p : Service.ExecuteParms}
    {output command ddname : String} (h : Service.Accepted m viaProcessor r1 p output command)
    (hsent : CallBlock.Sent m.storage block cppl base r1) (houtput : block.output = some ddname)
    (hfield : CodePage.decodeField (CodePage.encodeField 8 ddname) = ddname) :
    output = ddname := by
  obtain ⟨flags, text, token, hhanded, -, -⟩ := h.handed
  obtain ⟨rfl, -, -⟩ := hhanded.of_sent hsent
  have hfirst := congrArg Prod.fst h.named
  change (m.storage.read (base.shift CallBlock.outputAt) 8 >>= fun bytes =>
    pure (CodePage.decodeField bytes)) = .ok output at hfirst
  rw [hsent.output, houtput] at hfirst
  rw [← Except.ok.inj hfirst]
  exact hfield

/-- A branch to an execute service that is reported on: the service
performed the command of the block for the DD of the block. -/
theorem branch_captured {entry : EntryPoint} {route : Route} {block : CallBlock}
    {cppl base r1 : Address} {text : String} {name : DdName} {r15 : Int32} {called : Linkage SimHost}
    {result : CommandResult} (hbranch : Linkage.branch entry r1 link = (.ok r15, called))
    (hentry : entry.module = route.module)
    (hsent : CallBlock.Sent link.storage block cppl base r1)
    (hcommand : block.command = CodePage.encode (route.textOf text))
    (houtput : block.output = some name.text) (hholds : HoldsRecords link.host name.text [])
    (hresult : Processor.execute link.host.view (Command.parse (carried text)) = result)
    (hr15 : r15 = ServiceRc.ok ∨ r15 = ServiceRc.commandRc) :
    r15 = (if result.rc = 0 then 0 else 4)
      ∧ HoldsRecords called.host name.text (recordsFor result)
      ∧ called.storage.WellFormed ∧ HasBlock called.storage base block.size
      ∧ CodesStand called.storage base result.rc 0 := by
  let m := counted link.toMachine route.module
  have hother : r15 ≠ 20 := by
    rcases hr15 with rfl | rfl
    · decide
    · decide
  have hservice : Service.execute (decide (route = .authorizedProcessor)) r1 m
      = (.ok r15, called.toMachine) := by
    have hran := branch_ok hbranch (by rw [hentry, service_route]; exact hother)
    rw [hentry, service_route] at hran
    exact hran
  rcases (Service.execute_decided _ r1 m).ok hservice with
    ⟨-, hok, hrc⟩ | ⟨p, output, command, haccepted, hperform⟩
  · rcases hr15 with rfl | rfl
    · exact absurd rfl hok
    · exact absurd rfl hrc
  -- what the service found is what the block says
  obtain ⟨flags, found, token, hhanded, -, -⟩ := haccepted.handed
  obtain ⟨rfl, -, -⟩ := hhanded.of_sent hsent
  have hparsed : Command.parse command = Command.parse (carried text) := by
    have hruns := haccepted.runs
    have hmodule : (if decide (route = .authorizedProcessor) then "TSOEFTR" else "IKJEFTSR")
        = route.module := by
      cases route
      · rfl
      · rfl
    rw [hmodule] at hruns
    exact Runs.of_sent (m := m) hsent hcommand hruns
  obtain rfl : output = name.text := haccepted.output_of_sent hsent houtput name.field
  have hblock : HasBlock m.storage base block.size := by
    obtain ⟨bytes, hbytes, hcontents⟩ := hsent.block
    exact ⟨bytes, hcontents, CallBlock.length_encode hbytes⟩
  have hsize : CallBlock.commandAt ≤ block.size := Nat.le_add_right _ _
  refine perform_ok (m := m) hsent.wellFormed hblock hsize name.nonempty hholds hperform ?_
  rw [hparsed]
  exact hresult

/-- A report is made of a call that returned one of two codes. -/
theorem reportOf_ok {r15 : Int32} {left : ExecuteResult} {report : CommandReport}
    (h : Invocation.reportOf r15 left = .ok report) :
    (r15 = ServiceRc.ok ∨ r15 = ServiceRc.commandRc)
      ∧ report = { serviceRc := r15, commandRc := left.commandRc, reasonCode := left.reason,
                   abendCode := left.abend } := by
  unfold Invocation.reportOf at h
  split at h
  · cases h
  · next hcode =>
    refine ⟨?_, (Except.ok.inj h).symm⟩
    by_cases hok : r15 = ServiceRc.ok
    · exact .inl hok
    · refine .inr ?_
      by_contra hrc
      exact hcode ⟨hok, hrc⟩

/-- An execute call that is reported on: the codes are those of the
command, and the DD holds its records. -/
theorem callExecute_captured {capability : Capability} {route : Route} {text : String}
    {name : DdName} {token : Bytes} {report : CommandReport} {result : CommandResult}
    (hnamed : link.Named) (hwf : link.storage.WellFormed)
    (hholds : HoldsRecords link.host name.text [])
    (hresult : Processor.execute link.host.view (Command.parse (carried text)) = result)
    (h : Invocation.callExecute capability
      { route, text := route.textOf text, output := some name, progress := .executing,
        token := some token } link = (.ok report, after)) :
    report = { serviceRc := if result.rc = 0 then 0 else 4, commandRc := result.rc,
               reasonCode := 0, abendCode := 0 }
      ∧ HoldsRecords after.host name.text (recordsFor result) := by
  obtain ⟨held, -, h1⟩ := Op.lift_except_bind_ok h
  -- the module of the route is looked for
  obtain ⟨entry, v, hfetch, h2⟩ := Op.bind_ok h1
  have huses : (Linkage.fetch route.module : Op (Linkage SimHost) EntryPoint).Uses id
      (· ∈ Invocation.prepareModules) fun entry => entry.module = route.module :=
    Linkage.uses_fetch_named (Linkage.upper_sought route.module_sought)
  obtain ⟨hreach, hentry⟩ := (huses link hnamed).ok hfetch
  have hunseen : Scope.unseen.keep link.host v.host = v.host := reach_unseen hreach
  -- the block is made and handed over
  obtain ⟨bare, hmake, h3⟩ := Op.lift_except_bind_ok h2
  obtain ⟨⟨r15, left⟩, w, hsend, h4⟩ := Op.bind_ok h3
  obtain ⟨hreport, rfl⟩ := Op.lift_except_ok h4
  rcases (Invocation.sendBlock_branch entry capability _ (reach_wellFormed hreach hwf)).ok hsend
    with hunsent | ⟨storage, base, r1, hsent, hhost, hanswer⟩
  · exact absurd rfl (hunsent.2 (r15, left))
  obtain ⟨hr15, bytes, hread, hdecoded⟩ := hanswer r15 left rfl
  obtain ⟨hcode, rfl⟩ := reportOf_ok hreport
  -- the service performed the command
  have hsame : Processor.execute v.host.view (Command.parse (carried text)) = result := by
    rw [view_unseen hunseen]
    exact hresult
  have hcommand : bare.command = CodePage.encode (route.textOf text) :=
    CallBlock.make_command hmake
  have hbranch : Linkage.branch entry r1 { v with storage }
      = (.ok r15, (Linkage.branch entry r1 { v with storage }).2) := Prod.ext hr15 rfl
  obtain ⟨hvalue, hrecords, hwf', hblock, hcodes⟩ :=
    branch_captured hbranch (hentry entry rfl) hsent hcommand rfl
      (hholds.unseen hunseen) hsame hcode
  have hleft := hcodes.decode hwf' hblock hread hdecoded
  refine ⟨?_, ?_⟩
  · rw [hleft, hvalue]
  · rw [hhost]
    exact hrecords

-- ======================================================= reading it back

/-- The lines of the records of a command are its lines, row by row. -/
theorem lines_recordsFor (result : CommandResult) :
    (recordsFor result).map Output.lineOf = Output.readBack 133 result.output := by
  have hrecords : ∀ bytes, (Dataset.recordsOf Dataset.outputLrecl bytes).map Output.lineOf
      = (Output.rows 133 bytes).map Output.shown := by
    intro bytes
    rw [Dataset.recordsOf_eq (by decide), List.map_map]
    refine List.map_congr_left fun row _ => ?_
    rw [Function.comp_apply, Output.lineOf_fill, Output.shown_eq]
  unfold recordsFor Output.readBack
  rw [List.map_flatMap]
  refine List.flatMap_congr fun line _ => ?_
  exact hrecords (CodePage.encode line)

/-- What a captured command reports. -/
def reportFor (result : CommandResult) : CommandReport :=
  { serviceRc := if result.rc = 0 then 0 else 4
    commandRc := result.rc
    reasonCode := 0
    abendCode := 0
    lines := Output.readBack 133 result.output }

/-- A command that ran for an empty private DD: its codes are reported, and
the lines are read from a DD that holds its records. -/
theorem captured_records {capability : Capability} {route : Route} {text : String}
    {name bound : DdName} {report : CommandReport} {result : CommandResult}
    (hnamed : link.Named) (hwf : link.storage.WellFormed)
    (hholds : HoldsRecords link.host name.text []) (htrim : Text.trim text = text)
    (hresult : Processor.execute link.host.view (Command.parse (carried text)) = result)
    (h : Session.captured capability route text name link = (.ok (bound, report), after)) :
    ∃ lines ran closed, Output.readLines name.text ran = (.ok lines, closed)
      ∧ ran.host.recordAccess = link.host.recordAccess
      ∧ HoldsRecords ran.host name.text (recordsFor result)
      ∧ bound = name ∧ report = { reportFor result with lines } := by
  obtain ⟨codes, u, hrun, h1⟩ := Op.bind_ok h
  obtain ⟨lines, v, hlines, h2⟩ := Op.bind_ok h1
  obtain ⟨hpair, -⟩ := Op.pure_ok h2
  cases hpair
  have hstill : u.host.recordAccess = link.host.recordAccess := by
    have huses : (Invocation.run capability route text (some name) :
        Op (Linkage SimHost) CommandReport).Uses id (fun _ => True) fun _ => True :=
      Invocation.uses_run (fun _ _ => trivial) trivial capability text (some name)
    have hmoves : Linkage.Reach (fun _ => True) link u := ((huses link hnamed).ok hrun).1
    rw [← reach_setup hmoves]
    rfl
  -- the token is obtained unseen, then the command runs
  rw [Invocation.run_eq] at hrun
  obtain ⟨invocation, hmake, h3⟩ := Op.lift_except_bind_ok hrun
  obtain ⟨rfl, -, -⟩ := Invocation.make_ok hmake
  obtain ⟨token, w, htoken, hexecute⟩ := Op.bind_ok h3
  have hprepare : (Invocation.obtainToken route : Op (Linkage SimHost) Bytes).Uses id
      (· ∈ Invocation.prepareModules) fun _ => True :=
    Invocation.uses_obtainToken (fun _ hmodule => hmodule) route
  have hreach : Linkage.Reach (· ∈ Invocation.prepareModules) link w :=
    ((hprepare link hnamed).ok htoken).1
  have hunseen := reach_unseen hreach
  rw [htrim] at hexecute
  have hsame : Processor.execute w.host.view (Command.parse (carried text)) = result := by
    rw [view_unseen hunseen]
    exact hresult
  obtain ⟨rfl, hrecords⟩ := callExecute_captured (hreach.named hnamed) (reach_wellFormed hreach hwf)
    (hholds.unseen hunseen) hsame hexecute
  exact ⟨lines, u, v, hlines, hstill, hrecords, rfl, rfl⟩

/-- Where the DD is read by record, the report is what the command
processor returned. -/
theorem captured_faithful {capability : Capability} {route : Route} {text : String}
    {name bound : DdName} {report : CommandReport} {result : CommandResult}
    (hnamed : link.Named) (hwf : link.storage.WellFormed)
    (haccess : link.host.recordAccess = true)
    (hholds : HoldsRecords link.host name.text []) (htrim : Text.trim text = text)
    (hresult : Processor.execute link.host.view (Command.parse (carried text)) = result)
    (h : Session.captured capability route text name link = (.ok (bound, report), after)) :
    bound = name ∧ report = reportFor result := by
  obtain ⟨lines, ran, closed, hlines, hstill, hrecords, hbound, hreport⟩ :=
    captured_records hnamed hwf hholds htrim hresult h
  refine ⟨hbound, ?_⟩
  rw [hreport, hrecords.readLines (hstill.trans haccess) hlines, lines_recordsFor]
  rfl

-- ========================================================== end to end

open Session

/-- The private DD of a command is new and empty. -/
theorem allocated_private {s s' : Session SimHost} {options : CommandOptions} {name : DdName}
    (hnamed : s.linkage.Named) (hwf : s.linkage.storage.WellFormed)
    (hreply : s.host.reply = .requested) (h : allocated options s = (.ok name, s')) :
    HoldsRecords s'.host name.text []
      ∧ Linkage.Reach (fun _ => True) s.linkage s'.linkage := by
  have hall : Supported fun _ => True := fun _ _ => trivial
  obtain ⟨capability, u, hestablish, h1⟩ := Op.bind_ok h
  have hfirst : Linkage.Reach (fun _ => True) s.linkage u.linkage :=
    ((uses_establish hall s hnamed).ok hestablish).1
  obtain ⟨entries, v, hresolve, h2⟩ := Op.bind_ok h1
  have hsecond : Linkage.Reach (fun _ => True) u.linkage v.linkage :=
    ((uses_onLinkage (Invocation.uses_resolve (routeOf options)) u
      (hfirst.named hnamed)).ok hresolve).1
  have hbefore : Linkage.Reach (fun _ => True) s.linkage v.linkage := hfirst.trans hsecond
  obtain ⟨⟨bound, result⟩, w, hallocate, h3⟩ := Op.bind_ok h2
  obtain ⟨rfl, rfl⟩ := Op.pure_ok h3
  have hlast : Linkage.Reach (fun _ => True) v.linkage w.linkage :=
    ((uses_onBindings (Bindings.uses_allocate trivial trivial capability _) v
      (hbefore.named hnamed)).ok hallocate).1
  obtain ⟨⟨link, bindings⟩, hallocated, rfl⟩ := Op.on_ok hallocate
  have hsetup : v.linkage.host.reply = .requested := by
    rw [← reach_setup hbefore]
    exact hreply
  have hholds :=
    allocate_private (hbefore.named hnamed) (reach_wellFormed hbefore hwf) hsetup hallocated
  exact ⟨hholds, hbefore.trans hlast⟩

/-- Direct capture is faithful. On a host that is read by record and
allocates under the name asked for, a command that returns captured
through a private DD reports what the command processor makes of the
trimmed text, as it arrives, in the host that holds the new DD, still
empty: the codes, and the lines row by row, up to the limit on lines, with
the number of those dropped. -/
theorem direct_capture_faithful {host : SimHost} {settings : Settings} {s t : Session SimHost}
    {text : String} {options : CommandOptions} {outcome : CommandOutcome}
    (hreach : Reachable Touched host settings s) (haccess : host.recordAccess = true)
    (hreply : host.reply = .requested) (hrun : run text options s = (.ok outcome, t))
    (hpath : outcome.path = .direct) :
    ∃ name s' result full,
      allocated options s = (.ok name, s') ∧ HoldsRecords s'.host name.text []
      ∧ result = Processor.execute s'.host.view (Command.parse (carried (Text.trim text)))
      ∧ full = Output.readBack 133 result.output
      ∧ outcome.binding = some name
      ∧ outcome.report.commandRc = result.rc
      ∧ outcome.report.serviceRc = (if result.rc = 0 then 0 else 4)
      ∧ outcome.report.reasonCode = 0 ∧ outcome.report.abendCode = 0
      ∧ outcome.report.lines = (settings.lineLimit.map full.take).getD full
      ∧ outcome.truncated = (settings.lineLimit.map (full.length - ·)).getD 0 := by
  have hnamed : s.linkage.Named := Reachable.named hreach
  have hwf : s.linkage.storage.WellFormed := reachable_wellFormed hreach
  have hsetup : Scope.calls.keep host s.host = s.host := reachable_setup hreach
  have hreplies : s.host.reply = .requested := by
    rw [← hsetup]
    exact hreply
  obtain ⟨capability, name, bound, report, cleanup, s', link, hallocated, hcaptured, hlimited⟩ :=
    run_direct hrun hpath
  obtain ⟨hholds, hmoves⟩ := allocated_private hnamed hwf hreplies hallocated
  have hreads : s'.linkage.host.recordAccess = true := by
    rw [← reach_setup hmoves]
    show s.host.recordAccess = true
    rw [← hsetup]
    exact haccess
  obtain ⟨result, hresult⟩ : ∃ result,
      Processor.execute s'.host.view (Command.parse (carried (Text.trim text))) = result := ⟨_, rfl⟩
  obtain ⟨rfl, rfl⟩ := captured_faithful (hmoves.named hnamed) (reach_wellFormed hmoves hwf)
    hreads hholds (Text.trim_trim text) hresult hcaptured
  rw [CommandOutcome.limitLines_eq _ _ rfl, Reachable.settings hreach] at hlimited
  refine ⟨bound, s', result, Output.readBack 133 result.output, hallocated, hholds, hresult.symm,
    rfl, ?_⟩
  rw [hlimited]
  exact ⟨rfl, rfl, rfl, rfl, rfl, rfl, rfl⟩

/-- An authorized command of two lines, of which one stays. -/
theorem direct_capture_faithful_parmlib :
    let settings : Settings := { lineLimit := some 1 }
    let s := start (SimHost.build {} noon) settings
    let options : CommandOptions := { authorized := true, mode := some .direct }
    let report : CommandReport :=
      { serviceRc := 0, commandRc := 0, reasonCode := 0, abendCode := 0
        lines := ["IKJ745I TSO/E PARMLIB SETTINGS :"] }
    let outcome : CommandOutcome :=
      { report, path := .direct, binding := some { text := "LUZ00001" }, truncated := 1 }
    Reachable Touched s.host settings s ∧ s.host.recordAccess = true
      ∧ s.host.reply = .requested ∧ (run " parmlib " options s).1 = .ok outcome
      ∧ outcome.path = .direct
      ∧ ∃ name s' result full,
        allocated options s = (.ok name, s') ∧ HoldsRecords s'.host name.text []
        ∧ result = Processor.execute s'.host.view (Command.parse (carried (Text.trim " parmlib ")))
        ∧ full = Output.readBack 133 result.output
        ∧ outcome.binding = some name
        ∧ outcome.report.commandRc = result.rc
        ∧ outcome.report.serviceRc = (if result.rc = 0 then 0 else 4)
        ∧ outcome.report.reasonCode = 0 ∧ outcome.report.abendCode = 0
        ∧ outcome.report.lines = (settings.lineLimit.map full.take).getD full
        ∧ outcome.truncated = (settings.lineLimit.map (full.length - ·)).getD 0 := by
  intro settings s options report outcome
  have hs : Reachable Touched s.host settings s := Relation.ReflTransGen.refl
  have hrun : (run " parmlib " options s).1 = .ok outcome := by decide +kernel
  obtain ⟨t, ht⟩ := Op.ends_of_fst hrun
  exact ⟨hs, rfl, rfl, hrun, rfl, direct_capture_faithful hs rfl rfl ht rfl⟩

end Sim
end TsoBridge
