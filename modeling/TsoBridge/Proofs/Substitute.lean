/-
Two ways to capture a command, and that either can stand in for the other.
Directly, the output goes through a private DD of records with one length
and the return code through a word of the call block; by the exec, the
output goes through a shared stream with a cursor, and the return code
through decimal digits. Where the command returns the same for both, the
two reports agree.

# Lines

Each way loses something of a line: records cut it at the record length, a
stream at the line ends among its own bytes, and both drop trailing filler.
A line that is neither too long nor has line ends in it (`Plain`) is cut by
neither, so only the filler goes, and both ways it is the same filler
(`readBack_plain`, `streamedBack_plain`). That holds as well where a host
gives the records out as a stream (`readLines_plain`).

# The two runs

Each run is taken apart into its steps, `Session.run_direct` and
`Session.run_exec`. The private DD is new and empty, so its records are
those of the command; the cursor stands at the end of the stream, so what
is fresh was written by the command.
-/
import TsoBridge.Proofs.EvalNumber
import TsoBridge.Proofs.SharedStream

namespace TsoBridge

-- ================================================================= lines

namespace Output

/-- A line that fits an output record and has no line end among its
bytes. -/
def Plain (line : String) : Prop :=
  (CodePage.encode line).length ≤ 133
    ∧ 0x15 ∉ CodePage.encode line ∧ 0x25 ∉ CodePage.encode line

instance (line : String) : Decidable (Plain line) :=
  inferInstanceAs (Decidable (_ ∧ _))

variable {line : String} {lines : List String}

theorem Plain.not_ended (h : Plain line) {byte : UInt8} (hbyte : byte ∈ CodePage.encode line) :
    endsLine byte = false := by
  have hnew : byte ≠ CodePage.newLine := by
    rintro rfl
    exact h.2.1 hbyte
  have hfeed : byte ≠ CodePage.lineFeed := by
    rintro rfl
    exact h.2.2 hbyte
  unfold endsLine
  simp [hnew, hfeed]

/-- What fits a row is one row. -/
theorem rows_of_short {width : Nat} {bytes : Bytes} (hwidth : 0 < width)
    (h : bytes.length ≤ width) : rows width bytes = [bytes] := by
  have hcount : (bytes.length + width - 1) / width < 2 :=
    Nat.div_lt_of_lt_mul (by omega)
  have hone : max 1 ((bytes.length + width - 1) / width) = 1 := by omega
  unfold rows
  rw [hone]
  simp [List.take_of_length_le h]

theorem Plain.rows (h : Plain line) :
    Output.rows 133 (CodePage.encode line) = [CodePage.encode line] :=
  rows_of_short (by decide) h.1

/-- Records give a plain line back but for its trailing filler. -/
theorem readBack_plain (h : ∀ line ∈ lines, Plain line) :
    readBack 133 lines = lines.map fun line => shown (CodePage.encode line) := by
  unfold readBack
  rw [List.flatMap_congr fun line hline => by rw [(h line hline).rows, List.map_singleton],
    List.map_eq_flatMap]

/-- And so does a stream. -/
theorem streamedBack_plain (h : ∀ line ∈ lines, Plain line) :
    streamedBack lines = lines.map fun line => shown (CodePage.encode line) := by
  unfold streamedBack
  rw [List.flatMap_congr fun line hline => by
    rw [Text.split_of_free fun byte hbyte => (h line hline).not_ended hbyte, List.map_singleton],
    List.map_eq_flatMap]

end Output

namespace Sim

open CodePage (carried)
open Output (Plain shown streamOf)

-- =============================================================== records

variable {link closed : Linkage SimHost} {ddname : String} {records : List Bytes}
  {lines : List String} {result : CommandResult}

/-- A DD that cannot be read by record is read as the stream of its
records. -/
theorem HoldsRecords.readStream (h : HoldsRecords link.host ddname records)
    (haccess : link.host.recordAccess = false) :
    Output.readLines ddname link
      = (.ok (Output.splitStream (streamedRecords records)), link) := by
  obtain ⟨entry, dataset, hlookup, hget, -, hbody⟩ := h
  rw [readLines_records link (datasetOf_eq hlookup hget) hbody, haccess]
  rfl

/-- A plain line fills one record. -/
theorem recordsFor_plain (h : ∀ line ∈ result.output, Plain line) :
    recordsFor result
      = result.output.map fun line => CodePage.fill 133 (CodePage.encode line) := by
  unfold recordsFor
  rw [List.flatMap_congr fun line hline => by
    rw [Dataset.recordsOf_eq (by decide), Dataset.outputLrecl, (h line hline).rows,
      List.map_singleton], List.map_eq_flatMap]

/-- The lines of a command that wrote plain lines, read by record or not. -/
theorem readLines_plain (hplain : ∀ line ∈ result.output, Plain line)
    (h : HoldsRecords link.host ddname (recordsFor result))
    (hread : Output.readLines ddname link = (.ok lines, closed)) :
    lines = result.output.map fun line => shown (CodePage.encode line) := by
  cases haccess : link.host.recordAccess with
  | true => rw [h.readLines haccess hread, lines_recordsFor, Output.readBack_plain hplain]
  | false =>
      rw [h.readStream haccess] at hread
      cases hread
      rw [streamedRecords, Output.splitStream_ended, recordsFor_plain hplain, List.flatMap_map,
        List.map_eq_flatMap]
      refine List.flatMap_congr fun line hline => ?_
      -- blanks end no line
      have hfree : ∀ byte ∈ CodePage.fill 133 (CodePage.encode line),
          Output.endsLine byte = false := by
        intro byte hbyte
        unfold CodePage.fill at hbyte
        rcases List.mem_append.mp hbyte with hown | hblank
        · exact (hplain line hline).not_ended hown
        · rw [List.eq_of_mem_replicate hblank]
          rfl
      rw [Text.split_of_free hfree, List.map_singleton, Output.shown_eq, Output.lineOf_fill,
        Output.shown_eq]

-- ========================================================== the exec's code

/-- Without an override the report has the return code of the command. -/
theorem collect_code {host after : SimHost} {command outDd : String} {held : Bytes}
    {r15 rexxRc : Int32} {eval : EvalResult} {s t : Linkage SimHost × ExecCapture}
    {report : CommandReport}
    (hcall : ExecStreamed host command outDd held (.ok (r15, eval, rexxRc)) after)
    (hnone : host.evalOverride = none)
    (h : ExecCapture.collect outDd r15 eval rexxRc s = (.ok report, t)) :
    report.commandRc = (execResult host command).rc := by
  unfold ExecCapture.collect at h
  rcases hcall with ⟨-, hcode⟩ | ⟨-, hanswer⟩
  · rw [if_pos fun hzero => hcode eval rexxRc (by rw [hzero])] at h
    exact (Op.fail_ok h).elim
  · cases hanswer
    rw [if_neg (by decide), hnone, ExecArea.evalNumber_resultOf] at h
    obtain ⟨lines, _, -, h1⟩ := Op.bind_ok h
    obtain ⟨rfl, -⟩ := Op.pure_ok h1
    rfl

/-- A command that is handed to the exec and returns. -/
theorem execCapture_code {capability : Capability} {text : String} {capture : ExecCapture}
    {held : Bytes} {report : CommandReport} {t : Linkage SimHost × ExecCapture}
    (hnamed : link.Named) (hwf : link.storage.WellFormed)
    (hcarried : carried capture.outDd = capture.outDd) (hname : capture.outDd ≠ "")
    (hholds : HoldsStream link.host capture.outDd held) (hnone : link.host.evalOverride = none)
    (h : ExecCapture.run capability text (link, capture) = (.ok report, t)) :
    report.commandRc = (execResult link.host (carried (Text.trim text))).rc := by
  unfold ExecCapture.run at h
  simp only at h
  split at h
  · exact (Op.fail_ok h).elim
  obtain ⟨entry, ⟨u, kept⟩, hfetch, h1⟩ := Op.bind_ok h
  obtain ⟨hfetched, hkept⟩ := Op.onFirst_ok hfetch
  obtain rfl : capture = kept := hkept.symm
  obtain ⟨-, hhost, hstorage, hentry, -⟩ :=
    (fetch_lookedUp hnamed (Linkage.upper_sought (by simp))).ok hfetched
  have hstream : HoldsStream u.host capture.outDd held := by rwa [hhost]
  -- the cursor is placed, and the command runs
  have h2 : (ExecCapture.catchUp capture >>= _) (u, capture) = (.ok report, t) := h1
  rw [Op.run_bind_of_ok (catchUp_run hstream)] at h2
  obtain ⟨⟨r15, eval, rexxRc⟩, w, hcall, h3⟩ := Op.bind_ok h2
  have harguments : (capture.requestOf (Text.trim text)).arguments
      = ["CMD", Text.trim text, capture.outDd] := rfl
  have hstreamed := (callExec_streamed capability (hentry entry rfl) (by rwa [hstorage]) harguments
    hcarried hname hstream).ok (Op.onFirst_ok hcall).1
  rw [hhost] at hstreamed
  exact collect_code hstreamed hnone h3

-- ============================================================== the runs

open Session

variable {s t u : Session SimHost} {text : String} {options : CommandOptions}
  {outcome : CommandOutcome}

/-- A command is captured, and through a private DD. -/
def ByDirect (settings : Settings) (options : CommandOptions) : Prop :=
  options.capture.getD settings.captureDefault = true
    ∧ options.mode.getD settings.captureMode = .direct

theorem runBy_byDirect (capability : Capability) (route : Route) (text : String)
    (h : ByDirect s.settings options) :
    runBy capability route text options s = runDirect capability route text s := by
  unfold runBy
  show (if (!options.capture.getD s.settings.captureDefault) = true then _ else _ :
    Op (Session SimHost) CommandOutcome) s = _
  rw [h.1, if_neg (by decide), h.2]

/-- What such a command returns was captured through one. -/
theorem run_byDirect (h : run text options s = (.ok outcome, t))
    (hby : ByDirect s.settings options) : outcome.path = .direct := by
  obtain ⟨capability, v, whole, w, hestablish, hrun, rfl⟩ := run_ok h
  have hsettings : v.settings = s.settings := (sameSettings_establish s).ok hestablish
  rw [runBy_byDirect _ _ _ (by rwa [hsettings])] at hrun
  obtain ⟨_, _, -, h1⟩ := Op.bind_ok hrun
  obtain ⟨released, _, -, h2⟩ := Op.bind_ok h1
  obtain ⟨_, _, -, h3⟩ := Op.bind_ok h2
  obtain ⟨_, _, h4⟩ := Op.lift_except_bind_ok h3
  obtain ⟨rfl, -⟩ := Op.pure_ok h4
  exact CommandOutcome.limitLines_path _ _

/-- A command that returned through the exec: the environment is found
usable, the exec runs the command, and the lines are limited. -/
theorem run_byExec (h : run text options s = (.ok outcome, t))
    (hby : ByExec s.settings options) :
    ∃ capability v report p, establish s = (.ok capability, v)
      ∧ ExecCapture.run capability (Text.trim text) (v.linkage, v.capture) = (.ok report, p)
      ∧ outcome = CommandOutcome.limitLines { report, path := .legacy }
        s.settings.lineLimit := by
  obtain ⟨capability, v, whole, w, hestablish, hrun, rfl⟩ := run_ok h
  have hsettings : v.settings = s.settings := (sameSettings_establish s).ok hestablish
  rw [runBy_byExec _ _ _ (by rwa [hsettings])] at hrun
  unfold runExec at hrun
  split at hrun
  · exact (Op.fail_ok hrun).elim
  · obtain ⟨report, x, hcapture, h1⟩ := Op.bind_ok hrun
    obtain ⟨rfl, -⟩ := Op.pure_ok h1
    obtain ⟨p, hexec, -⟩ := Op.on_ok hcapture
    exact ⟨capability, v, report, p, hestablish, hexec, rfl⟩

/-- The lines of a result, without trailing filler. -/
def linesShown (result : CommandResult) : List String :=
  result.output.map fun line => shown (CodePage.encode line)

/-- An outcome reports a result: its return code, and its lines up to the
limit. -/
structure Tells (limit : Option Nat) (result : CommandResult) (outcome : CommandOutcome) :
    Prop where
  rc : outcome.report.commandRc = result.rc
  limited : Limited limit (linesShown result) outcome

theorem tells_limitLines (limit : Option Nat) (hrc : outcome.report.commandRc = result.rc)
    (hlines : outcome.report.lines = linesShown result) (hwhole : outcome.truncated = 0) :
    Tells limit result (outcome.limitLines limit) := by
  have hlimited : Limited limit outcome.report.lines (outcome.limitLines limit) :=
    limitLines_limited hwhole
  rw [hlines] at hlimited
  refine ⟨?_, hlimited⟩
  rw [CommandOutcome.limitLines_eq _ _ hwhole]
  exact hrc

/-- Direct capture tells the result in the host that holds the private
DD. -/
theorem direct_tells (hnamed : s.linkage.Named) (hwf : s.linkage.storage.WellFormed)
    (hreply : s.host.reply = .requested) (hby : ByDirect s.settings options)
    (hresult : Processor.execute (allocated options s).2.host.view
      (Command.parse (carried (Text.trim text))) = result)
    (hplain : ∀ line ∈ result.output, Plain line)
    (h : run text options s = (.ok outcome, t)) :
    Tells s.settings.lineLimit result outcome := by
  obtain ⟨capability, name, bound, report, cleanup, s', link, hallocated, hcaptured, rfl⟩ :=
    run_direct h (run_byDirect h hby)
  obtain ⟨hholds, hmoves⟩ := allocated_private hnamed hwf hreply hallocated
  rw [hallocated] at hresult
  obtain ⟨lines, ran, closed, hread, -, hrecords, -, rfl⟩ :=
    captured_records (hmoves.named hnamed) (reach_wellFormed hmoves hwf) hholds
      (Text.trim_trim text) hresult hcaptured
  exact tells_limitLines _ rfl (readLines_plain hplain hrecords hread) rfl

/-- From a cursor that was never placed or stands at the end of the
stream, all lines of a command are read and no others. -/
theorem execLines_at_end {held : Bytes}
    (hcursor : s.capture.cursor.synced = true → s.capture.cursor.offset = held.length) :
    execLines s text held = Output.streamedBack (execOutput s text) := by
  have hnone : ∀ new : Bytes, s.capture.cursor.missed held new = 0 := by
    intro new
    unfold Cursor.missed
    split
    · next hall =>
      rw [hcursor hall.1, hall.2.1]
      rfl
    · rfl
  unfold execLines
  rw [Cursor.fresh_placed fun hsynced => .inl (hcursor hsynced), hnone, List.drop_zero,
    Output.splitStream_streamOf]

/-- Capture by the exec tells the result in the host as it is. -/
theorem exec_tells {held : Bytes} (hsharing : Sharing s held)
    (hoverride : s.host.evalOverride = none)
    (hcursor : s.capture.cursor.synced = true → s.capture.cursor.offset = held.length)
    (hby : ByExec s.settings options)
    (hresult : execResult s.host (carried (Text.trim text)) = result)
    (hplain : ∀ line ∈ result.output, Plain line)
    (h : run text options s = (.ok outcome, t)) :
    Tells s.settings.lineLimit result outcome where
  rc := by
    obtain ⟨capability, v, report, p, hestablish, hexec, rfl⟩ := run_byExec h hby
    have hreach : Linkage.Reach (· = "IKJTSOEV") s.linkage v.linkage :=
      ((probes_establish s hsharing.named).ok hestablish).1
    have hstill : (establish : Op (Session SimHost) Capability).Ends s fun _ t =>
        t.capture = s.capture := rfl
    have hcapture : v.capture = s.capture := hstill.ok hestablish
    have hkept : Scope.probing.keep s.host v.host = v.host := reach_probing hreach
    obtain ⟨hthere, hsame, -⟩ := hsharing.probed text hreach hcapture
    have hcode := execCapture_code hthere.named hthere.wellFormed
      (by rw [hthere.shared]; decide +kernel) (by rw [hthere.shared]; decide)
      (by rw [hthere.shared]; exact hthere.stream) (hsame.trans hoverride) hexec
    rw [CommandOutcome.limitLines_eq _ _ rfl, ← hresult]
    refine hcode.trans ?_
    rw [Text.trim_trim]
    show (execResult v.host _).rc = _
    rw [← hkept]
    rfl
  limited := by
    have hran := (run_ran text hsharing hby).ok h
    generalize t.capture = now at hran
    cases hran with
    | read _ _ hlimited =>
        have hlines : execLines s text held = linesShown result := by
          rw [execLines_at_end hcursor]
          unfold execOutput
          rw [hresult, Output.streamedBack_plain hplain]
          rfl
        rwa [hlines] at hlimited

-- =============================================================== theorem

/-- Capture by the exec can stand in for direct capture. On a host that
allocates under the name asked for and leaves the answers of execs alone,
take a session whose cursor was never placed or stands at the end of the
stream, and a command that need not run authorized, of which the command
processor makes the same with the private DD and without, in plain lines.
If the command returns both ways, it returns the same: the return code of
the result, and its lines without trailing filler, up to the limit. -/
theorem exec_substitutes_direct {host : SimHost} {settings : Settings}
    {direct exec : CommandOptions} {captured streamed : CommandOutcome} {held : Bytes}
    (hs : Reachable Touched host settings s) (hreply : host.reply = .requested)
    (hoverride : host.evalOverride = none) (hshared : s.capture.outDd = "TSOOUT")
    (hstream : HoldsStream s.host "TSOOUT" held)
    (hcursor : s.capture.cursor.synced = true → s.capture.cursor.offset = held.length)
    (hverb : s.host.authcmd.contains (Command.parse (carried (Text.trim text))).name = false)
    (hbare : Processor.execute s.host.view (Command.parse (carried (Text.trim text))) = result)
    (hprivate : Processor.execute (allocated direct s).2.host.view
      (Command.parse (carried (Text.trim text))) = result)
    (hplain : ∀ line ∈ result.output, Plain line)
    (hdirect : ByDirect settings direct) (hexec : ByExec settings exec)
    (hcaptured : run text direct s = (.ok captured, t))
    (hstreamed : run text exec s = (.ok streamed, u)) :
    captured.report.commandRc = result.rc ∧ streamed.report.commandRc = result.rc
      ∧ captured.report.lines = streamed.report.lines
      ∧ captured.truncated = streamed.truncated
      ∧ streamed.report.lines
        = (settings.lineLimit.map (linesShown result).take).getD (linesShown result) := by
  obtain rfl : s.settings = settings := Reachable.settings hs
  have hnamed : s.linkage.Named := Reachable.named hs
  have hwf : s.linkage.storage.WellFormed := reachable_wellFormed hs
  have hsetup : Scope.calls.keep host s.host = s.host := reachable_setup hs
  have hreplies : s.host.reply = .requested := by
    rw [← hsetup]
    exact hreply
  have hanswers : s.host.evalOverride = none := by
    rw [← hsetup]
    exact hoverride
  have hresult : execResult s.host (carried (Text.trim text)) = result := by
    unfold execResult
    rw [if_neg (by rw [hverb]; exact Bool.false_ne_true)]
    exact hbare
  have hfirst := direct_tells hnamed hwf hreplies hdirect hprivate hplain hcaptured
  have hsecond := exec_tells ⟨hnamed, hwf, hshared, hstream⟩ hanswers hcursor hexec hresult hplain
    hstreamed
  exact ⟨hfirst.rc, hsecond.rc, hfirst.limited.1.trans hsecond.limited.1.symm,
    hfirst.limited.2.trans hsecond.limited.2.symm, hsecond.limited.1⟩

/-- A command that lacks its operand, as the first of a session. -/
theorem exec_substitutes_direct_send :
    let host := SimHost.build {} noon
    let s := start host {}
    let direct : CommandOptions := { mode := some .direct }
    let exec : CommandOptions := { mode := some .legacy }
    let text := " send "
    let result := CommandResult.error "IKJ56702I MISSING MESSAGE TEXT"
    let report : CommandReport :=
      { serviceRc := 4, commandRc := 12, reasonCode := 0, abendCode := 0, lines := result.output }
    let captured : CommandOutcome := { report, path := .direct, binding := some { text := "LUZ00001" } }
    let streamed : CommandOutcome := { report := { report with serviceRc := 0 }, path := .legacy }
    Reachable Touched host {} s ∧ host.reply = .requested ∧ host.evalOverride = none
      ∧ HoldsStream s.host "TSOOUT" [] ∧ s.capture.cursor.synced = false
      ∧ ByDirect {} direct ∧ ByExec {} exec
      ∧ (run text direct s).1 = .ok captured ∧ (run text exec s).1 = .ok streamed
      ∧ captured.report.commandRc = result.rc ∧ streamed.report.commandRc = result.rc
      ∧ captured.report.lines = streamed.report.lines
      ∧ streamed.report.lines = linesShown result := by
  intro host s direct exec text result report captured streamed
  have hs : Reachable Touched host {} s := Relation.ReflTransGen.refl
  have hshared : s.capture.outDd = "TSOOUT" := by decide +kernel
  have hverb : s.host.authcmd.contains (Command.parse (carried (Text.trim text))).name = false := by
    decide +kernel
  have hbare : Processor.execute s.host.view (Command.parse (carried (Text.trim text)))
      = result := by decide +kernel
  have hprivate : Processor.execute (allocated direct s).2.host.view
      (Command.parse (carried (Text.trim text))) = result := by decide +kernel
  have hplain : ∀ line ∈ result.output, Plain line := by decide +kernel
  have hruns : (run text direct s).1 = .ok captured ∧ (run text exec s).1 = .ok streamed := by
    decide +kernel
  obtain ⟨t, hcaptured⟩ := Op.ends_of_fst hruns.1
  obtain ⟨u, hstreamed⟩ := Op.ends_of_fst hruns.2
  have hdirect : ByDirect {} direct := ⟨rfl, rfl⟩
  have hexec : ByExec {} exec := ⟨rfl, rfl⟩
  obtain ⟨hrc, hrc', hlines, -, hshown⟩ := exec_substitutes_direct hs rfl rfl hshared
    build_holdsStream (fun hsynced => by cases hsynced) hverb hbare hprivate hplain hdirect hexec
    hcaptured hstreamed
  exact ⟨hs, rfl, rfl, build_holdsStream, rfl, hdirect, hexec, hruns.1, hruns.2, hrc, hrc', hlines,
    hshown⟩

end Sim

end TsoBridge
