/-
Capture by exec, over the life of a session whose commands all go through
the exec. Commands share one stream, and all that keeps them apart is the
place of one cursor: what stands behind it was appended by the command
that has just run.

# The invariant

After any number of commands, returned or failed, and any number of fresh
starts of the stream, the cursor stands at the end of the stream, or the
stream was started anew since and is still empty (`Following`). A command
that fails has appended nothing, or no command of the session will ever
return: the answer of an exec can be read for every command or for none
(`Readable`).

So a command that returns reports lines of its own output and of no
other's (`exec_output_isolated`). They are all of its lines, unless the
stream was started anew and the output is at least as long as what the
cursor has counted: a stream started anew is known by being shorter than
that. Then so many bytes are missing at the front
(`exec_output_cut_short`).
-/
import TsoBridge.Proofs.DirectCapture
import TsoBridge.Proofs.Sim.ExecCall

namespace TsoBridge

-- ============================================================ the cursor

namespace Cursor

variable {cursor : Cursor} {held new : Bytes}

/-- The cursor at the start of a command: where it was, or at the end of
the stream if it never was anywhere. -/
def placed (cursor : Cursor) (held : Bytes) : Cursor :=
  if cursor.synced then cursor else { offset := held.length, synced := true }

/-- How many bytes of `new` are missed: those the cursor counted before
the stream was started anew, if there are that many. -/
def missed (cursor : Cursor) (held new : Bytes) : Nat :=
  if cursor.synced = true ∧ held = [] ∧ cursor.offset ≤ new.length then cursor.offset else 0

theorem fresh_end (held new : Bytes) (synced : Bool) :
    fresh { offset := held.length, synced } (held ++ new) = new := by
  unfold fresh
  rw [if_pos (by simp), List.drop_left]

/-- What is read after a command that appended `new`. -/
theorem fresh_placed
    (h : cursor.synced = true → cursor.offset = held.length ∨ held = []) :
    (cursor.placed held).fresh (held ++ new) = new.drop (cursor.missed held new) := by
  unfold placed missed
  by_cases hsynced : cursor.synced = true
  · rw [if_pos hsynced]
    by_cases hempty : held = []
    · subst hempty
      unfold fresh
      by_cases hlong : cursor.offset ≤ new.length
      · rw [List.nil_append, if_pos hlong, if_pos ⟨hsynced, rfl, hlong⟩]
      · rw [List.nil_append, if_neg hlong, if_neg (fun hall => hlong hall.2.2), List.drop_zero]
    · have hoffset : cursor.offset = held.length := (h hsynced).resolve_right hempty
      rw [if_neg (fun hall => hempty hall.2.1), List.drop_zero]
      unfold fresh
      rw [if_pos (by rw [hoffset, List.length_append]; omega), hoffset, List.drop_left]
  · rw [if_neg hsynced, if_neg (fun hall => hsynced hall.1), List.drop_zero, fresh_end]

end Cursor

namespace Sim

open CodePage (carried)
open Output (streamOf)

-- =========================================================== one command

/-- How a command ends that goes through the exec. It did not run; or it
ran and its answer could not be read, which then holds of every answer; or
it ran and `good` holds of its value. -/
inductive ExecRan {α : Type} (override : Option (Int32 × Bytes)) (capture : ExecCapture)
    (output : List String) (held : Bytes) (good : α → Prop) :
    Outcome α → SimHost → ExecCapture → Prop where
  | unheard {fault : Fault} {after : SimHost} {cursor : Cursor}
      (hstream : HoldsStream after capture.outDd held)
      (hcursor : cursor = capture.cursor ∨ cursor = capture.cursor.placed held) :
      ExecRan override capture output held good (.error fault) after { capture with cursor }
  | unread {fault : Fault} {after : SimHost} {cursor : Cursor}
      (hstream : HoldsStream after capture.outDd (held ++ streamOf output))
      (hreadable : ¬ Readable override) :
      ExecRan override capture output held good (.error fault) after { capture with cursor }
  | read {a : α} {after : SimHost}
      (hstream : HoldsStream after capture.outDd (held ++ streamOf output))
      (hreadable : Readable override) (hgood : good a) :
      ExecRan override capture output held good (.ok a) after
        { capture with cursor := { offset := (held ++ streamOf output).length, synced := true } }

namespace ExecRan

variable {α β : Type} {override : Option (Int32 × Bytes)} {capture now : ExecCapture}
  {output : List String} {held : Bytes} {good : α → Prop} {good' : β → Prop} {after : SimHost}

/-- A fault is one of any operation. -/
theorem fault {fault : Fault}
    (h : ExecRan override capture output held good (.error fault) after now) :
    ExecRan override capture output held good' (.error fault) after now := by
  cases h with
  | unheard hstream hcursor => exact .unheard hstream hcursor
  | unread hstream hreadable => exact .unread hstream hreadable

/-- What is made of the value. -/
theorem value {a : α} {b : β} (h : ExecRan override capture output held good (.ok a) after now)
    (hgood : good a → good' b) :
    ExecRan override capture output held good' (.ok b) after now := by
  cases h with
  | read hstream hreadable ha => exact .read hstream hreadable (hgood ha)

end ExecRan

variable {link : Linkage SimHost} {capture : ExecCapture} {held : Bytes}

/-- Work on the cursor, by its run. -/
theorem onCursor_run {α : Type} {x : Op (Linkage SimHost × Cursor) α} {r : Outcome α}
    {t : Linkage SimHost × Cursor} (capture : ExecCapture) (h : x (link, capture.cursor) = (r, t)) :
    ExecCapture.onCursor x (link, capture) = (r, (t.1, { capture with cursor := t.2 })) := by
  unfold ExecCapture.onCursor Op.on
  rw [h]

/-- Catching up puts the cursor at the end of the stream. -/
theorem catchUp_run (h : HoldsStream link.host capture.outDd held) :
    ExecCapture.catchUp capture (link, capture)
      = (.ok (), (link, { capture with cursor := capture.cursor.placed held })) := by
  unfold ExecCapture.catchUp Cursor.placed
  by_cases hsynced : capture.cursor.synced = true
  · rw [if_pos hsynced, if_pos hsynced]
    rfl
  · rw [if_neg hsynced, if_neg hsynced]
    exact onCursor_run capture (syncToEnd_run h)

/-- What a command that ran reports: the lines that are fresh, seen from
where the cursor stood. -/
def ReadFresh (capture : ExecCapture) (held : Bytes) (output : List String)
    (report : CommandReport) : Prop :=
  report.lines
    = Output.splitStream ((capture.cursor.placed held).fresh (held ++ streamOf output))

/-- After the call comes the report of a command that ran, or why there is
none. -/
theorem collect_ran {host : SimHost} {command : String} {r15 rexxRc : Int32} {eval : EvalResult}
    (h : ExecStreamed host command capture.outDd held (.ok (r15, eval, rexxRc)) link.host) :
    (ExecCapture.collect capture.outDd r15 eval rexxRc).Ends
      (link, { capture with cursor := capture.cursor.placed held }) fun r t =>
        ExecRan host.evalOverride capture (execResult host command).output held
          (ReadFresh capture held (execResult host command).output) r t.1.host t.2 := by
  unfold ExecCapture.collect
  rcases h with ⟨hheld, hcode⟩ | ⟨hnew, hanswer⟩
  · have hr15 : r15 ≠ 0 := fun h => hcode eval rexxRc (by rw [h])
    rw [if_pos hr15]
    exact .unheard hheld (.inr rfl)
  · cases hanswer
    rw [if_neg (by decide)]
    split
    · next flaw hflaw =>
      refine .unread hnew fun hreadable => ?_
      obtain ⟨code, hcode⟩ := hreadable (execResult host command).rc
      rw [hcode] at hflaw
      cases hflaw
    · next code hcode =>
      have hread := onCursor_run { capture with cursor := capture.cursor.placed held }
        (readNewLines_run hnew)
      exact Op.Ends.bind_of_ok hread (.read hnew (readable_of_read hcode) rfl)

/-- A command that is handed to the exec. -/
theorem execCapture_ran (capability : Capability) (text : String) (hnamed : link.Named)
    (hwf : link.storage.WellFormed) (hcarried : carried capture.outDd = capture.outDd)
    (hname : capture.outDd ≠ "") (hholds : HoldsStream link.host capture.outDd held)
    {result : CommandResult} (hresult : execResult link.host (carried (Text.trim text)) = result) :
    (ExecCapture.run capability text).Ends (link, capture) fun r t =>
      ExecRan link.host.evalOverride capture result.output held
        (ReadFresh capture held result.output) r t.1.host t.2 := by
  subst hresult
  unfold ExecCapture.run
  simp only
  split
  · exact .unheard hholds (.inl rfl)
  have hfetch := Op.Ends.onFirst (s := (link, capture))
    (fetch_lookedUp hnamed (Linkage.upper_sought (by simp) : Text.upper "IRXEXEC" = _))
  refine hfetch.bind (fun entry t ht => ?_) fun fault t ht => ?_
  · obtain ⟨u, kept⟩ := t
    obtain ⟨⟨-, hhost, hstorage, hentry, -⟩, hkept⟩ := ht
    obtain rfl : capture = kept := hkept.symm
    have hstream : HoldsStream u.host capture.outDd held := by rwa [hhost]
    -- the cursor is placed, and the command runs
    refine Op.ends_gets_bind (Op.Ends.bind_of_ok (catchUp_run hstream) ?_)
    have harguments : (capture.requestOf (Text.trim text)).arguments
        = ["CMD", Text.trim text, capture.outDd] := rfl
    have hcall := callExec_streamed capability (hentry entry rfl) (by rwa [hstorage]) harguments
      hcarried hname hstream
    rw [hhost] at hcall
    refine (Op.Ends.onFirst (s := (u, _)) hcall).bind (fun answer t ht => ?_) fun fault t ht => ?_
    · obtain ⟨v, kept⟩ := t
      obtain ⟨hcases, hkept⟩ := ht
      obtain rfl : _ = kept := hkept.symm
      exact collect_ran hcases
    · obtain ⟨v, kept⟩ := t
      obtain ⟨hcases, hkept⟩ := ht
      obtain rfl : _ = kept := hkept.symm
      rcases hcases with ⟨hheld, -⟩ | ⟨-, hanswer⟩
      · exact .unheard hheld (.inr rfl)
      · cases hanswer
  · obtain ⟨u, kept⟩ := t
    obtain ⟨⟨-, hhost, -⟩, hkept⟩ := ht
    obtain rfl : capture = kept := hkept.symm
    refine .unheard ?_ (.inl rfl)
    rwa [hhost]

-- =============================================================== sessions

open Session

/-- A command is captured, and by the exec. -/
def ByExec (settings : Settings) (options : CommandOptions) : Prop :=
  options.capture.getD settings.captureDefault = true
    ∧ options.mode.getD settings.captureMode = .legacy

/-- A command that goes by exec is an exec. -/
theorem runBy_byExec {s : Session SimHost} {options : CommandOptions} (capability : Capability)
    (route : Route) (text : String) (h : ByExec s.settings options) :
    runBy capability route text options s = runExec capability route text s := by
  unfold runBy
  show (if (!options.capture.getD s.settings.captureDefault) = true then _ else _ :
    Op (Session SimHost) CommandOutcome) s = _
  rw [h.1, if_neg (by decide), h.2]

/-- The lines a command writes when an exec runs it. -/
def execOutput (s : Session SimHost) (text : String) : List String :=
  (execResult s.host (carried (Text.trim text))).output

/-- The lines that are read after a command on a stream that held
`held`. -/
def execLines (s : Session SimHost) (text : String) (held : Bytes) : List String :=
  Output.splitStream ((s.capture.cursor.placed held).fresh (held ++ streamOf (execOutput s text)))

/-- The lines of a command and how many of them were dropped, up to a
limit. -/
def Limited (limit : Option Nat) (full : List String) (outcome : CommandOutcome) : Prop :=
  outcome.report.lines = (limit.map full.take).getD full
    ∧ outcome.truncated = (limit.map (full.length - ·)).getD 0

/-- Limiting cuts the lines and counts what was cut. -/
theorem limitLines_limited {outcome : CommandOutcome} {limit : Option Nat}
    (h : outcome.truncated = 0) :
    Limited limit outcome.report.lines (outcome.limitLines limit) := by
  rw [CommandOutcome.limitLines_eq outcome limit h]
  exact ⟨rfl, rfl⟩

/-- A session whose cache and storage are sound and whose exec writes to
the stream behind TSOOUT. -/
structure Sharing (s : Session SimHost) (held : Bytes) : Prop where
  named : s.linkage.Named
  wellFormed : s.linkage.storage.WellFormed
  shared : s.capture.outDd = "TSOOUT"
  stream : HoldsStream s.host "TSOOUT" held

variable {s : Session SimHost} {text : String} {options : CommandOptions}

/-- What is known of the capture is known in the session. -/
theorem ends_onCapture {α : Type} {x : Op (Linkage SimHost × ExecCapture) α}
    {mid : Outcome α → Linkage SimHost × ExecCapture → Prop}
    {post : Outcome α → Session SimHost → Prop} (hx : x.Ends (s.linkage, s.capture) mid)
    (h : ∀ r t, mid r t → post r { s with linkage := t.1, capture := t.2 }) :
    (onCapture x).Ends s post :=
  h _ _ hx

/-- An exec appends its output and reads it back. -/
theorem runExec_ran (capability : Capability) (route : Route) (text : String)
    (h : Sharing s held) :
    (runExec capability route text).Ends s fun r t =>
      ExecRan s.host.evalOverride s.capture (execOutput s text) held
        (fun outcome : CommandOutcome => outcome.truncated = 0
          ∧ outcome.report.lines = execLines s text held) r t.host t.capture := by
  have hstream : HoldsStream s.host s.capture.outDd held := by
    rw [h.shared]
    exact h.stream
  have hcarried : carried s.capture.outDd = s.capture.outDd := by
    rw [h.shared]
    decide +kernel
  have hname : s.capture.outDd ≠ "" := by
    rw [h.shared]
    decide
  unfold runExec
  split
  · exact .unheard hstream (.inl rfl)
  · have hran : (onCapture (ExecCapture.run capability text)).Ends s fun r t =>
        ExecRan s.host.evalOverride s.capture (execOutput s text) held
          (fun report : CommandReport => report.lines = execLines s text held)
          r t.host t.capture :=
      ends_onCapture
        (execCapture_ran capability text h.named h.wellFormed hcarried hname hstream rfl)
        fun _ _ ht => ht
    refine hran.bind (fun report t ht => ?_) fun fault t ht => ht.fault
    exact ht.value fun hlines => ⟨rfl, hlines⟩

/-- What finding out about the environment changes, a command does not
see. -/
theorem Sharing.probed {u : Session SimHost} (h : Sharing s held) (text : String)
    (hreach : Linkage.Reach (· = "IKJTSOEV") s.linkage u.linkage)
    (hcapture : u.capture = s.capture) :
    Sharing u held ∧ u.host.evalOverride = s.host.evalOverride
      ∧ execOutput u text = execOutput s text := by
  have hkept : Scope.probing.keep s.host u.host = u.host := reach_probing hreach
  refine ⟨⟨hreach.named h.named, reach_wellFormed hreach h.wellFormed, ?_, ?_⟩, ?_, ?_⟩
  · rw [hcapture]
    exact h.shared
  · rw [← hkept]
    exact h.stream.of_same rfl rfl
  · rw [← hkept]
    rfl
  · unfold execOutput
    rw [← hkept]
    rfl

/-- A command of a session that goes through the exec. -/
theorem run_ran (text : String) (h : Sharing s held) (hby : ByExec s.settings options) :
    (run text options).Ends s fun r t =>
      ExecRan s.host.evalOverride s.capture (execOutput s text) held
        (Limited s.settings.lineLimit (execLines s text held)) r t.host t.capture := by
  have hunheard : ∀ {u : Session SimHost} (fault : Fault), u.capture = s.capture →
      HoldsStream u.host "TSOOUT" held →
      ExecRan s.host.evalOverride s.capture (execOutput s text) held
        (Limited s.settings.lineLimit (execLines s text held)) (.error fault) u.host u.capture := by
    intro u fault hcapture hstream
    rw [hcapture]
    exact .unheard (by rwa [h.shared]) (.inl rfl)
  refine Op.ends_gets_bind ?_
  simp only
  split
  · exact hunheard _ rfl h.stream
  split
  · exact hunheard _ rfl h.stream
  have huses : (establish : Op (Session SimHost) Capability).Uses linkage (· = "IKJTSOEV")
      fun _ => True := uses_onEnvironment (Environment.uses_establish rfl)
  have hestablish : (establish : Op (Session SimHost) Capability).Ends s fun _ t =>
      Linkage.Reach (· = "IKJTSOEV") s.linkage t.linkage ∧ t.capture = s.capture
        ∧ t.settings = s.settings :=
    ⟨(huses s h.named).1, rfl, rfl⟩
  refine hestablish.bind (fun capability u hu => ?_) fun fault u hu => ?_
  · obtain ⟨hreach, hcapture, hsettings⟩ := hu
    obtain ⟨hsharing, hoverride, houtput⟩ := h.probed text hreach hcapture
    have hran := runExec_ran capability (routeOf options) (Text.trim text) hsharing
    have hsame : execOutput u (Text.trim text) = execOutput s text := by
      rw [← houtput]
      unfold execOutput
      rw [Text.trim_trim]
    have hlines : execLines u (Text.trim text) held = execLines s text held := by
      unfold execLines
      rw [hsame, hcapture]
    rw [hoverride, hcapture, hsame, hlines] at hran
    have hby' : ByExec u.settings options := by rwa [hsettings]
    have hrunBy : (runBy capability (routeOf options) (Text.trim text) options).Ends u fun r t =>
        ExecRan s.host.evalOverride s.capture (execOutput s text) held
          (fun outcome : CommandOutcome => outcome.truncated = 0
            ∧ outcome.report.lines = execLines s text held) r t.host t.capture := by
      rw [Op.Ends, runBy_byExec capability (routeOf options) (Text.trim text) hby']
      exact hran
    refine hrunBy.bind (fun outcome t ht => ?_) fun fault t ht => ht.fault
    refine ht.value fun houtcome => ?_
    rw [← houtcome.2]
    exact limitLines_limited houtcome.1
  · obtain ⟨hreach, hcapture, -⟩ := hu
    obtain ⟨hsharing, -⟩ := h.probed text hreach hcapture
    exact hunheard fault hcapture hsharing.stream

-- ========================================================= the invariant

/-- The sessions of a host whose commands all go through the exec, between
which the stream behind TSOOUT may be started anew. The flag says whether
that happened since the last command that returned. -/
inductive Streamed (host : SimHost) (settings : Settings) : Bool → Session SimHost → Prop where
  | start : Streamed host settings false (start host settings)
  | command {turned : Bool} {s : Session SimHost} (h : Streamed host settings turned s)
      (text : String) {options : CommandOptions} (hby : ByExec settings options) :
      Streamed host settings (turned && !(run text options s).1.isOk) (run text options s).2
  | rotate {turned : Bool} {s : Session SimHost} {after : SimHost}
      (h : Streamed host settings turned s) (hrotate : s.host.rotate "TSOOUT" = .ok after) :
      Streamed host settings true { s with linkage := { s.linkage with host := after } }

/-- The cursor stands at the end of the stream, or the stream was started
anew and is empty; if answers can be read at all. -/
structure Following (turned : Bool) (s : Session SimHost) (held : Bytes) : Prop
    extends Sharing s held where
  place : Readable s.host.evalOverride → s.capture.cursor.synced = true →
    s.capture.cursor.offset = held.length ∨ turned = true ∧ held = []

variable {host : SimHost} {settings : Settings} {turned : Bool}

/-- A command keeps the invariant, and one that returned leaves the cursor
at the end. -/
theorem Following.ran {α : Type} {good : α → Prop} {t : Session SimHost} {output : List String}
    {r : Outcome α} (h : Following turned s held) (hnamed : t.linkage.Named)
    (hwf : t.linkage.storage.WellFormed) (hoverride : t.host.evalOverride = s.host.evalOverride)
    (hran : ExecRan s.host.evalOverride s.capture output held good r t.host t.capture) :
    ∃ held', Following (turned && !r.isOk) t held' := by
  generalize hnow : t.capture = now at hran
  generalize hafter : t.host = after at hran
  have hshared : ∀ cursor, now = { s.capture with cursor } → t.capture.outDd = "TSOOUT" := by
    intro cursor heq
    rw [hnow, heq]
    exact h.shared
  cases hran with
  | unheard hstream hcursor =>
      refine ⟨held, ⟨hnamed, hwf, hshared _ rfl, by rwa [hafter, ← h.shared]⟩, ?_⟩
      rw [hnow, hoverride]
      intro hreadable hsynced
      have hplace := h.place hreadable
      show _ ∨ (turned && true) = true ∧ _
      rw [Bool.and_true]
      rcases hcursor with rfl | rfl
      · exact hplace hsynced
      · unfold Cursor.placed
        split
        · next hbefore => exact hplace hbefore
        · exact .inl rfl
  | unread hstream hreadable =>
      refine ⟨_, ⟨hnamed, hwf, hshared _ rfl, by rwa [hafter, ← h.shared]⟩, fun hread => ?_⟩
      rw [hoverride] at hread
      exact absurd hread hreadable
  | read hstream hreadable hgood =>
      refine ⟨_, ⟨hnamed, hwf, hshared _ rfl, by rwa [hafter, ← h.shared]⟩, fun _ _ => .inl ?_⟩
      rw [hnow]

/-- A rotation starts the stream anew. -/
theorem Following.rotate {after : SimHost} (h : Following turned s held)
    (hrotate : s.host.rotate "TSOOUT" = .ok after) :
    Following true { s with linkage := { s.linkage with host := after } } [] :=
  ⟨⟨h.named, h.wellFormed, h.shared, h.stream.rotate hrotate⟩, fun _ _ => .inr ⟨rfl, rfl⟩⟩

/-- Sessions begin with a cursor that was never placed. -/
theorem following_start (hdd : Text.upper settings.outDd = "TSOOUT")
    (hstream : HoldsStream host "TSOOUT" held) : Following false (start host settings) held := by
  refine ⟨⟨fun key entry hget => ?_, Storage.wellFormed_empty, hdd, hstream⟩, fun _ hsynced => ?_⟩
  · cases hget
  · cases hsynced

theorem Streamed.settings_eq (h : Streamed host settings turned s) : s.settings = settings := by
  induction h with
  | start => rfl
  | command h text hby ih => exact (sameSettings_run text _ _).trans ih
  | rotate h hrotate ih => exact ih

/-- The invariant holds along a session. -/
theorem Streamed.following (h : Streamed host settings turned s)
    (hdd : Text.upper settings.outDd = "TSOOUT")
    (hstream : ∃ old, HoldsStream host "TSOOUT" old) : ∃ held, Following turned s held := by
  induction h with
  | start =>
      obtain ⟨old, hold⟩ := hstream
      exact ⟨old, following_start hdd hold⟩
  | @command turned s h text options hby ih =>
      obtain ⟨held, hfollowing⟩ := ih
      have hall : Supported fun _ => True := fun _ _ => trivial
      have hmoves : Linkage.Reach (fun _ => True) s.linkage (run text options s).2.linkage :=
        (uses_run hall trivial text trivial s hfollowing.named).1
      rw [← h.settings_eq] at hby
      have hran := run_ran text hfollowing.toSharing hby
      unfold Op.Ends at hran
      generalize run text options s = ended at hmoves hran ⊢
      exact hfollowing.ran (hmoves.named hfollowing.named)
        (reach_wellFormed hmoves hfollowing.wellFormed) (reach_evalOverride hmoves) hran
  | rotate h hrotate ih =>
      obtain ⟨held, hfollowing⟩ := ih
      exact ⟨[], hfollowing.rotate hrotate⟩

-- =============================================================== theorems

/-- Bytes are missed only after the stream was started anew. -/
theorem Following.missed_turned (h : Following turned s held)
    (hreadable : Readable s.host.evalOverride) {new : Bytes}
    (hmissed : s.capture.cursor.missed held new ≠ 0) : turned = true := by
  unfold Cursor.missed at hmissed
  split at hmissed
  · next hall =>
    obtain ⟨hsynced, rfl, -⟩ := hall
    rcases h.place hreadable hsynced with hend | ⟨hturned, -⟩
    · exact absurd hend hmissed
    · exact hturned
  · exact absurd rfl hmissed

/-- What a command that returns through the exec reports. The stream has
gained its output, and the lines are those of its output from the first
byte that is not missing on, as many as the limit lets through. None is
missing unless the stream was started anew since the last command that
returned; then, if the output is as long as what the cursor had counted
before, exactly that many bytes are. -/
theorem exec_output_isolated {t : Session SimHost} {outcome : CommandOutcome}
    (hdd : Text.upper settings.outDd = "TSOOUT") (hstream : ∃ old, HoldsStream host "TSOOUT" old)
    (hs : Streamed host settings turned s) (hby : ByExec settings options)
    (hrun : run text options s = (.ok outcome, t)) :
    ∃ held missing full,
      HoldsStream s.host "TSOOUT" held
      ∧ HoldsStream t.host "TSOOUT" (held ++ streamOf (execOutput s text))
      ∧ missing = s.capture.cursor.missed held (streamOf (execOutput s text))
      ∧ (missing ≠ 0 → turned = true)
      ∧ full = Output.splitStream ((streamOf (execOutput s text)).drop missing)
      ∧ (missing = 0 → full = Output.streamedBack (execOutput s text))
      ∧ outcome.report.lines = (settings.lineLimit.map full.take).getD full
      ∧ outcome.truncated = (settings.lineLimit.map (full.length - ·)).getD 0 := by
  obtain ⟨held, hfollowing⟩ := hs.following hdd hstream
  have hby' : ByExec s.settings options := by rwa [hs.settings_eq]
  have hran := (run_ran text hfollowing.toSharing hby').ok hrun
  generalize t.capture = now at hran
  cases hran with
  | read hnew hreadable hlimited =>
      rw [hfollowing.shared] at hnew
      rw [hs.settings_eq] at hlimited
      have hplace : s.capture.cursor.synced = true →
          s.capture.cursor.offset = held.length ∨ held = [] :=
        fun hsynced => (hfollowing.place hreadable hsynced).imp_right And.right
      have hfull : execLines s text held = Output.splitStream ((streamOf (execOutput s text)).drop
          (s.capture.cursor.missed held (streamOf (execOutput s text)))) := by
        unfold execLines
        rw [Cursor.fresh_placed hplace]
      refine ⟨held, _, execLines s text held, hfollowing.stream, hnew, rfl,
        hfollowing.missed_turned hreadable, hfull, fun hnone => ?_, hlimited⟩
      rw [hfull, hnone, List.drop_zero, Output.splitStream_streamOf]

/-- The session whose stream was started anew. -/
def turnedOver (s : Session SimHost) : Session SimHost :=
  { s with linkage := { s.linkage with host := (s.host.rotate "TSOOUT").toOption.getD s.host } }

/-- The host may be turned over under the session. -/
theorem Streamed.turnedOver (h : Streamed host settings turned s)
    (hdd : Text.upper settings.outDd = "TSOOUT")
    (hstream : ∃ old, HoldsStream host "TSOOUT" old) :
    Streamed host settings true (turnedOver s) := by
  obtain ⟨held, hfollowing⟩ := h.following hdd hstream
  obtain ⟨after, hrotate, -⟩ := hfollowing.stream.rotates
  unfold Sim.turnedOver
  rw [hrotate]
  exact h.rotate hrotate

/-- A host as it is built, without datasets of its own. -/
theorem build_holdsStream : HoldsStream (SimHost.build {} noon) "TSOOUT" [] := by
  refine ⟨{ ddname := "TSOOUT", dsname := "IBMUSER.LUAZ.TSOOUT", status := .mod,
            temporary := false }, Dataset.stream "IBMUSER.LUAZ.TSOOUT", ?_, ?_, rfl, rfl⟩
  · decide +kernel
  · decide +kernel

/-- After a message of one letter and a fresh start, a listing loses two
bytes and, by the limit, its last line. -/
theorem exec_output_isolated_listing :
    let host := SimHost.build {} noon
    let settings : Settings := { lineLimit := some 2 }
    let options : CommandOptions := { mode := some .legacy }
    let s := turnedOver (run "SEND 'A'" options (start host settings)).2
    let text := " LISTCAT LEVEL(NOSUCH) "
    let outcome : CommandOutcome :=
      { report :=
          { serviceRc := 0, commandRc := 4, reasonCode := 0, abendCode := 0
            lines := ["C3012I ENTRY NOSUCH NOT FOUND",
              "IDC3009I ** VSAM CATALOG RETURN CODE IS 8 - REASON CODE IS IGG0CLEG-42"] }
        path := .legacy, truncated := 1 }
    Text.upper settings.outDd = "TSOOUT" ∧ (∃ old, HoldsStream host "TSOOUT" old)
      ∧ Streamed host settings true s ∧ ByExec settings options
      ∧ ∃ t, run text options s = (.ok outcome, t)
        ∧ ∃ held missing full,
          HoldsStream s.host "TSOOUT" held
          ∧ HoldsStream t.host "TSOOUT" (held ++ streamOf (execOutput s text))
          ∧ missing = s.capture.cursor.missed held (streamOf (execOutput s text))
          ∧ full = Output.splitStream ((streamOf (execOutput s text)).drop missing)
          ∧ (missing = 0 → full = Output.streamedBack (execOutput s text))
          ∧ outcome.report.lines = (settings.lineLimit.map full.take).getD full
          ∧ outcome.truncated = (settings.lineLimit.map (full.length - ·)).getD 0 := by
  intro host settings options s text outcome
  have hdd : Text.upper settings.outDd = "TSOOUT" := by decide +kernel
  have hstream : ∃ old, HoldsStream host "TSOOUT" old := ⟨[], build_holdsStream⟩
  have hby : ByExec settings options := ⟨rfl, rfl⟩
  have hstart : Streamed host settings false (start host settings) := .start
  have hruns : (run text options s).1 = .ok outcome := by decide +kernel
  have hs : Streamed host settings true s :=
    (hstart.command "SEND 'A'" hby).turnedOver hdd hstream
  obtain ⟨t, ht⟩ := Op.ends_of_fst hruns
  obtain ⟨held, missing, full, hheld, hnew, hmissing, -, hlines⟩ :=
    exec_output_isolated hdd hstream hs hby ht
  exact ⟨hdd, hstream, hs, hby, t, ht, held, missing, full, hheld, hnew, hmissing, hlines⟩

/-- The same message twice, with a fresh start in between: the second time
none of its lines are read. Nor are those a limit drops. -/
theorem exec_output_cut_short :
    let host := SimHost.build {} noon
    let options : CommandOptions := { mode := some .legacy }
    let s := turnedOver (run "SEND 'A'" options (start host {})).2
    let report : CommandReport :=
      { serviceRc := 0, commandRc := 0, reasonCode := 0, abendCode := 0, lines := [] }
    Streamed host {} true s ∧ ByExec {} options
      ∧ s.host.openStream "TSOOUT" = .ok { bytes := [] }
      ∧ (run "SEND 'A'" options s).1 = .ok { report, path := .legacy }
      ∧ (run "SEND 'A'" options s).2.host.openStream "TSOOUT" = .ok { bytes := streamOf ["A"] }
      ∧ Output.streamedBack ["A"] = ["A"]
      ∧ (run "SEND 'A'" options (start host { lineLimit := some 0 })).1
        = .ok { report, path := .legacy, truncated := 1 } := by
  intro host options s report
  have hby : ByExec {} options := ⟨rfl, rfl⟩
  have hstart : Streamed host {} false (start host {}) := .start
  have hs : Streamed host {} true s :=
    (hstart.command "SEND 'A'" hby).turnedOver rfl ⟨[], build_holdsStream⟩
  refine ⟨hs, hby, ?_⟩
  decide +kernel

end Sim
end TsoBridge
