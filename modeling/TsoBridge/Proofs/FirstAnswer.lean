/-
What a session decides once. A host may answer differently each time it is
asked, and may leave anything in storage; a session asks it once for each
load module and once for the environment, and keeps to what it was told.

# Watching the look-ups

How often a host is asked to load a module cannot be read off a session,
so the host is watched: `Watched` stands in front of a host and writes down
every look-up with its answer. It is a map of hosts, so a watched session
is in every respect the session it watches, and its log is the log of that
session. The log and the module cache hold the same (`Recorded`).

# The environment

`Dealt` is what an operation may do to the environment: what is known stays
as it is, and no branch goes to the environment service; what is unknown
stays unknown, uncounted, or becomes known with one count. To deal so is a
contract (`dealing`), which every operation meets because establishing does
and nothing else branches to that service. Only taking a command processor
list from outside does something else, and it never makes the environment
unknown.
-/
import TsoBridge.Proofs.Session
import TsoBridge.Proofs.Sim.Host

namespace TsoBridge

variable {H : Type}

-- ========================================================= watched hosts

/-- A host with the look-ups it was asked for and its answers, the oldest
first. -/
structure Watched (H : Type) where
  host : H
  loads : List (String × Option EntryPoint) := []

instance [Host H] : Host (Watched H) where
  load watched module :=
    let (found, host) := Host.load watched.host module
    (found, { host, loads := watched.loads ++ [(module, found)] })
  call machine entry r1 :=
    let (r15, after) := Host.call (machine.mapHost Watched.host) entry r1
    (r15, { host := { machine.host with host := after.host }, storage := after.storage })
  openRecords watched ddname :=
    let (source, host) := Host.openRecords watched.host ddname
    (source, { watched with host })
  openStream watched ddname :=
    let (source, host) := Host.openStream watched.host ddname
    (source, { watched with host })
  putLine watched text level :=
    let (result, host) := Host.putLine watched.host text level
    (result, { watched with host })

namespace Watched

section

variable [Host H]

/-- To the engine a watched host is the host. -/
theorem maps (branches : String → Prop) : Host.Maps (Watched.host : Watched H → H) branches where
  load _ _ := rfl
  call _ _ _ _ := rfl
  openRecords _ _ := rfl
  openStream _ _ := rfl
  putLine _ _ _ := rfl

instance [Host.LoadsByName H] : Host.LoadsByName (Watched H) where
  named watched after module entry hupper hload := by
    refine Host.LoadsByName.named watched.host after.host module entry hupper ?_
    exact Prod.ext (congrArg Prod.fst hload :) (congrArg (fun answer => answer.2.host) hload)

end

/-- The log and the cache of a linkage hold the same look-ups, one for each
module, by its name in upper case. -/
structure Recorded (link : Linkage (Watched H)) : Prop where
  once : (link.host.loads.map Prod.fst).Nodup
  upper : ∀ key found, (key, found) ∈ link.host.loads → Text.upper key = key
  cached : ∀ key found, link.modules.get? key = some found ↔ (key, found) ∈ link.host.loads

variable {branches : String → Prop} {link after : Linkage (Watched H)}

/-- What looks no module up keeps the record. -/
theorem Recorded.same (h : Recorded link) (hloads : after.host.loads = link.host.loads)
    (hmodules : after.modules = link.modules) : Recorded after where
  once := by rw [hloads]; exact h.once
  upper := by rw [hloads]; exact h.upper
  cached := by rw [hloads, hmodules]; exact h.cached

/-- A look-up that the cache could not answer is added to both. -/
theorem Recorded.load {key : String} {found : Option EntryPoint} (h : Recorded link)
    (hloads : after.host.loads = link.host.loads ++ [(key, found)])
    (hmodules : after.modules = link.modules.insert key found)
    (hnew : link.modules.get? key = none) (hupper : Text.upper key = key) : Recorded after where
  once := by
    rw [hloads, List.map_append]
    refine List.nodup_append.mpr ⟨h.once, by simp, ?_⟩
    intro logged hlogged other hother
    obtain ⟨⟨_, answer⟩, hmem, rfl⟩ := List.mem_map.mp hlogged
    rw [List.mem_singleton.mp hother]
    rintro rfl
    rw [(h.cached _ answer).mpr hmem] at hnew
    cases hnew
  upper := by
    intro other answer hmem
    rw [hloads] at hmem
    rcases List.mem_append.mp hmem with hold | hlast
    · exact h.upper other answer hold
    · cases List.mem_singleton.mp hlast
      exact hupper
  cached := by
    intro other answer
    rw [hloads, hmodules, List.mem_append, ← h.cached]
    by_cases hkey : other = key
    · subst hkey
      rw [Table.get?_insert_self, hnew]
      simp [eq_comm]
    · rw [Table.get?_insert_ne _ _ hkey]
      simp [hkey]

variable [Host H]

/-- A move keeps log and cache together, and the log only grows. -/
theorem Recorded.move (h : Recorded link) (hmove : Linkage.Move branches link after) :
    Recorded after ∧ link.host.loads <+: after.host.loads := by
  cases hmove with
  | @load key found host hload hnew hupper _ =>
      have hloads : host.loads = link.host.loads ++ [(key, found)] := by
        obtain ⟨hfound, hhost⟩ := Prod.mk.inj hload
        rw [← hhost, ← hfound]
      exact ⟨h.load hloads rfl hnew hupper, by rw [hloads]; exact List.prefix_append _ _⟩
  | @branch entry r1 _ =>
      obtain ⟨hmodules, -, hmachine⟩ := Linkage.branch_modules entry r1 link
      have hloads : (Linkage.branch entry r1 link).2.host.loads = link.host.loads :=
        congrArg (fun machine => machine.host.loads) hmachine
      exact ⟨h.same hloads hmodules, [], by rw [hloads, List.append_nil]⟩
  | _ => exact ⟨h.same rfl rfl, List.prefix_refl _⟩

/-- So a run of moves keeps it, and adds to it. -/
theorem Recorded.reach (h : Recorded link) (hreach : Linkage.Reach branches link after) :
    Recorded after ∧ link.host.loads <+: after.host.loads := by
  induction hreach with
  | refl => exact ⟨h, List.prefix_refl _⟩
  | tail _ hmove ih =>
      obtain ⟨hrecorded, hgrown⟩ := ih.1.move hmove
      exact ⟨hrecorded, ih.2.trans hgrown⟩

end Watched

-- ================================================================= acts

namespace Session

/-- What a caller can make happen to a session: one of its operations, or
a change of the host between two of them. -/
inductive Act (H : Type) where
  | run (text : String) (options : CommandOptions)
  | allocate (request : AllocationRequest)
  | free (name : DdName)
  | releaseAll
  | message (text : String) (level : MessageLevel)
  | takeFailures
  | establish
  | adopt (cppl : Address)
  | touch (change : H → H)

variable [Host H]

/-- The session an act leaves, however it ended. -/
def after (s : Session H) : Act H → Session H
  | .run text options => (run text options s).2
  | .allocate request => (allocate request s).2
  | .free name => (free name s).2
  | .releaseAll => (releaseAll s).2
  | .message text level => (message text level s).2
  | .takeFailures => (takeFailures s).2
  | .establish => (establish s).2
  | .adopt cppl => (adopt cppl s).2
  | .touch change => { s with linkage := { s.linkage with host := change s.host } }

/-- The session several acts leave, done in their order. -/
def afterAll (s : Session H) (acts : List (Act H)) : Session H :=
  acts.foldl after s

/-- Acts may be done in two parts. -/
theorem afterAll_append (s : Session H) (acts later : List (Act H)) :
    s.afterAll (acts ++ later) = (s.afterAll acts).afterAll later :=
  List.foldl_append

/-- An act is a step of the session. -/
theorem step_after {touch : H → H → Prop} (s : Session H) (act : Act H)
    (htouch : ∀ change, act = .touch change → touch s.host (change s.host)) :
    Step touch s (s.after act) := by
  cases act with
  | run text options => exact .run s text options
  | allocate request => exact .allocate s request
  | free name => exact .free s name
  | releaseAll => exact .releaseAll s
  | message text level => exact .message s text level
  | takeFailures => exact .takeFailures s
  | establish => exact .establish s
  | adopt cppl => exact .adopt s cppl
  | touch change => exact .touch s (htouch change rfl)

-- ============================================================ watching

/-- An act under watch; a change of the host leaves the log alone. -/
def Act.watched : Act H → Act (Watched H)
  | .run text options => .run text options
  | .allocate request => .allocate request
  | .free name => .free name
  | .releaseAll => .releaseAll
  | .message text level => .message text level
  | .takeFailures => .takeFailures
  | .establish => .establish
  | .adopt cppl => .adopt cppl
  | .touch change => .touch fun watched => { watched with host := change watched.host }

/-- The session that several acts make of a host, under watch from its
start. -/
def watching (host : H) (settings : Settings) (acts : List (Act H)) : Session (Watched H) :=
  (start { host } settings).afterAll (acts.map Act.watched)

/-- The look-ups a host was asked for by several acts, and its answers. -/
def loadsOf (host : H) (settings : Settings) (acts : List (Act H)) :
    List (String × Option EntryPoint) :=
  (watching host settings acts).linkage.host.loads

variable [Host.LoadsByName H]

/-- Whatever is done, modules stay filed under their names. -/
theorem named_after {s : Session H} (hnamed : s.linkage.Named) (act : Act H) :
    (s.after act).linkage.Named := by
  have hstep : Step (fun _ _ => True) s (s.after act) := step_after s act fun _ _ => trivial
  exact hstep.named hnamed

/-- An act under watch does what it does without. -/
theorem mapHost_after {w : Session (Watched H)} (hnamed : w.linkage.Named) (act : Act H) :
    (w.after act.watched).mapHost Watched.host = (w.mapHost Watched.host).after act := by
  have hmaps : Host.Maps (Watched.host : Watched H → H) fun _ => True := Watched.maps _
  have hall : Supported fun _ => True := fun _ _ => trivial
  have htended := tended_moves hmaps hall
  cases act with
  | run text options =>
      exact (meets_run (commanded_moves hmaps hall trivial trivial _) htended.establish
        (fun _ => trivial) w hnamed).1.snd
  | allocate request => exact (meets_allocate htended request w hnamed).1.snd
  | free name => exact (meets_free htended name w hnamed).1.snd
  | releaseAll => exact (meets_releaseAll htended w hnamed).1.snd
  | message text level => exact (matches_message hmaps text level w).snd
  | takeFailures => rfl
  | establish => exact (htended.establish w hnamed).1.snd
  | adopt cppl => rfl
  | touch change => rfl

/-- What is kept of a watched session from act to act. -/
theorem recorded_after {w : Session (Watched H)} (hnamed : w.linkage.Named)
    (hrecorded : Watched.Recorded w.linkage) (act : Act H) :
    Watched.Recorded (w.after act.watched).linkage
      ∧ w.linkage.host.loads <+: (w.after act.watched).linkage.host.loads := by
  have hstep : Step (fun before after => after.loads = before.loads) w (w.after act.watched) := by
    refine step_after w act.watched fun change hchange => ?_
    cases act with
    | touch => cases hchange; rfl
    | _ => cases hchange
  rcases hstep.cases hnamed with ⟨text, options, hrun⟩ | hreach | ⟨host, hhost, hlinkage⟩
  · have hall : Supported fun _ => True := fun _ _ => trivial
    have hreach : Linkage.Reach (fun _ => True) w.linkage (Session.run text options w).2.linkage :=
      (uses_run hall trivial text trivial w hnamed).1
    rw [← hrun] at hreach
    exact hrecorded.reach hreach
  · exact hrecorded.reach hreach
  · rw [hlinkage]
    exact ⟨hrecorded.same hhost rfl, [], (List.append_nil _).trans hhost.symm⟩

/-- Several acts under watch do what they do without, and log and cache
stay together. -/
theorem watched_afterAll {w : Session (Watched H)} (hnamed : w.linkage.Named)
    (hrecorded : Watched.Recorded w.linkage) (acts : List (Act H)) :
    let last := w.afterAll (acts.map Act.watched)
    last.mapHost Watched.host = (w.mapHost Watched.host).afterAll acts
      ∧ last.linkage.Named ∧ Watched.Recorded last.linkage
      ∧ w.linkage.host.loads <+: last.linkage.host.loads := by
  induction acts generalizing w with
  | nil => exact ⟨rfl, hnamed, hrecorded, List.prefix_refl _⟩
  | cons act rest ih =>
      obtain ⟨hnext, hgrown⟩ := recorded_after hnamed hrecorded act
      obtain ⟨hmap, hlast, hkept, hmore⟩ := ih (named_after hnamed act.watched) hnext
      rw [mapHost_after hnamed] at hmap
      exact ⟨hmap, hlast, hkept, hgrown.trans hmore⟩

end Session

-- ====================================================== the environment

namespace Environment

/-- What a session is told about an environment that is known. -/
def verdict : EnvironmentState → Option (Outcome Capability)
  | .unknown => none
  | .ready capability _ => some (.ok capability)
  | .failed rc reason abend => some (fail (.environmentUnavailable rc reason abend))

/-- An outcome that says something about the environment: a capability, or
that there is none. -/
def Decides (r : Outcome Capability) : Prop :=
  (∃ capability, r = .ok capability)
    ∨ ∃ rc reason abend, r = fail (.environmentUnavailable rc reason abend)

/-- A verdict decides, and it is about a known environment. -/
theorem decides_of_verdict {state : EnvironmentState} {r : Outcome Capability}
    (h : verdict state = some r) : state ≠ .unknown ∧ Decides r := by
  cases state with
  | unknown => cases h
  | ready capability source =>
      cases h
      exact ⟨by simp, .inl ⟨capability, rfl⟩⟩
  | failed rc reason abend =>
      cases h
      exact ⟨by simp, .inr ⟨rc, reason, abend, rfl⟩⟩

/-- About a known environment there is a verdict. -/
theorem verdict_of_known {state : EnvironmentState} (h : state ≠ .unknown) :
    ∃ r, verdict state = some r := by
  cases state with
  | unknown => exact absurd rfl h
  | ready => exact ⟨_, rfl⟩
  | failed => exact ⟨_, rfl⟩

/-- At most one question was counted, and none before there was an
answer. -/
def Counted (environment : Environment) : Prop :=
  (environment.state = .unknown → environment.probes = 0) ∧ environment.probes ≤ 1

variable [Host H]

/-- What is known is told again, and nothing else happens. -/
theorem establish_known {s : Linkage H × Environment} {r : Outcome Capability}
    (h : verdict s.2.state = some r) : establish s = (r, s) := by
  obtain ⟨link, state, probes⟩ := s
  cases state with
  | unknown => cases h
  | ready => cases h; rfl
  | failed => cases h; rfl

/-- A discovery makes the environment known and counts, or it fails on the
way, with nothing said about the environment, and leaves it alone. -/
theorem discover_ends (s : Linkage H × Environment) :
    discover.Ends s fun r t =>
      (verdict t.2.state).isSome = true ∧ t.2.probes = s.2.probes + 1 ∧ r = .ok ()
        ∨ t.2 = s.2 ∧ ∃ fault, r = .error fault ∧ ¬Decides (.error fault) := by
  have hraises : (probe : Op (Linkage H) ProbeReport).Raises fun cause =>
      cause.isMechanical = true ∨ ∃ module, cause = .serviceUnavailable module := by
    refine (Linkage.raises_fetch (fun module => .inr ⟨module, rfl⟩) _).bind fun entry => ?_
    exact (posted_question entry).raises fun _ h => .inl h
  unfold Op.Ends discover
  rcases hprobe : probe s.1 with ⟨(cause | _) | report, link⟩
  · rw [Op.run_bind_of_ok (Op.run_attempt_of_error (Op.run_onFirst hprobe))]
    rcases hraises s.1 cause (congrArg Prod.fst hprobe) with hcause | ⟨module, rfl⟩
    · refine .inr ?_
      cases cause with
      | environmentUnavailable => cases hcause
      | serviceUnavailable => cases hcause
      | _ => exact ⟨rfl, _, rfl, by rintro (⟨_, h⟩ | ⟨_, _, _, h⟩) <;> cases h⟩
    · exact .inl ⟨rfl, rfl, rfl⟩
  · rw [Op.run_bind_of_fault (Op.run_attempt_of_trap (Op.run_onFirst hprobe))]
    exact .inr ⟨rfl, _, rfl, by rintro (⟨_, h⟩ | ⟨_, _, _, h⟩) <;> cases h⟩
  · rw [Op.run_bind_of_ok (Op.run_attempt_of_ok (Op.run_onFirst hprobe))]
    refine .inl ⟨?_, rfl, rfl⟩
    show (verdict (stateOf report)).isSome = true
    unfold stateOf
    split
    · rfl
    · rfl

/-- The first question about an unknown environment. -/
theorem establish_unknown {s : Linkage H × Environment} (h : s.2.state = .unknown) :
    establish.Ends s fun r t =>
      verdict t.2.state = some r ∧ t.2.probes = s.2.probes + 1
        ∨ t.2 = s.2 ∧ ∃ fault, r = .error fault ∧ ¬Decides (.error fault) := by
  obtain ⟨link, state, probes⟩ := s
  cases h
  refine Op.ends_gets_bind (Op.Ends.bind_of_ok (a := none) rfl ?_)
  refine (discover_ends (link, { state := .unknown, probes })).bind (fun _ t hmid => ?_)
    fun fault t hmid => ?_
  · rcases hmid with ⟨hknown, hprobes, -⟩ | ⟨-, fault, hfault, -⟩
    · obtain ⟨after, state', probes'⟩ := t
      cases state' with
      | unknown => cases hknown
      | ready => exact .inl ⟨rfl, hprobes⟩
      | failed => exact .inl ⟨rfl, hprobes⟩
    · cases hfault
  · rcases hmid with ⟨-, -, hfault⟩ | ⟨hsame, other, hfault, hnot⟩
    · cases hfault
    · cases hfault
      exact .inr ⟨hsame, fault, rfl, hnot⟩

end Environment

namespace Session

open Environment (verdict Decides Counted)
open Linkage.Terms (allows_byName)

/-- No branch went to the environment service. -/
def Unasked (link after : Linkage H) : Prop :=
  ∃ new, after.calls = link.calls ++ new ∧ "IKJTSOEV" ∉ new

theorem Unasked.refl (link : Linkage H) : Unasked link link :=
  ⟨[], (List.append_nil _).symm, List.not_mem_nil⟩

/-- Nobody was asked in either part. -/
theorem Unasked.trans {link middle after : Linkage H} (h : Unasked link middle)
    (h' : Unasked middle after) : Unasked link after := by
  obtain ⟨new, hnew, hnot⟩ := h
  obtain ⟨more, hmore, hnot'⟩ := h'
  refine ⟨new ++ more, by rw [hmore, hnew, List.append_assoc], fun hmem => ?_⟩
  exact (List.mem_append.mp hmem).elim hnot hnot'

/-- What an operation may do to the environment. -/
structure Dealt (s t : Session H) : Prop where
  known : s.environment.state ≠ .unknown →
    t.environment = s.environment ∧ Unasked s.linkage t.linkage
  unknown : s.environment.state = .unknown →
    t.environment = s.environment
      ∨ t.environment.state ≠ .unknown ∧ t.environment.probes = s.environment.probes + 1

instance : IsPreorder (Session H) Dealt where
  refl _ := ⟨fun _ => ⟨rfl, Unasked.refl _⟩, fun _ => .inl rfl⟩
  trans s t u h h' := by
    refine ⟨fun hs => ?_, fun hs => ?_⟩
    · obtain ⟨hsame, hunasked⟩ := h.known hs
      obtain ⟨hsame', hunasked'⟩ := h'.known (by rw [hsame]; exact hs)
      exact ⟨hsame'.trans hsame, hunasked.trans hunasked'⟩
    · rcases h.unknown hs with hsame | ⟨hknown, hprobes⟩
      · have hu := h'.unknown (by rw [hsame]; exact hs)
        rwa [hsame] at hu
      · rw [(h'.known hknown).1]
        exact .inr ⟨hknown, hprobes⟩

/-- To deal with the environment so counts one question at most. -/
theorem Dealt.counted {s t : Session H} (h : Dealt s t) (hs : Counted s.environment) :
    Counted t.environment := by
  by_cases hstate : s.environment.state = .unknown
  · rcases h.unknown hstate with hsame | ⟨hknown, hprobes⟩
    · rw [hsame]
      exact hs
    · have hnone := hs.1 hstate
      exact ⟨fun hunknown => absurd hunknown hknown, by omega⟩
  · rw [(h.known hstate).1]
    exact hs

/-- A command processor list from outside makes the environment known. -/
theorem adopt_known (s : Session H) (cppl : Address) :
    (adopt cppl s).2.environment.state ≠ .unknown := by
  show (.ready ⟨cppl⟩ .adopted : EnvironmentState) ≠ .unknown
  simp

variable [Host H]

/-- What a session knows, it tells at no cost. -/
theorem establish_known {s : Session H} {r : Outcome Capability}
    (h : verdict s.environment.state = some r) : establish s = (r, s) := by
  unfold establish onEnvironment Op.on
  rw [Environment.establish_known (s := (s.linkage, s.environment)) h]

/-- Whoever is told about the environment is told what is then known. -/
theorem establish_decides {s : Session H} (h : Decides (establish s).1) :
    verdict (establish s).2.environment.state = some (establish s).1 := by
  by_cases hstate : s.environment.state = .unknown
  · rcases Environment.establish_unknown (s := (s.linkage, s.environment)) hstate with
      ⟨hverdict, -⟩ | ⟨-, fault, hfault, hnot⟩
    · exact hverdict
    · change (establish s).1 = _ at hfault
      rw [hfault] at h
      exact absurd h hnot
  · obtain ⟨r, hverdict⟩ := Environment.verdict_of_known hstate
    rw [establish_known hverdict]
    exact hverdict

/-- Whoever is told nothing has left the environment as it was: unknown. -/
theorem establish_undecided {s : Session H} (h : ¬Decides (establish s).1) :
    s.environment.state = .unknown ∧ (establish s).2.environment = s.environment := by
  by_cases hstate : s.environment.state = .unknown
  · rcases Environment.establish_unknown (s := (s.linkage, s.environment)) hstate with
      ⟨hverdict, -⟩ | ⟨hsame, -⟩
    · exact absurd (Environment.decides_of_verdict hverdict).2 h
    · exact ⟨hstate, hsame⟩
  · obtain ⟨r, hverdict⟩ := Environment.verdict_of_known hstate
    rw [establish_known hverdict] at h
    exact absurd (Environment.decides_of_verdict hverdict).2 h

variable {α : Type}

/-- From a linkage of named modules, the environment is dealt with as it may
be. -/
abbrev dealing : Op.Contract (Session H) :=
  .keeping (fun s => s.linkage.Named) Dealt

/-- An operation that branches to other modules and leaves the environment
alone. -/
theorem dealing_of_uses {value : α → Prop} {x : Op (Session H) α}
    (huses : x.Uses linkage (· ≠ "IKJTSOEV") value)
    (hsame : ∀ s, (x s).2.environment = s.environment) :
    Meets dealing id (id : H → H) (fun _ => True) value x x := by
  have hfulfils : x.Fulfils dealing id value := by
    intro s hs
    obtain ⟨hreach, hvalue⟩ := huses s hs
    obtain ⟨new, hnew, hbranches⟩ := hreach.calls
    refine Op.Contract.kept_keeping (hreach.named hs) ⟨fun _ => ?_, fun _ => .inl (hsame s)⟩ hvalue
    exact ⟨hsame s, new, hnew, fun hmem => hbranches _ hmem rfl⟩
  exact meets_self hfulfils

/-- The environment is in none of the other parts of a session. -/
theorem dealing_onLinkage {value : α → Prop} {x : Op (Linkage H) α}
    (huses : x.Uses id (· ≠ "IKJTSOEV") value) :
    Meets dealing id (id : H → H) (fun _ => True) value (onLinkage x) (onLinkage x) :=
  dealing_of_uses (uses_onLinkage huses) fun _ => rfl

theorem dealing_onBindings {value : α → Prop} {x : Op (Linkage H × Bindings) α}
    (huses : x.Uses Prod.fst (· ≠ "IKJTSOEV") value) :
    Meets dealing id (id : H → H) (fun _ => True) value (onBindings x) (onBindings x) :=
  dealing_of_uses (uses_onBindings huses) fun _ => rfl

theorem dealing_onCapture {value : α → Prop} {x : Op (Linkage H × ExecCapture) α}
    (huses : x.Uses Prod.fst (· ≠ "IKJTSOEV") value) :
    Meets dealing id (id : H → H) (fun _ => True) value (onCapture x) (onCapture x) :=
  dealing_of_uses (uses_onCapture huses) fun _ => rfl

/-- Noting a failure asks nothing. -/
theorem dealing_note (failures : List Error) :
    Meets dealing id (id : H → H) (fun _ => True) (fun _ => True) (note failures)
      (note failures) :=
  dealing_of_uses (uses_note failures) fun _ => rfl

variable [Host.LoadsByName H]

/-- Establishing asks only where nothing is known. -/
theorem dealing_establish :
    Meets dealing id (id : H → H) (fun _ => True) (fun _ => True) establish establish := by
  have hfulfils : (establish : Op (Session H) Capability).Fulfils dealing id fun _ => True := by
    intro s hs
    have hnamed := (probes_establish s hs).1.named hs
    refine Op.Contract.kept_keeping hnamed ⟨fun hknown => ?_, fun hunknown => ?_⟩
      fun _ _ => trivial
    · obtain ⟨r, hverdict⟩ := Environment.verdict_of_known hknown
      have hsame : (establish s).2 = s := congrArg Prod.snd (establish_known hverdict)
      exact hsame.symm ▸ ⟨rfl, Unasked.refl _⟩
    · rcases Environment.establish_unknown (s := (s.linkage, s.environment)) hunknown with h | h
      · exact .inr ⟨(Environment.decides_of_verdict h.1).1, h.2⟩
      · exact .inl h.1
  exact meets_self hfulfils

/-- Work with a private DD does not ask for the environment. -/
theorem dealing_bound (capability : Capability) (route : Route) (text : String) :
    Meets dealing id (id : H → H) (fun _ => True)
      (fun released => Op.Tried (fun _ => True) (fun _ => True) released.result)
      (onBindings (Bindings.withBinding capability none (captured capability route text)))
      (onBindings (Bindings.withBinding capability none (captured capability route text))) := by
  have hwork : ∀ name, Linkage.MeetsBeside (.moves (· ≠ "IKJTSOEV")) (id : H → H) (fun _ => True)
      (fun _ => True)
      (Op.onFirst (captured capability route text name) : Op (Linkage H × Bindings) _)
      (Op.onFirst (captured capability route text name)) := fun name =>
    (meets_captured Linkage.served (fun module hmem => allows_byName
      (Invocation.prepare_ne_environment module hmem)) .any Error.Granting.any.toServing .any
      (allows_byName (route.ne_environment)) (fun _ _ _ _ _ => trivial) capability
      name).onFirst
  refine dealing_onBindings (Op.Meets.uses (Bindings.meets_withBinding ?_ hwork fun name => ?_))
  · exact Bindings.meets_allocate Linkage.served .any (allows_byName (by simp))
      (allows_byName (by simp)) capability _
  · exact Bindings.meets_free Linkage.served .any (allows_byName (by simp)) capability name

/-- Once the environment is established, a command does not ask for it. -/
theorem commanded_dealing (route : Route) (text : String) :
    Commanded dealing id (id : H → H) (fun _ => True) route text where
  resolve := dealing_onLinkage (Invocation.uses_resolve route).any
  bound capability := dealing_bound capability route text
  note := dealing_note
  uncaptured capability := dealing_onLinkage
    (Invocation.uses_run Invocation.prepare_ne_environment route.ne_environment capability text none)
  exec capability := dealing_onCapture (ExecCapture.uses_run (by simp) capability text)
  command _ := trivial

/-- Nor do the other operations. -/
theorem tended_dealing : Tended dealing id (id : H → H) fun _ => True where
  establish := dealing_establish
  note := dealing_note
  allocate capability request :=
    dealing_onBindings (Bindings.uses_allocate (by simp) (by simp) capability request)
  free capability name := dealing_onBindings (Bindings.uses_free (by simp) capability name)
  releaseAll capability := dealing_onBindings ((Op.uses_gets _).andThen fun names =>
    Bindings.uses_releaseEach (by simp) capability names)
  unknown _ := trivial

/-- An act that takes no command processor list from outside deals with the
environment as an operation may. -/
theorem dealt_after {s : Session H} (hnamed : s.linkage.Named) {act : Act H}
    (hact : ∀ cppl, act ≠ .adopt cppl) : Dealt s (s.after act) := by
  have hsame {t : Session H} (henvironment : t.environment = s.environment)
      (hcalls : t.linkage.calls = s.linkage.calls) : Dealt s t :=
    ⟨fun _ => ⟨henvironment, [], by rw [hcalls, List.append_nil], List.not_mem_nil⟩,
      fun _ => .inl henvironment⟩
  have hdealt {α : Type} {x : Op (Session H) α}
      (hx : Meets dealing id (id : H → H) (fun _ => True) (fun _ => True) x x) :
      Dealt s (x s).2 := (hx.fulfils s hnamed).stays
  cases act with
  | run text options =>
      exact hdealt (meets_run (commanded_dealing _ _) dealing_establish fun _ => trivial)
  | allocate request => exact hdealt (meets_allocate tended_dealing request)
  | free name => exact hdealt (meets_free tended_dealing name)
  | releaseAll => exact hdealt (meets_releaseAll tended_dealing)
  | establish => exact hdealt dealing_establish
  | adopt cppl => exact absurd rfl (hact cppl)
  | message => exact hsame rfl rfl
  | takeFailures => exact hsame rfl rfl
  | touch => exact hsame rfl rfl

-- ================================================================== runs

/-- No question is counted twice. -/
theorem counted_afterAll {s : Session H} (hnamed : s.linkage.Named)
    (hcounted : Counted s.environment) (acts : List (Act H)) :
    Counted (s.afterAll acts).environment := by
  induction acts generalizing s with
  | nil => exact hcounted
  | cons act rest ih =>
      refine ih (named_after hnamed act) ?_
      by_cases hact : ∃ cppl, act = .adopt cppl
      · obtain ⟨cppl, rfl⟩ := hact
        exact ⟨fun hunknown => absurd hunknown (adopt_known s cppl), hcounted.2⟩
      · exact (dealt_after hnamed fun cppl h => hact ⟨cppl, h⟩).counted hcounted

/-- What is known stays known and nobody is asked again; it stays as it is
until a command processor list is taken from outside. -/
theorem known_afterAll {s : Session H} (hnamed : s.linkage.Named)
    (hknown : s.environment.state ≠ .unknown) (acts : List (Act H)) :
    (s.afterAll acts).environment.state ≠ .unknown
      ∧ Unasked s.linkage (s.afterAll acts).linkage
      ∧ ((∀ cppl, Act.adopt cppl ∉ acts) → (s.afterAll acts).environment = s.environment) := by
  induction acts generalizing s with
  | nil => exact ⟨hknown, Unasked.refl _, fun _ => rfl⟩
  | cons act rest ih =>
      by_cases hact : ∃ cppl, act = .adopt cppl
      · obtain ⟨cppl, rfl⟩ := hact
        obtain ⟨hlast, hunasked, -⟩ := ih (s := s.after (.adopt cppl)) hnamed (adopt_known s cppl)
        exact ⟨hlast, hunasked, fun hnone => absurd List.mem_cons_self (hnone cppl)⟩
      · have hdealt := dealt_after hnamed fun cppl h => hact ⟨cppl, h⟩
        obtain ⟨hsame, hunasked⟩ := hdealt.known hknown
        obtain ⟨hlast, hunasked', hrest⟩ := ih (named_after hnamed act) (by rw [hsame]; exact hknown)
        refine ⟨hlast, hunasked.trans hunasked', fun hnone => ?_⟩
        have hnone' : ∀ cppl, Act.adopt cppl ∉ rest :=
          fun cppl hmem => hnone cppl (List.mem_cons_of_mem _ hmem)
        exact (hrest hnone').trans hsame

-- ============================================================= one answer

/-- What a host answered when it was asked for a module, as the engine
hears it. -/
def answerOf (key : String) : Option EntryPoint → Outcome EntryPoint
  | some entry => .ok entry
  | none => fail (.serviceUnavailable key)

omit [Host.LoadsByName H] in
/-- What was answered once is answered from the cache. -/
theorem fetch_of_cached {link : Linkage H} {module : String} {found : Option EntryPoint}
    (h : link.modules.get? (Text.upper module) = some found) :
    Linkage.fetch module link = (answerOf (Text.upper module) found, link) := by
  unfold Linkage.fetch
  simp only [h]
  cases found with
  | none => rfl
  | some entry => rfl

omit [Host H] [Host.LoadsByName H] in
theorem named_start (host : H) (settings : Settings) : (start host settings).linkage.Named :=
  fun _ _ hget => by cases hget

omit [Host H] [Host.LoadsByName H] in
/-- At the start nothing was looked up. -/
theorem recorded_start (host : H) (settings : Settings) :
    Watched.Recorded (start ({ host } : Watched H) settings).linkage where
  once := List.nodup_nil
  upper := fun _ _ hmem => absurd hmem List.not_mem_nil
  cached := by
    intro key found
    constructor
    · intro hget
      cases hget
    · intro hmem
      exact absurd hmem List.not_mem_nil

/-- After any acts, modules are filed under their names. -/
theorem named_afterAll {s : Session H} (hnamed : s.linkage.Named) (acts : List (Act H)) :
    (s.afterAll acts).linkage.Named := by
  induction acts generalizing s with
  | nil => exact hnamed
  | cons act rest ih => exact ih (named_after hnamed act)

/-- A watched session at any time: it is the session it watches, and its
log and its cache hold the same. -/
theorem watching_recorded (host : H) (settings : Settings) (acts : List (Act H)) :
    (watching host settings acts).mapHost Watched.host = (start host settings).afterAll acts
      ∧ (watching host settings acts).linkage.Named
      ∧ Watched.Recorded (watching host settings acts).linkage := by
  obtain ⟨hmap, hnamed, hkept, -⟩ :=
    watched_afterAll (named_start _ _) (recorded_start host settings) acts
  exact ⟨hmap, hnamed, hkept⟩

/-- The log only grows. -/
theorem loadsOf_grow (host : H) (settings : Settings) (acts later : List (Act H)) :
    loadsOf host settings acts <+: loadsOf host settings (acts ++ later) := by
  obtain ⟨-, hnamed, hrecorded⟩ := watching_recorded host settings acts
  have hgrown := (watched_afterAll hnamed hrecorded later).2.2.2
  have happend : watching host settings (acts ++ later)
      = (watching host settings acts).afterAll (later.map Act.watched) := by
    unfold watching
    rw [List.map_append, afterAll_append]
  unfold loadsOf
  rw [happend]
  exact hgrown

/-- What the log says of a module, every later look-up hears. -/
theorem fetch_of_loaded {host : H} {settings : Settings} {acts : List (Act H)} {key : String}
    {found : Option EntryPoint} (h : (key, found) ∈ loadsOf host settings acts)
    (later : List (Act H)) {module : String} (hmodule : Text.upper module = key) :
    let t := ((start host settings).afterAll acts).afterAll later
    Linkage.fetch module t.linkage = (answerOf key found, t.linkage) := by
  intro t
  obtain ⟨hmap, -, hrecorded⟩ := watching_recorded host settings (acts ++ later)
  have hlogged := (loadsOf_grow host settings acts later).subset h
  have ht : t = (watching host settings (acts ++ later)).mapHost Watched.host := by
    rw [hmap, afterAll_append]
  subst hmodule
  refine fetch_of_cached ?_
  rw [ht]
  exact (hrecorded.cached _ found).mpr hlogged

/-- The answers of a host are decided once. Take any host, which may answer
differently each time and leave anything in storage, any acts on a session
with it, and any acts later on.

Its log, taken beside the session without changing it, holds each module
once, under its name in upper case, and whoever looks a module up later, in
whatever letters, hears what the log says, at no cost. The environment is
asked for at most once with an answer, and an answer is never forgotten:
whoever establishes later is told the same, and the environment service is
not called again, until a command processor list is taken from outside.
From then on it is never called, and the list is what everybody is told. To
be told nothing, for want of storage or by a wild address, leaves the
environment unknown and the question uncounted. -/
theorem answers_decided_once (host : H) (settings : Settings) (acts later : List (Act H)) :
    let s := (start host settings).afterAll acts
    let log := loadsOf host settings acts
    (watching host settings acts).mapHost Watched.host = s
      ∧ (log.map Prod.fst).Nodup
      ∧ (∀ key found, (key, found) ∈ log → Text.upper key = key
          ∧ ∀ module, Text.upper module = key →
            Linkage.fetch module (s.afterAll later).linkage
              = (answerOf key found, (s.afterAll later).linkage))
      ∧ (s.afterAll later).environment.probes ≤ 1
      ∧ (s.environment.state ≠ .unknown → (s.afterAll later).environment.state ≠ .unknown)
      ∧ (∀ r t, establish s = (r, t) → Decides r → (∀ cppl, Act.adopt cppl ∉ later) →
          establish (t.afterAll later) = (r, t.afterAll later)
            ∧ Unasked t.linkage (t.afterAll later).linkage)
      ∧ (∀ cppl t, adopt cppl s = (.ok ⟨cppl⟩, t) →
          Unasked s.linkage (t.afterAll later).linkage
            ∧ ((∀ other, Act.adopt other ∉ later) →
              establish (t.afterAll later) = (.ok ⟨cppl⟩, t.afterAll later)))
      ∧ (∀ r t, establish s = (r, t) → ¬Decides r →
          t.environment = { state := .unknown, probes := 0 }) := by
  intro s log
  obtain ⟨hmap, -, hrecorded⟩ := watching_recorded host settings acts
  have hnamed : s.linkage.Named := named_afterAll (named_start host settings) acts
  have hcounted : Counted s.environment :=
    counted_afterAll (named_start host settings) ⟨fun _ => rfl, Nat.zero_le 1⟩ acts
  refine ⟨hmap, hrecorded.once, fun key found hmem => ?_, ?_, fun hknown => ?_,
    fun r t hrun hdecides hnone => ?_, fun cppl t hrun => ?_, fun r t hrun hundecided => ?_⟩
  · exact ⟨hrecorded.upper key found hmem, fun _ => fetch_of_loaded hmem later⟩
  · exact (counted_afterAll hnamed hcounted later).2
  · exact (known_afterAll hnamed hknown later).1
  · have hverdict := establish_decides (s := s) (by rw [hrun]; exact hdecides)
    have hnamed' := named_after hnamed .establish
    unfold after at hnamed'
    rw [hrun] at hverdict hnamed'
    obtain ⟨-, hunasked, hsame⟩ :=
      known_afterAll hnamed' (Environment.decides_of_verdict hverdict).1 later
    refine ⟨establish_known ?_, hunasked⟩
    rw [hsame hnone]
    exact hverdict
  · obtain rfl : (adopt cppl s).2 = t := congrArg Prod.snd hrun
    obtain ⟨-, hunasked, hsame⟩ :=
      known_afterAll (s := (adopt cppl s).2) hnamed (adopt_known s cppl) later
    refine ⟨hunasked, fun hnone => establish_known ?_⟩
    rw [hsame hnone]
    rfl
  · obtain ⟨hunknown, hsame⟩ := establish_undecided (s := s) (by rw [hrun]; exact hundecided)
    have hprobes := hcounted.1 hunknown
    rw [hrun] at hsame
    rw [hsame, ← hunknown, ← hprobes]

end Session

namespace Sim

open Session

/-- A host without the environment service, asked and found wanting: a
command later on does not ask again, in whatever letters, and a command
processor list from outside takes the place of the failure. -/
theorem answers_decided_once_missing :
    let host := SimHost.build (Options.withoutModule {} "IKJTSOEV") noon
    let acts : List (Act SimHost) := [.establish]
    let later : List (Act SimHost) := [.run "TIME" {}]
    let s := (start host {}).afterAll acts
    loadsOf host {} acts = [("IKJTSOEV", none)]
      ∧ Linkage.fetch "ikjtsoev" (s.afterAll later).linkage
        = (fail (.serviceUnavailable "IKJTSOEV"), (s.afterAll later).linkage)
      ∧ establish ((adopt 0x5000 s).2.afterAll later)
        = (.ok ⟨0x5000⟩, (adopt 0x5000 s).2.afterAll later) := by
  intro host acts later s
  have hlog : loadsOf host {} acts = [("IKJTSOEV", none)] := by decide +kernel
  obtain ⟨-, -, hfetch, -, -, -, hadopt, -⟩ := answers_decided_once host {} acts later
  have hmem : ("IKJTSOEV", none) ∈ loadsOf host {} acts := by rw [hlog]; exact List.mem_singleton_self _
  refine ⟨hlog, (hfetch _ none hmem).2 "ikjtsoev" (by decide +kernel), ?_⟩
  exact (hadopt 0x5000 _ rfl).2 fun other hother => by cases List.mem_singleton.mp hother

end Sim

end TsoBridge
