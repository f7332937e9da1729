/-
What a session has allocated lies over the DDs it found. On a host that
allocates under the names asked for and frees what it is asked to free
(`Obliging`), the DD table without the live names is the table the session
started with, whatever the operations in between were and however they
failed (`Overlays`). So freeing every live binding at the end gives that
table back (`releaseAll_restores`).

A free has to be posted with a capability, so the invariant also says that
a session with a live name knows a capability requests go with: that of the
allocation the name came from, because what is known about the environment
stays known.
-/
import TsoBridge.Proofs.FirstAnswer
import TsoBridge.Proofs.Sim.Rest
import TsoBridge.Proofs.Unmasked

namespace TsoBridge.Sim

open Session
open Bindings (Postable)
open Environment (verdict)

variable {α : Type} {host : SimHost} {settings : Settings} {s t : Session SimHost} {found : DdTable}

-- ============================================================== the table

namespace DdTable

/-- Names may be taken out in any order. -/
theorem without_comm (table : DdTable) (ddname other : String) :
    (table.without ddname).without other = (table.without other).without ddname :=
  DdTable.ext (congrArg Table.mk (List.filter_comm _ _ _)) rfl

/-- The table without the DDs of some names. -/
def strike (table : DdTable) (names : List DdName) : DdTable :=
  names.foldl (fun table name => table.without name.text) table

theorem strike_cons (table : DdTable) (name : DdName) (names : List DdName) :
    table.strike (name :: names) = (table.without name.text).strike names :=
  rfl

/-- The order of the names does not matter. -/
theorem strike_perm {names others : List DdName} (h : names.Perm others) (table : DdTable) :
    table.strike names = table.strike others := by
  have : RightCommutative fun (table : DdTable) (name : DdName) => table.without name.text :=
    ⟨fun table name other => without_comm table name.text other.text⟩
  exact h.foldl_eq table

end DdTable

-- ========================================================== the invariant

/-- The host allocates under the names asked for and frees what it is asked
to free. -/
structure Obliging (host : SimHost) : Prop where
  reply : host.reply = .requested
  accepts : host.freeFailure = none
  offers : (host.modules.get? "TSODFRE").isSome = true

/-- Without the live names the DD table is `found`; and where there is a
live name, requests go with the capability that is known. -/
structure Overlays (found : DdTable) (s : Session SimHost) : Prop where
  struck : s.host.dds.strike s.bindings.liveNames = found
  posts : s.bindings.liveNames ≠ [] → ∃ capability,
    verdict s.environment.state = some (.ok capability) ∧ ParmList.marked capability.cppl = false

/-- At the start nothing lies over the table. -/
theorem overlays_start (host : SimHost) (settings : Settings) :
    Overlays host.dds (start host settings) :=
  ⟨rfl, fun h => absurd rfl h⟩

/-- The same DDs and live names, and what was known is known. -/
theorem Overlays.same (h : Overlays found s) (hdds : SameDds (parts s) (parts t))
    (hknown : s.environment.state ≠ .unknown → t.environment = s.environment) :
    Overlays found t := by
  have hlive : t.bindings.liveNames = s.bindings.liveNames := congrArg Table.keys hdds.2
  refine ⟨?_, fun hsome => ?_⟩
  · rw [hlive]
    exact (congrArg (DdTable.strike · _) hdds.1).trans h.struck
  · rw [hlive] at hsome
    obtain ⟨capability, hverdict, hunmarked⟩ := h.posts hsome
    rw [hknown (Environment.decides_of_verdict hverdict).1]
    exact ⟨capability, hverdict, hunmarked⟩

/-- An operation that deals with the environment as it may and leaves DDs
and live names alone. -/
theorem Overlays.dealt (h : Overlays found s) (hdds : SameDds (parts s) (parts t))
    (hdealt : Dealt s t) : Overlays found t :=
  h.same hdds fun hknown => (hdealt.known hknown).1

-- ================================================================= frees

/-- What a free needs to go through. -/
structure Freeing (capability : Capability) (s : Linkage SimHost × Bindings) : Prop where
  resting : Resting s.1
  sound : Sound s
  frees : Frees s.1
  unmarked : ParmList.marked capability.cppl = false

/-- A session of an obliging host can free with a capability requests go
with. -/
theorem freeing_parts (hs : Reachable Touched host settings s) (hobliging : Obliging host)
    {capability : Capability} (hunmarked : ParmList.marked capability.cppl = false) :
    Freeing capability (parts s) where
  resting := reachable_resting hs
  sound := reachable_sound hs hobliging.reply
  frees := reachable_frees hs hobliging.accepts hobliging.offers
  unmarked := hunmarked

section Freeing

variable {capability : Capability} {p : Linkage SimHost × Bindings} {name : DdName}

/-- There is room for a request to free. -/
theorem Freeing.postable (h : Freeing capability p) :
    Postable capability p.1.storage.openFrame :=
  ⟨h.resting.room, h.unmarked⟩

/-- Then a free takes the name out of the live names and its DD out of the
table, and the next free will go through as well. -/
theorem Freeing.free (h : Freeing capability p) (hlive : p.2.isLive name = true) :
    (Bindings.free capability name).Ends p fun _ q => Freeing capability q
      ∧ q.2 = p.2.without name ∧ q.1.host.dds = p.1.host.dds.without name.text := by
  have huses : (Bindings.free capability name : Op (Linkage SimHost × Bindings) _).Uses
      Prod.fst (fun _ => True) fun _ => True := Bindings.uses_free trivial capability name
  have hrestful : (Bindings.free capability name : Op (Linkage SimHost × Bindings) _).Fulfils
      restful Prod.fst fun _ => True :=
    (Bindings.meets_free served_restful .any (fun _ _ => trivial) capability name).fulfils
  refine ⟨⟨h.resting.kept (conserved_of_restful hrestful h.resting), (agreed_free capability name p h.sound).given,
    h.frees.reach (huses p h.resting.named).1, h.unmarked⟩, ?_⟩
  rcases free_ends h.resting.named h.resting.wellFormed hlive capability with ⟨hmissing, -⟩ | ⟨hgone, hdds | ⟨-, hnot⟩⟩
  · rw [h.frees.finds] at hmissing
    cases hmissing
  · exact ⟨hgone, hdds⟩
  · exact absurd ⟨h.frees.accepts, h.postable⟩ hnot

/-- Nothing goes wrong when a binding is released. -/
theorem Freeing.release (h : Freeing capability p) (hlive : p.2.isLive name = true) :
    (Bindings.release capability name).Ends p fun r q => r = .ok none
      ∧ Freeing capability q ∧ q.2 = p.2.without name
      ∧ q.1.host.dds = p.1.host.dds.without name.text := by
  have hlookup := h.sound.backed.allocated name hlive
  refine ⟨?_, ?_⟩
  · have hanswer := release_answers h.sound.ready h.frees.offers hlive h.postable hlookup
    rw [h.frees.accepts] at hanswer
    exact hanswer
  · rw [Bindings.release_snd]
    exact h.free hlive

/-- Releasing live names strikes them off the table. -/
theorem Freeing.releaseEach {names : List DdName} (h : Freeing capability p)
    (hnodup : names.Nodup) (hlive : ∀ name ∈ names, p.2.isLive name = true) :
    (Bindings.releaseEach capability names).Ends p fun r q =>
      r = .ok [] ∧ q.1.host.dds = p.1.host.dds.strike names := by
  induction names generalizing p with
  | nil => exact ⟨rfl, rfl⟩
  | cons name rest ih =>
      obtain ⟨hfresh, hnodup⟩ := List.nodup_cons.mp hnodup
      refine (h.release (hlive name List.mem_cons_self)).bind (fun failure q hq => ?_)
        fun _ _ hq => by cases hq.1
      obtain ⟨hnone, hfreeing, hgone, hdds⟩ := hq
      cases hnone
      -- the names behind are others, so they are live still
      have hstill : ∀ other ∈ rest, q.2.isLive other = true := by
        intro other hother
        have hne : other ≠ name := fun heq => hfresh (heq ▸ hother)
        rw [hgone]
        show (p.2.live.erase name).contains other = true
        rw [Table.contains_erase, Bool.and_eq_true, decide_eq_true_eq]
        exact ⟨hlive other (List.mem_cons_of_mem _ hother), hne⟩
      refine (ih hfreeing hnodup hstill).bind (fun failures u hu => ?_) fun _ _ hu => by cases hu.1
      obtain ⟨hnone, hstruck⟩ := hu
      cases hnone
      refine ⟨rfl, hstruck.trans ?_⟩
      rw [hdds, DdTable.strike_cons]

end Freeing

-- ============================================================ operations

/-- Unless it traps, the operation leaves the table `found` with the live
names over it. -/
def Lays (found : DdTable) (x : Op (Session SimHost) α) (s : Session SimHost) : Prop :=
  x.Ends s fun r t => r ≠ .error .trap → Overlays found t

/-- Messages and pending failures have nothing to do with the table. -/
theorem lays_message (h : Overlays found s) (text : String) (level : MessageLevel) :
    Lays found (message text level) s :=
  fun _ => ⟨h.struck, h.posts⟩

theorem lays_takeFailures (h : Overlays found s) : Lays found takeFailures s :=
  fun _ => ⟨h.struck, h.posts⟩

section Operations

variable (hs : Reachable Touched host settings s) (hobliging : Obliging host)
include hs

/-- Establishing allocates nothing; what it grants is known from then on. -/
theorem overlays_establish (h : Overlays found s) :
    (establish : Op (Session SimHost) Capability).Ends s fun r t => Overlays found t
      ∧ ∀ capability, r = .ok capability → verdict t.environment.state = some (.ok capability) := by
  have hreach : Linkage.Reach Elsewhere s.linkage (establish s).2.linkage :=
    (uses_onEnvironment (Environment.uses_establish ⟨by decide, by decide⟩) s hs.named).1
  have hdealt : Dealt s (s.after .establish) := dealt_after hs.named fun _ => nofun
  refine ⟨h.dealt ⟨reach_elsewhere hreach, rfl⟩ hdealt, fun capability hr => ?_⟩
  rw [← hr]
  exact establish_decides (.inl ⟨capability, hr⟩)

include hobliging

/-- A command brings its own DD and takes it away again. -/
theorem lays_run (h : Overlays found s) (text : String) (options : CommandOptions) :
    Lays found (run text options) s := by
  have hsame := run_sameDds hs hobliging.reply hobliging.accepts hobliging.offers text options
  have hdealt : Dealt s (s.after (.run text options)) := dealt_after hs.named fun _ => nofun
  exact fun hgoes => h.dealt (hsame hgoes) hdealt

/-- An allocation lays its name over the table, or it leaves the table
alone. -/
theorem lays_allocate (h : Overlays found s) (request : AllocationRequest) :
    Lays found (allocate request) s := by
  have hu : Reachable Touched host settings (establish s).2 := hs.tail (.establish s)
  rcases hestablish : establish s with ⟨fault | capability, u⟩
  · unfold Lays Op.Ends allocate
    rw [Op.run_bind_of_fault hestablish]
    exact fun _ => ((overlays_establish hs h).fault hestablish).1
  rw [hestablish] at hu
  obtain ⟨hover, hverdict⟩ := (overlays_establish hs h).ok hestablish
  have hsound := reachable_sound hu hobliging.reply
  refine Op.Ends.bind_of_ok hestablish ?_
  have hends : (Bindings.allocate capability request).Ends (parts u)
      (Allocated capability request (parts u)) :=
    allocate_ends hsound.ready.named hsound.ready.wellFormed hsound.ready.reply capability request
  refine hends.on fun r p hp _ => ?_
  rcases hp with ⟨-, hsame⟩ | ⟨name, -, -, hentered, hlive, hpostable, -⟩
  · exact hover.same hsame fun _ => rfl
  · refine ⟨?_, fun _ => ⟨capability, hverdict capability rfl, hpostable.2⟩⟩
    have hperm : p.2.liveNames.Perm (name :: u.bindings.liveNames) := by
      show p.2.live.keys.Perm _
      rw [hlive]
      exact Table.keys_insert_perm () (hsound.backed.fresh hentered)
    calc p.1.host.dds.strike p.2.liveNames
      _ = (p.1.host.dds.without name.text).strike u.bindings.liveNames := DdTable.strike_perm hperm _
      _ = u.host.dds.strike u.bindings.liveNames := by rw [hentered.undone]; rfl
      _ = found := hover.struck

/-- The capability of a session with a live name. -/
theorem Overlays.freeing (h : Overlays found s) {name : DdName}
    (hlive : s.bindings.isLive name = true) : ∃ capability,
      establish s = (.ok capability, s) ∧ Freeing capability (parts s) := by
  obtain ⟨capability, hverdict, hunmarked⟩ :=
    h.posts (List.ne_nil_of_mem (Table.mem_keys.mpr hlive))
  exact ⟨capability, establish_known hverdict, freeing_parts hs hobliging hunmarked⟩

/-- A free takes its name and the DD away, or nothing. -/
theorem lays_free (h : Overlays found s) (name : DdName) : Lays found (free name) s := by
  refine Op.ends_gets_bind ?_
  by_cases hlive : s.bindings.isLive name = true
  · rw [hlive, if_neg (by decide)]
    obtain ⟨capability, hestablish, hfreeing⟩ := h.freeing hs hobliging hlive
    refine Op.Ends.bind_of_ok hestablish ?_
    refine (hfreeing.free hlive).on fun r p hp _ => ?_
    obtain ⟨-, hgone, hdds⟩ := hp
    have hperm : s.bindings.liveNames.Perm (name :: p.2.liveNames) := by
      rw [hgone]
      exact Table.keys_erase_perm hfreeing.sound.backed.distinct (Table.mem_keys.mpr hlive)
    refine ⟨?_, fun _ => h.posts (List.ne_nil_of_mem (Table.mem_keys.mpr hlive))⟩
    calc p.1.host.dds.strike p.2.liveNames
      _ = s.host.dds.strike (name :: p.2.liveNames) := by rw [hdds]; rfl
      _ = s.host.dds.strike s.bindings.liveNames := (DdTable.strike_perm hperm _).symm
      _ = found := h.struck
  · rw [if_pos (by simpa using hlive)]
    exact fun _ => h

/-- Freeing every live binding gives the table back. -/
theorem releaseAll_restores (h : Overlays found s) :
    (releaseAll : Op (Session SimHost) (List Error)).Ends s fun r t =>
      r = .ok [] ∧ t.host.dds = found := by
  have hstruck := h.struck
  refine Op.ends_gets_bind ?_
  cases hnames : s.bindings.liveNames with
  | nil =>
      rw [hnames] at hstruck
      exact ⟨rfl, hstruck⟩
  | cons first rest =>
      rw [if_neg (by simp)]
      have hlive : ∀ name ∈ s.bindings.liveNames, s.bindings.isLive name = true :=
        fun _ => Table.mem_keys.mp
      obtain ⟨capability, hestablish, hfreeing⟩ :=
        h.freeing hs hobliging (hlive first (hnames ▸ List.mem_cons_self))
      refine Op.Ends.bind_of_ok (Op.run_attempt_of_ok hestablish) ?_
      have hall : (onBindings (Bindings.releaseAll capability)).Ends s fun r t =>
          r = .ok [] ∧ t.host.dds = found :=
        (Op.ends_gets_bind (hfreeing.releaseEach hfreeing.sound.backed.distinct hlive)).on
          fun r p hp => ⟨hp.1, hp.2.trans hstruck⟩
      refine hall.bind (fun failures u hu => ?_) fun _ _ hu => by cases hu.1
      obtain ⟨hnone, hdds⟩ := hu
      cases hnone
      exact ⟨rfl, hdds⟩

end Operations

end TsoBridge.Sim
