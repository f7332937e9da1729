/-
What is allocated, over the life of a session. However its operations end
and whatever is done to the host's datasets and DDs in between, every live
binding of a session is a DD of its host (`live_bindings_allocated`). So
an allocation that succeeds cannot have returned a name that was live, and
no two live bindings share one.

A command brings its own DD and takes it away again. On a host that frees
what it is asked to free, a command that does not trap leaves the DD table
and the live bindings it found, also where it fails between the allocation
and the free (`command_leaves_dds`).
-/
import TsoBridge.Proofs.Sim.Agreement

namespace TsoBridge.Sim

open Session
open DdTable (Entered)

variable {α : Type} {host after : SimHost} {settings : Settings} {s t : Session SimHost}

-- ============================================================ operations

/-- Linkage and bindings of a session. -/
def parts (s : Session SimHost) : Linkage SimHost × Bindings :=
  (s.linkage, s.bindings)

/-- The modules of a command are neither allocation nor free. -/
theorem elsewhere_prepare : ∀ module ∈ Invocation.prepareModules, Elsewhere module := by
  unfold Elsewhere
  decide

theorem elsewhere_route (route : Route) : Elsewhere route.module := by
  cases route
  · exact ⟨by decide, by decide⟩
  · exact ⟨by decide, by decide⟩

/-- Moves to other modules, by an operation beside the bindings. -/
theorem tidy_onLinkage {value : α → Prop} {x : Op (Linkage SimHost) α}
    (h : x.Uses id Elsewhere value) : (onLinkage x).Fulfils tidying parts value :=
  tidy_of_uses (uses_onLinkage h) fun _ => rfl

theorem tidy_onCapture {value : α → Prop} {x : Op (Linkage SimHost × ExecCapture) α}
    (h : x.Uses Prod.fst Elsewhere value) : (onCapture x).Fulfils tidying parts value :=
  tidy_of_uses (uses_onCapture h) fun _ => rfl

/-- What is tidy on linkage and bindings is tidy in the session. -/
theorem tidy_onBindings {value : α → Prop} {x : Op (Linkage SimHost × Bindings) α}
    (h : x.Fulfils tidying id value) : (onBindings x).Fulfils tidying parts value :=
  fun s hs => (h (parts s) hs).on fun _ _ ht => ht

/-- Failures are noted beside both. -/
theorem tidy_note (failures : List Error) :
    (note failures : Op (Session SimHost) Unit).Fulfils tidying parts fun _ => True :=
  tidy_of_uses (uses_note failures) fun _ => rfl

/-- The environment service allocates nothing. -/
theorem tidy_establish :
    (establish : Op (Session SimHost) Capability).Fulfils tidying parts fun _ => True :=
  tidy_of_uses (uses_onEnvironment (Environment.uses_establish ⟨by decide, by decide⟩))
    fun _ => rfl

/-- The parts of a command are tidy. -/
theorem commanded_tidy (route : Route) (text : String) :
    Commanded tidying parts (id : SimHost → SimHost) (fun _ => True) route text where
  resolve := meets_self (tidy_onLinkage (Invocation.uses_resolve route).any)
  bound capability := by
    have hbound := tidy_onBindings (tidy_withBinding capability none
      (uses_captured elsewhere_prepare (elsewhere_route route) capability text)
      (keeps_captured onlyWrites_prepare (onlyWrites route.ne_environment) capability text))
    exact meets_self (hbound.knowing fun _ _ released _ => Op.tried_any released.result)
  note failures := meets_self (tidy_note failures)
  uncaptured capability := meets_self (tidy_onLinkage
    (Invocation.uses_run elsewhere_prepare (elsewhere_route route) capability text none))
  exec capability := meets_self (tidy_onCapture
    (ExecCapture.uses_run ⟨by decide, by decide⟩ capability text))
  command _ := trivial

/-- Commands are tidy. -/
theorem tidy_run (text : String) (options : CommandOptions) :
    (run text options : Op (Session SimHost) CommandOutcome).Fulfils tidying parts
      fun _ => True :=
  (meets_run (commanded_tidy _ _) (meets_self tidy_establish) fun _ => trivial).fulfils

/-- What is tidy keeps agreement. -/
theorem agreed_of_tidy {x : Op (Session SimHost) α}
    (h : x.Fulfils tidying parts fun _ => True) :
    Session.Meets agreed parts (id : SimHost → SimHost) (fun _ => True) (fun _ => True) x x :=
  (meets_self h).via (fun _ => Iff.rfl) (fun _ _ => trivial) fun _ _ => trivial

/-- What keeps agreement does so in the session. -/
theorem agreed_onBindings {x : Op (Linkage SimHost × Bindings) α}
    (h : x.Fulfils agreed id fun _ => True) :
    Session.Meets agreed parts (id : SimHost → SimHost) (fun _ => True) (fun _ => True)
      (onBindings x) (onBindings x) :=
  meets_self fun s hs => (h (parts s) hs).on fun _ _ ht => ht

/-- The other operations keep agreement. -/
theorem tended_agreed : Tended agreed parts (id : SimHost → SimHost) fun _ => True where
  establish := agreed_of_tidy tidy_establish
  note failures := agreed_of_tidy (tidy_note failures)
  allocate capability request := agreed_onBindings (agreed_allocate capability request)
  free capability name := agreed_onBindings (agreed_free capability name)
  releaseAll capability := by
    have hall : Bindings.Meets agreed id (id : SimHost → SimHost) (fun _ => True) (fun _ => True)
        (Bindings.releaseAll capability) (Bindings.releaseAll capability) :=
      Bindings.meets_releaseAll fun name => Bindings.meets_self (agreed_free capability name)
    exact agreed_onBindings hall.fulfils
  unknown _ := trivial

-- ============================================================== sessions

/-- A DD that was there is there. -/
theorem Touched.lookup (h : Touched host after) {ddname : String}
    (hsome : (host.dds.lookup ddname).isSome = true) :
    (after.dds.lookup ddname).isSome = true := by
  cases h with
  | append h =>
      obtain ⟨dataset, _, h⟩ := Outcome.bind_ok h
      obtain ⟨longer, _, h⟩ := Outcome.bind_ok h
      cases h
      exact hsome
  | rotate h =>
      unfold SimHost.rotate at h
      simp only [bind, Except.bind] at h
      split at h
      · cases h
      · split at h
        · cases h
          exact hsome
        · cases h
          exact hsome
  | @defineDd defined dsname status h =>
      rcases DdTable.allocate_cases host.dds defined dsname status false with
        ⟨refusal, hrefused⟩ | ⟨dds, hallocated, hentered, -⟩
      · unfold SimHost.defineDd at h
        rw [hrefused] at h
        cases h
      · unfold SimHost.defineDd at h
        rw [hallocated] at h
        cases h
        by_cases hname : Text.upper ddname = Text.upper defined
        · have hself := hentered.lookup_self
          unfold DdTable.lookup at hself ⊢
          rwa [hname]
        · rw [hentered.lookup_ne hname]
          exact hsome

/-- Nothing of how the host was set up is touched. -/
theorem Touched.setup (h : Touched host after) :
    after.reply = host.reply ∧ after.freeFailure = host.freeFailure
      ∧ after.modules = host.modules := by
  rw [← h.scope]
  exact ⟨rfl, rfl, rfl⟩

/-- No step unsettles a sound session. -/
theorem step_sound (h : Step Touched s t) (hs : Sound (parts s)) : Sound (parts t) := by
  cases h with
  | run text options => exact (tidy_run text options s hs).given
  | allocate request => exact ((meets_allocate tended_agreed request).fulfils s hs).given
  | free name => exact ((meets_free tended_agreed name).fulfils s hs).given
  | releaseAll => exact ((meets_releaseAll tended_agreed).fulfils s hs).given
  | message text level =>
      have htidy : (message text level).Fulfils tidying parts fun _ => True :=
        tidy_of_uses (uses_message text level) fun _ => rfl
      exact (htidy s hs).given
  | takeFailures => exact hs
  | establish => exact (tidy_establish s hs).given
  | adopt cppl => exact hs
  | touch htouched =>
      exact ⟨⟨hs.ready.named, hs.ready.wellFormed, htouched.setup.1.trans hs.ready.reply⟩,
        hs.backed.grow fun _ => htouched.lookup⟩

/-- Engine and host of a reachable session agree. -/
theorem reachable_sound (h : Reachable Touched host settings s)
    (hreply : host.reply = .requested) : Sound (parts s) := by
  induction h with
  | refl =>
      refine ⟨⟨fun key entry hget => ?_, Storage.wellFormed_empty, hreply⟩, ?_, List.nodup_nil⟩
      · cases hget
      · intro name hlive
        cases hlive
  | tail _ hstep ih => exact step_sound hstep ih

/-- On a host that frees what it is asked to free, a command that goes on
changes neither DDs nor bindings. -/
theorem run_sameDds (hs : Reachable Touched host settings s) (hreply : host.reply = .requested)
    (hfailure : host.freeFailure = none)
    (hpresent : (host.modules.get? "TSODFRE").isSome = true) (text : String)
    (options : CommandOptions) :
    (run text options).Ends s fun r t => r ≠ .error .trap → SameDds (parts s) (parts t) :=
  (tidy_run text options s (reachable_sound hs hreply)).mono fun _ _ hkept hgoes =>
    (hkept.keeps hgoes (reachable_frees hs hfailure hpresent)).2

-- =============================================================== theorems

/-- Every live binding is a DD of the host and no name is live twice, so
an allocation that succeeds returns a name that was neither live nor that
of a DD, and makes it live. -/
theorem live_bindings_allocated (hs : Reachable Touched host settings s)
    (hreply : host.reply = .requested) :
    (∀ name ∈ s.bindings.liveNames, (s.host.dds.lookup name.text).isSome = true)
      ∧ s.bindings.liveNames.Nodup
      ∧ ∀ request name result t, allocate request s = (.ok (name, result), t) →
        name ∉ s.bindings.liveNames ∧ s.host.dds.lookup name.text = none
          ∧ t.bindings.liveNames.Perm (name :: s.bindings.liveNames) := by
  have hsound := reachable_sound hs hreply
  refine ⟨fun name hname => ?_, hsound.backed.distinct, fun request name result t hrun => ?_⟩
  · exact hsound.backed.allocated name (Table.mem_keys.mp hname)
  · obtain ⟨capability, u, hestablish, hallocate⟩ := Op.bind_ok hrun
    have hreach : Linkage.Reach Elsewhere s.linkage u.linkage :=
      ((uses_onEnvironment (Environment.uses_establish ⟨by decide, by decide⟩) s
        hsound.ready.named).ok hestablish).1
    have hbindings : u.bindings = s.bindings := by
      have hkept : (establish s).2.bindings = s.bindings := rfl
      rwa [hestablish] at hkept
    have hdds : u.linkage.host.dds = s.host.dds := reach_elsewhere hreach
    have hready := hsound.ready.reach hreach
    obtain ⟨p, hp, rfl⟩ := Op.on_ok hallocate
    have hends := allocate_ends (s := (u.linkage, u.bindings)) hready.named hready.wellFormed
      hready.reply capability request
    rcases hends.ok hp with ⟨⟨_, hfault⟩, -⟩ | ⟨_, _, hok, hentered, hlive, -⟩
    · cases hfault
    · cases hok
      rw [hdds] at hentered
      rw [hbindings] at hlive
      have hnew := hsound.backed.fresh hentered
      refine ⟨hnew, hentered.new, ?_⟩
      show p.2.live.keys.Perm _
      rw [hlive]
      exact Table.keys_insert_perm () hnew

/-- Beside a generated name, a name asked for. -/
theorem live_bindings_allocated_hinted :
    let host := SimHost.build {} noon
    let s := (allocate (.temporary none) (start host {})).2
    let work : DdName := { text := "WORK" }
    let result : AllocationResult :=
      { serviceRc := 0, reasonCode := 0, catalogRc := 0, secondaryFlags := 0, assignedName := "WORK" }
    Reachable Touched host {} s ∧ host.reply = .requested
      ∧ (∀ name ∈ s.bindings.liveNames, (s.host.dds.lookup name.text).isSome = true)
      ∧ s.bindings.liveNames = [{ text := "LUZ00001" }]
      ∧ ∃ t, allocate (.temporary (some "work")) s = (.ok (work, result), t)
        ∧ s.host.dds.lookup work.text = none
        ∧ t.bindings.liveNames.Perm (work :: s.bindings.liveNames) := by
  intro host s work result
  have hs : Reachable Touched host {} s := Relation.ReflTransGen.single (Step.allocate _ _)
  have ⟨hfst, hone⟩ : (allocate (.temporary (some "work")) s).1 = .ok (work, result)
      ∧ s.bindings.liveNames = [{ text := "LUZ00001" }] := by
    decide +kernel
  obtain ⟨t, hrun⟩ := Op.ends_of_fst hfst
  obtain ⟨hall, -, hallocate⟩ := live_bindings_allocated hs rfl
  obtain ⟨-, hnew, hperm⟩ := hallocate _ work result t hrun
  exact ⟨hs, rfl, hall, hone, t, hrun, hnew, hperm⟩

/-- A command that does not trap leaves the DD table and the live bindings
it found, on a host that frees what it is asked to free. -/
theorem command_leaves_dds (hs : Reachable Touched host settings s)
    (hreply : host.reply = .requested) (hfailure : host.freeFailure = none)
    (hpresent : (host.modules.get? "TSODFRE").isSome = true) (text : String)
    (options : CommandOptions) :
    (run text options).Ends s fun r t => r ≠ .error .trap →
      t.host.dds = s.host.dds ∧ t.bindings.live = s.bindings.live :=
  run_sameDds hs hreply hfailure hpresent text options

/-- A command that fails after its DD was allocated. -/
theorem command_leaves_dds_unprepared :
    let host := SimHost.build { prepareError := some (8, 4) } noon
    let s := start host {}
    let options : CommandOptions := { mode := some .direct }
    Reachable Touched host {} s ∧ host.reply = .requested ∧ host.freeFailure = none
      ∧ (host.modules.get? "TSODFRE").isSome = true
      ∧ (run "TIME" options s).1 = .error (.error (.invocationFailed .prepare 8 4 0))
      ∧ (run "TIME" options s).2.linkage.calls = ["IKJTSOEV", "TSODALC", "IKJEFTSI", "TSODFRE"]
      ∧ (run "TIME" options s).2.host.dds = s.host.dds
      ∧ (run "TIME" options s).2.bindings.live = s.bindings.live := by
  intro host s options
  have hs : Reachable Touched host {} s := Relation.ReflTransGen.refl
  have hpresent : (host.modules.get? "TSODFRE").isSome = true := by decide +kernel
  have ⟨hfailed, hcalls⟩ :
      (run "TIME" options s).1 = .error (.error (.invocationFailed .prepare 8 4 0))
        ∧ (run "TIME" options s).2.linkage.calls
          = ["IKJTSOEV", "TSODALC", "IKJEFTSI", "TSODFRE"] := by
    decide +kernel
  obtain ⟨t, hrun⟩ := Op.ends_of_fst hfailed
  have hkept := (command_leaves_dds hs rfl rfl hpresent "TIME" options).fault hrun
  refine ⟨hs, rfl, rfl, hpresent, hfailed, hcalls, ?_⟩
  rw [hrun]
  exact hkept fun h => by cases h

end TsoBridge.Sim
