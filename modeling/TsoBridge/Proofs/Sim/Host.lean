/-
The simulated host under the moves of the engine and the steps of a
session. Every move keeps the storage well formed and changes nothing of
how the host was set up; one that branches to no execute service changes
nothing of the commands run, and one that does runs at most one. All are
facts about a single call, carried along runs of moves here and nowhere
else.

Between the operations of a session somebody may append to a dataset,
start a stream anew or define a DD (`Touched`).
-/
import TsoBridge.Proofs.Cause
import TsoBridge.Proofs.Session
import TsoBridge.Proofs.Sim.Command

namespace TsoBridge.Sim

instance : Host.LoadsByName SimHost where
  named host after module entry hupper hload := by
    obtain ⟨address, -, rfl⟩ := Option.map_eq_some_iff.mp (congrArg Prod.fst hload)
    exact hupper

-- ================================================================ reading

theorem datasetOf_error {host : SimHost} {ddname : String} {cause : Error}
    (h : host.datasetOf ddname = .error cause) : ∃ name flaw, cause = .readFailed name flaw := by
  unfold SimHost.datasetOf SimHost.dsnameOf at h
  simp only [bind, Except.bind] at h
  split at h
  · next hlookup =>
    split at hlookup
    · cases hlookup
    · cases hlookup
      cases h
      exact ⟨_, _, rfl⟩
  · split at h
    · cases h
    · cases h
      exact ⟨_, _, rfl⟩

/-- The simulated host fails with a read failure only. -/
theorem readsPlainly : Host.ReadsPlainly SimHost := by
  constructor
  · intro host ddname cause h
    change host.openRecords ddname = .error cause at h
    unfold SimHost.openRecords at h
    simp only [bind, Except.bind] at h
    split at h
    · next hdataset =>
      cases h
      exact datasetOf_error hdataset
    · split at h
      · cases h
      · cases h
        exact ⟨_, _, rfl⟩
      · cases h
  · intro host ddname source cause h hcause
    change host.openRecords ddname = .ok (some source) at h
    unfold SimHost.openRecords at h
    simp only [bind, Except.bind] at h
    split at h
    · cases h
    · split at h
      · split at h
        · cases h
          cases hcause
        · cases h
      · cases h
      · cases h
  · intro host ddname cause h
    change host.openStream ddname = .error cause at h
    unfold SimHost.openStream at h
    simp only [bind, Except.bind] at h
    split at h
    · next hdataset =>
      cases h
      exact datasetOf_error hdataset
    · split at h
      · cases h
        exact ⟨_, _, rfl⟩
      · cases h

variable {branches : String → Prop} {link after : Linkage SimHost}

-- ================================================================ moves

/-- What every call keeps, a run of moves keeps. -/
theorem reach_scope {scope : Scope} (h : Linkage.Reach branches link after)
    (hcall : ∀ m entry r1, branches entry.module →
      scope.Holds m (SimHost.call m entry r1).2)
    (hline : ∀ host lines, scope.keep host { host with terminal := lines }
      = { host with terminal := lines }) :
    scope.keep link.host after.host = after.host := by
  induction h with
  | refl => exact scope.same link.host
  | @tail middle last _ hmove ih =>
      have hstep : scope.keep middle.host last.host = last.host := by
        cases hmove with
        | @load key found host hload _ _ _ =>
            have hhost : middle.host = host := congrArg Prod.snd hload
            rw [hhost]
            exact scope.same host
        | putLine text level => exact hline _ _
        | @branch entry r1 hbranch =>
            have hmachine := (Linkage.branch_modules entry r1 middle).2.2
            show scope.keep middle.host (Linkage.branch entry r1 middle).2.toMachine.host
              = (Linkage.branch entry r1 middle).2.toMachine.host
            rw [hmachine]
            exact (hcall middle.toMachine entry r1 hbranch).1
        | _ => exact scope.same middle.host
      rw [← scope.absorb _ middle.host, ih]
      exact hstep

/-- No move changes how the host was set up. -/
theorem reach_setup (h : Linkage.Reach branches link after) :
    Scope.calls.keep link.host after.host = after.host :=
  reach_scope h (fun m entry r1 _ => call_setup m entry r1) fun _ _ => rfl

theorem reach_evalOverride (h : Linkage.Reach branches link after) :
    after.host.evalOverride = link.host.evalOverride := by
  rw [← reach_setup h]
  rfl

/-- Moves that branch to no execute service run no command. -/
theorem reach_quiet (h : Linkage.Reach Quiet link after) :
    Scope.quiet.keep link.host after.host = after.host :=
  reach_scope h (fun m _ r1 hbranch => call_quiet m r1 hbranch) fun _ _ => rfl

/-- Moves that branch to prepare modules only change nothing a command
sees. -/
theorem reach_unseen (h : Linkage.Reach (· ∈ Invocation.prepareModules) link after) :
    Scope.unseen.keep link.host after.host = after.host :=
  reach_scope h (fun m _ r1 hbranch => call_unseen m r1 hbranch) fun _ _ => rfl

/-- Moves that branch to the environment service only. -/
theorem reach_probing (h : Linkage.Reach (· = "IKJTSOEV") link after) :
    Scope.probing.keep link.host after.host = after.host :=
  reach_scope h (fun m _ r1 hbranch => call_probing m r1 hbranch) fun _ _ => rfl

/-- Moves that branch to other modules than its own leave the DD table
alone. -/
theorem reach_elsewhere (h : Linkage.Reach Elsewhere link after) :
    after.host.dds = link.host.dds := by
  have hkept : Scope.elsewhere.keep link.host after.host = after.host :=
    reach_scope h (fun m _ r1 hbranch => call_elsewhere m r1 hbranch) fun _ _ => rfl
  rw [← hkept]
  rfl

/-- Moves that branch to other modules than that of the environment leave
the host its command processor list. -/
theorem reach_unlisting (h : Linkage.Reach (· ≠ "IKJTSOEV") link after) :
    after.host.cppl = link.host.cppl := by
  have hkept : Scope.unlisting.keep link.host after.host = after.host :=
    reach_scope h (fun m _ r1 hbranch => call_unlisting m r1 hbranch) fun _ _ => rfl
  rw [← hkept]
  rfl

/-- A move runs no command, or one that a branch of it runs. -/
theorem move_executed (h : Linkage.Move branches link after) :
    after.host.executed = link.host.executed
      ∨ ∃ r1 module command, branches module ∧ Runs link.toMachine r1 module command
        ∧ after.host.executed = link.host.executed ++ [command] := by
  cases h with
  | @load key found host hload _ _ _ =>
      have hhost : link.host = host := congrArg Prod.snd hload
      exact .inl (by rw [hhost])
  | @branch entry r1 hbranch =>
      have hmachine := (Linkage.branch_modules entry r1 link).2.2
      show (Linkage.branch entry r1 link).2.toMachine.host.executed = _
        ∨ ∃ r1' module command, _ ∧ _
          ∧ (Linkage.branch entry r1 link).2.toMachine.host.executed = _
      rw [hmachine]
      refine (call_ranAtMostOne link.toMachine entry r1).imp_right ?_
      rintro ⟨command, hruns, hnoted⟩
      exact ⟨r1, entry.module, command, hbranch, hruns, hnoted⟩
  | _ => exact .inl rfl

/-- If every command that the branches of a run can run is allowed, those
it runs are. -/
theorem reach_executed {allowed : Command → Prop} (h : Linkage.Reach branches link after)
    (hruns : ∀ m r1 module command, m.host.authcmd = link.host.authcmd → branches module →
      Runs m r1 module command → allowed command) :
    ∃ new, after.host.executed = link.host.executed ++ new ∧ ∀ command ∈ new, allowed command := by
  induction h with
  | refl => exact ⟨[], (List.append_nil _).symm, fun _ h => absurd h List.not_mem_nil⟩
  | @tail middle last hreach hmove ih =>
      obtain ⟨new, hnew, hall⟩ := ih
      rcases move_executed hmove with hsame | ⟨r1, module, command, hbranch, hrun, hnoted⟩
      · exact ⟨new, hsame.trans hnew, hall⟩
      · have hauthcmd : middle.host.authcmd = link.host.authcmd := by
          rw [← reach_setup hreach]
          rfl
        refine ⟨new ++ [command], by rw [hnoted, hnew, List.append_assoc], fun c hc => ?_⟩
        rcases List.mem_append.mp hc with hold | hlast
        · exact hall c hold
        · rw [List.mem_singleton.mp hlast]
          exact hruns middle.toMachine r1 module command hauthcmd hbranch hrun

/-- Storage stays well formed. -/
theorem reach_wellFormed (h : Linkage.Reach branches link after)
    (hwf : link.storage.WellFormed) : after.storage.WellFormed :=
  h.wellFormed (fun m entry r1 _ hm => (call_setup m entry r1).2.wellFormed hm) hwf

-- ============================================================== touching

/-- What may happen to the host between two operations of a session. -/
inductive Touched : SimHost → SimHost → Prop where
  | append {host after : SimHost} {ddname line : String}
      (h : host.appendTo ddname line = .ok after) : Touched host after
  | rotate {host after : SimHost} {ddname : String}
      (h : host.rotate ddname = .ok after) : Touched host after
  | defineDd {host after : SimHost} {ddname dsname : String} {status : DatasetStatus}
      (h : host.defineDd ddname dsname status = .ok after) : Touched host after

/-- Only datasets and DDs are touched. -/
theorem Touched.scope {host after : SimHost} (h : Touched host after) :
    Scope.allocation.keep host after = after := by
  cases h with
  | append h =>
      obtain ⟨dataset, _, h⟩ := Outcome.bind_ok h
      obtain ⟨longer, _, h⟩ := Outcome.bind_ok h
      cases h
      rfl
  | rotate h =>
      unfold SimHost.rotate at h
      simp only [bind, Except.bind] at h
      split at h
      · cases h
      · split at h
        · cases h
          rfl
        · cases h
          rfl
  | defineDd h =>
      obtain ⟨entered, _, h⟩ := Outcome.bind_ok h
      split at h
      · cases h
        rfl
      · cases h

open Session

variable {host : SimHost} {settings : Settings} {s t : Session SimHost}

/-- The storage of a reachable session is well formed. -/
theorem reachable_wellFormed (h : Reachable Touched host settings s) :
    s.linkage.storage.WellFormed := by
  induction h with
  | refl => exact Storage.wellFormed_empty
  | @tail middle last hreach hstep ih =>
      have hnamed : middle.linkage.Named := Reachable.named hreach
      rcases hstep.cases hnamed with ⟨text, options, rfl⟩ | hmoves | ⟨after, -, hlinkage⟩
      · have hall : Supported fun _ => True := fun _ _ => trivial
        exact reach_wellFormed (uses_run hall trivial text trivial middle hnamed).1 ih
      · exact reach_wellFormed hmoves ih
      · rw [hlinkage]
        exact ih

/-- Nothing changes how the host of a session was set up. -/
theorem reachable_setup (h : Reachable Touched host settings s) :
    Scope.calls.keep host s.host = s.host := by
  induction h with
  | refl => exact Scope.calls.same host
  | @tail middle last hreach hstep ih =>
      have hnamed : middle.linkage.Named := Reachable.named hreach
      have hkept : Scope.calls.keep middle.host last.host = last.host := by
        rcases hstep.cases hnamed with ⟨text, options, hrun⟩ | hmoves | ⟨after, htouched, hlinkage⟩
        · have hall : Supported fun _ => True := fun _ _ => trivial
          have hmoves : Linkage.Reach (fun _ => True) middle.linkage last.linkage := by
            rw [hrun]
            exact (uses_run hall trivial text trivial middle hnamed).1
          exact reach_setup hmoves
        · exact reach_setup hmoves
        · have hlast : last.host = after := congrArg (fun link => link.host) hlinkage
          rw [hlast, ← htouched.scope]
          rfl
      rw [← Scope.calls.absorb host middle.host last.host, ih]
      exact hkept

/-- A clock that stands still, for runs on a fixed host. -/
def noon : Clock :=
  Clock.fixed { year := 2026, month := 1, day := 2, hour := 12, minute := 0, second := 0 }

end TsoBridge.Sim
