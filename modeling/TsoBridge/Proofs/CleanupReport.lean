/-
What becomes of a failed cleanup. The private DD of a captured command is
freed after the command, and a free that fails is owed to the script: in
the result of the command, or from the list the session keeps.

# The account

`releaseFailure` follows a command to the free of its private DD and says
what went wrong there, without a look at the list of the session. Against
it the three places a failure can be in are counted: handed over to the
script, still pending, or dropped. The step lemma is `Call.accounted`: one
call of a script moves failures between these places and neither makes nor
duplicates one. The run lemma adds the steps up.

A command that returns reports its own failure and no other. With it goes
the whole list of the session, so whatever was pending when it was called
is dropped: a failed command's failure reaches the script exactly when it
is taken before the next command returns.

# The automatic mode

The second attempt of the automatic mode starts with a missing module, and
a module that was found once is found again. So the first attempt had no
private DD, and there is no failure the second could hide.
-/
import TsoBridge.Proofs.Pairing
import TsoBridge.Proofs.Script
import TsoBridge.Proofs.SingleCall

namespace TsoBridge

variable {H : Type} {α : Type}

-- ================================================== modules found before

namespace Linkage

/-- What was found out about a module is still known. -/
def Remembers (link after : Linkage H) : Prop :=
  ∀ key found, link.modules.get? key = some found → after.modules.get? key = some found

instance : IsPreorder (Linkage H) Remembers where
  refl _ _ _ h := h
  trans _ _ _ h h' key found hget := h' key found (h key found hget)

/-- A call forgets no module. -/
theorem CallsOnce.remembers {module : String} {link after : Linkage H}
    (h : CallsOnce module link after) : Remembers link after := by
  intro key found hget
  rw [h.1]
  exact hget

/-- A module that was looked for and found. -/
def Found (link : Linkage H) (module : String) : Prop :=
  ∃ entry, link.modules.get? (Text.upper module) = some (some entry)

/-- A module that was found is found again. -/
theorem Found.remembered {link after : Linkage H} {module : String} (h : link.Found module)
    (hafter : Remembers link after) : after.Found module := by
  obtain ⟨entry, hget⟩ := h
  exact ⟨entry, hafter _ _ hget⟩

variable [Host H]

/-- Looking for one module forgets no other. -/
theorem remembers_fetch (module : String) :
    (fetch module : Op (Linkage H) EntryPoint).Within Remembers := by
  intro link key found hget
  unfold fetch
  simp only
  cases hknown : link.modules.get? (Text.upper module) with
  | some known =>
      cases known with
      | none => exact hget
      | some entry => exact hget
  | none =>
      have hkey : key ≠ Text.upper module := by
        rintro rfl
        rw [hknown] at hget
        cases hget
      rcases Host.load link.host (Text.upper module) with ⟨_ | entry, host⟩
      · exact (Table.get?_insert_ne _ _ hkey).trans hget
      · exact (Table.get?_insert_ne _ _ hkey).trans hget

/-- No operation of the engine forgets a module. -/
theorem served_remembers : Served (.keeping (fun _ => True) Remembers) (id : H → H) .any := by
  refine served_keeping (Host.maps_id _) (fun _ _ _ _ => trivial) (fun module _ => ?_)
    (fun entry _ _ _ _ hposted link => ?_) (fun _ => trivial) (fun _ _ _ _ h => h)
    fun _ _ _ _ h => h
  · exact (remembers_fetch module).fulfils fun _ _ _ _ => trivial
  · exact (hposted.callsOnce link).mono fun _ _ h => h.remembers

/-- The first module that is there is filed under its name. -/
theorem search_files (all modules : List String) (link : Linkage H) :
    (fetchFirst.search all modules).Ends link fun r after =>
      ∀ entry, r = .ok entry → ∃ module ∈ modules,
        after.modules.get? (Text.upper module) = some (some entry) := by
  induction modules generalizing link with
  | nil => exact fun _ h => by cases h
  | cons module rest ih =>
      have htried : (fetch module).attempt.Ends link fun r after =>
          ∀ entry, r = .ok (.ok entry) →
            after.modules.get? (Text.upper module) = some (some entry) := by
        refine (fetch_ends module link).attempt ?_ (fun _ _ _ _ h => by cases h)
          fun _ _ _ h => by cases h
        intro entry after hfetch other hother
        cases hother
        exact hfetch.2.2 entry rfl
      refine htried.bind ?_ ?_
      · intro result after hresult
        cases result with
        | ok entry =>
            intro found hfound
            cases hfound
            exact ⟨module, List.mem_cons_self, hresult entry rfl⟩
        | error cause =>
            refine (ih after).mono fun r last hlast entry hentry => ?_
            obtain ⟨found, hmem, hfound⟩ := hlast entry hentry
            exact ⟨found, List.mem_cons_of_mem _ hmem, hfound⟩
      · exact fun _ _ _ _ h => by cases h

/-- A search among modules of which one was found returns. -/
theorem search_of_found (all : List String) {modules : List String} {module : String}
    (hmem : module ∈ modules) {link : Linkage H} (h : link.Found module) :
    ∃ entry after, fetchFirst.search all modules link = (.ok entry, after) := by
  induction modules generalizing link with
  | nil => cases hmem
  | cons first rest ih =>
      unfold fetchFirst.search
      rcases hfetch : fetch first link with ⟨fault | entry, after⟩
      · cases fetch_fault hfetch
        rw [Op.run_bind_of_ok (Op.run_attempt_of_error hfetch)]
        rcases List.mem_cons.mp hmem with rfl | hrest
        · obtain ⟨entry, hget⟩ := h
          rw [fetch_known hget] at hfetch
          cases hfetch
        · have hstill : Remembers link after := by
            have hremembers := remembers_fetch first link
            rw [Op.Ends, hfetch] at hremembers
            exact hremembers
          exact ih hrest (h.remembered hstill)
      · rw [Op.run_bind_of_ok (Op.run_attempt_of_ok hfetch)]
        exact ⟨entry, after, rfl⟩

end Linkage

-- ======================================================= found commands

namespace Invocation

open Linkage (Remembers Found)

/-- The modules of a route were found. -/
def Resolved (route : Route) (link : Linkage H) : Prop :=
  (∃ module ∈ prepareModules, link.Found module) ∧ link.Found route.module

/-- A route that resolved resolves again. -/
theorem Resolved.remembered {route : Route} {link after : Linkage H} (h : Resolved route link)
    (hafter : Remembers link after) : Resolved route after := by
  obtain ⟨⟨module, hmem, hfound⟩, hroute⟩ := h
  exact ⟨⟨module, hmem, hfound.remembered hafter⟩, hroute.remembered hafter⟩

variable [Host H]

/-- A prepare call forgets nothing. -/
theorem remembers_callPrepare (entry : EntryPoint) :
    (callPrepare entry : Op (Linkage H) Bytes).Within Remembers := by
  have hmeets : Linkage.Meets (.keeping (fun _ => True) Remembers) (id : H → H) (fun _ => True)
      (fun _ => True) (callPrepare entry) (callPrepare entry) :=
    meets_callPrepare Linkage.served_remembers .any ⟨"IKJTSFI", by simp [prepareModules], trivial⟩
      trivial
  exact fun link => (hmeets.fulfils link trivial).stays

/-- What a route resolves to is filed. -/
theorem resolve_files (route : Route) (link : Linkage H) :
    (resolve route).Ends link fun r after => ∀ entries, r = .ok entries →
      (∃ module ∈ prepareModules,
          after.modules.get? (Text.upper module) = some (some entries.1))
        ∧ after.modules.get? (Text.upper route.module) = some (some entries.2) := by
  refine (Linkage.search_files prepareModules prepareModules link).bind
    (fun prepare middle hprepare => ?_) fun _ _ _ _ h => by cases h
  obtain ⟨module, hmem, hget⟩ := hprepare prepare rfl
  have hfetch := (Linkage.fetch_ends route.module middle).and
    (Linkage.remembers_fetch route.module middle)
  refine hfetch.bind (fun execute after h => ?_) fun _ _ _ _ h => by cases h
  intro entries hentries
  cases hentries
  exact ⟨⟨module, hmem, h.2 _ _ hget⟩, h.1.2.2 execute rfl⟩

/-- Once resolved, the modules of a route are found. -/
theorem resolve_resolved (route : Route) (link : Linkage H) :
    (resolve route).Ends link fun r after => ∀ entries, r = .ok entries →
      Resolved route after := by
  refine (resolve_files route link).mono fun r after hfiled entries hentries => ?_
  obtain ⟨⟨module, hmem, hprepare⟩, hexecute⟩ := hfiled entries hentries
  exact ⟨⟨module, hmem, entries.1, hprepare⟩, entries.2, hexecute⟩

/-- Modules that were found resolve again. -/
theorem resolve_of_resolved {route : Route} {link : Linkage H} (h : Resolved route link) :
    ∃ entries after, resolve route link = (.ok entries, after) ∧ Resolved route after := by
  obtain ⟨⟨module, hmem, hfound⟩, hroute⟩ := h
  obtain ⟨prepare, middle, hsearch⟩ := Linkage.search_of_found prepareModules hmem hfound
  have hmiddle : Remembers link middle := by
    have hmeets : Linkage.Meets (.keeping (fun _ => True) Remembers) (id : H → H) (fun _ => True) _
        (Linkage.fetchFirst prepareModules) (Linkage.fetchFirst prepareModules) :=
      Linkage.meets_fetchFirst Linkage.served_remembers (fun _ => trivial)
        fun _ => List.mem_append_right _
    exact ((hmeets.fulfils link trivial).ok hsearch).stays
  obtain ⟨execute, hget⟩ := hroute.remembered hmiddle
  refine ⟨(prepare, execute), middle, ?_, ⟨module, hmem, hfound.remembered hmiddle⟩, execute, hget⟩
  unfold resolve
  rw [Op.run_bind_of_ok (x := Linkage.fetchFirst prepareModules) hsearch,
    Op.run_bind_of_ok (Linkage.fetch_known hget)]
  rfl

end Invocation

/-- The cause is not that a module is missing. -/
def Error.Attended (cause : Error) : Prop :=
  ∀ module, cause ≠ .serviceUnavailable module

/-- The causes of a command whose modules are there miss no module. -/
theorem running_attended : Error.Running Error.Attended where
  mechanical := by
    rintro cause h module rfl
    cases h
  refused _ _ _ := nofun
  command _ := nofun
  order _ _ := nofun
  answer _ := nofun
  prepare _ _ _ := nofun

variable [Host H]

namespace Invocation

/-- Nor does the call of an execute service that was found. -/
theorem callExecute_attended (capability : Capability) (invocation : Invocation)
    {link : Linkage H} (h : link.Found invocation.route.module) :
    (callExecute capability invocation).Ends link fun r _ => r.Raises Error.Attended := by
  have hexecute := running_attended.toExecuting
  obtain ⟨entry, hget⟩ := h
  have hheld : (liftM invocation.heldToken : Op (Linkage H) Bytes).Ends link fun r after =>
      r.Raises Error.Attended ∧ after = link := ⟨raises_heldToken hexecute invocation, rfl⟩
  refine hheld.bind (fun token after h => ?_) fun _ _ hfault => hfault.1.fault
  obtain ⟨-, rfl⟩ := h
  refine Op.Ends.bind_of_ok (Linkage.fetch_known hget) ?_
  have hsent : ∀ block, (sendBlock entry capability block : Op (Linkage H) _).Raises
      Error.Attended := fun block =>
    (posted_sendBlock entry capability block).raises hexecute.mechanical
  refine (Op.raises_lift (CallBlock.raises_make hexecute _ _ _)).bind (fun bare => ?_) _
  exact (hsent _).bind fun answer => Op.raises_lift (raises_reportOf hexecute _ _)

/-- A command whose modules were found misses none. -/
theorem run_attended (capability : Capability) (route : Route) (text : String)
    (output : Option DdName) {link : Linkage H} (h : Resolved route link) :
    (run capability route text output).Ends link fun r _ => r.Raises Error.Attended := by
  rw [run_eq]
  cases hmake : make route text output with
  | error cause =>
      have hraises := raises_make running_attended.toExecuting route text output
      rw [hmake] at hraises
      exact hraises.fault
  | ok invocation =>
      obtain ⟨rfl, -, -⟩ := make_ok hmake
      refine Op.Ends.bind_of_ok rfl ?_
      obtain ⟨entries, middle, hresolve, hresolved⟩ := resolve_of_resolved h
      have hraises : (callPrepare entries.1 : Op (Linkage H) Bytes).Raises Error.Attended :=
        (meets_callPrepare (Linkage.served_free (Host.maps_id _)) running_attended
          ⟨"IKJTSFI", by simp [prepareModules], trivial⟩ trivial).raises
      have htoken : (obtainToken route).Ends link fun r after =>
          r.Raises Error.Attended ∧ Resolved route after := by
        refine Op.Ends.bind_of_ok hresolve ?_
        exact ((hraises middle).and (remembers_callPrepare entries.1 middle)).mono
          fun r after hafter => ⟨hafter.1, hresolved.remembered hafter.2⟩
      refine htoken.bind (fun token after hafter => ?_) fun _ _ hfault => hfault.1.fault
      exact callExecute_attended capability _ hafter.2.2

end Invocation

/-- Nor does it on the way to its output. -/
theorem Session.captured_attended (hreads : Host.ReadsPlainly H) (capability : Capability)
    (route : Route) (text : String) (name : DdName) {link : Linkage H}
    (h : Invocation.Resolved route link) :
    (captured capability route text name).Ends link fun r _ => r.Raises Error.Attended := by
  refine (Invocation.run_attended capability route text (some name) h).bind
    (fun report after _ => ?_) fun _ _ hfault => hfault.fault
  have hlines : (Output.readLines name.text : Op (Linkage H) (List String)).Raises
      Error.Attended :=
    (Output.meets_readLines (Linkage.served_free (Host.maps_id _))
      (hreads.readsWith running_attended.mechanical) running_attended.mechanical name.text).raises
  exact hlines.bind (fun _ => Op.raises_pure _) after

-- ============================================== failures of a command

namespace Bindings

open Linkage (Remembers)

/-- An allocation forgets no module. -/
theorem allocate_remembers (capability : Capability) (wanted : AllocationRequest) :
    (allocate capability wanted : Op (Linkage H × Bindings) (DdName × AllocationResult)).Within
      fun s t => Remembers s.1 t.1 := by
  have hmeets : Linkage.MeetsBeside (.keeping (fun _ => True) Remembers) (id : H → H)
      (fun _ => True) (fun _ => True) (allocate capability wanted) (allocate capability wanted) :=
    meets_allocate Linkage.served_remembers .any (fun _ _ => trivial) (fun _ _ => trivial)
      capability wanted
  exact fun s => (hmeets.fulfils s trivial).stays

end Bindings

/-- The limit on lines says nothing about the free. -/
theorem CommandOutcome.limitLines_cleanup (outcome : CommandOutcome) (limit : Option Nat) :
    (outcome.limitLines limit).cleanup = outcome.cleanup := by
  cases limit with
  | none => rfl
  | some most =>
      unfold limitLines
      simp only
      split
      · rfl
      · rfl

namespace Session

/-- What went wrong when the private DD of a command was freed, if the
direct path got that far. -/
def directFailure (capability : Capability) (route : Route) (text : String) (s : Session H) :
    Option Error :=
  match onLinkage (Invocation.resolve route) s with
  | (.ok _, t) =>
    match onBindings (Bindings.withBinding capability none (captured capability route text)) t with
    | (.ok released, _) => released.cleanup
    | (.error _, _) => none
  | (.error _, _) => none

/-- Whether a command is to have a private DD. -/
def isPrivate (settings : Settings) (options : CommandOptions) : Bool :=
  options.capture.getD settings.captureDefault
    && options.mode.getD settings.captureMode != .legacy

/-- What went wrong when the private DD of a command was freed. -/
def releaseFailure (text : String) (options : CommandOptions) (s : Session H) : Option Error :=
  if Text.trim text = "" || !s.settings.policy.permits (Command.verb (Text.trim text)) then none
  else match establish s with
    | (.ok capability, t) =>
      if isPrivate s.settings options then
        directFailure capability (routeOf options) (Text.trim text) t
      else none
    | (.error _, _) => none

/-- The failure was noted behind those pending, and a command that
returned has it in its outcome. -/
structure Reports (s : Session H) (failure : Option Error) (r : Outcome CommandOutcome)
    (t : Session H) : Prop where
  noted : t.failures = s.failures ++ failure.toList
  own : ∀ outcome, r = .ok outcome → outcome.cleanup = failure

omit [Host H] in
/-- Nothing was noted and nothing is reported. -/
theorem reports_none {s t : Session H} {r : Outcome CommandOutcome}
    (hnoted : t.failures = s.failures)
    (hown : ∀ outcome, r = .ok outcome → outcome.cleanup = none) : Reports s none r t :=
  ⟨hnoted.trans (List.append_nil _).symm, hown⟩

/-- The pending failures are the same. -/
def SameFailures (s t : Session H) : Prop :=
  t.failures = s.failures

instance : IsPreorder (Session H) SameFailures where
  refl _ := rfl
  trans _ _ _ h h' := h'.trans h

omit [Host H] in
/-- Work on the parts of a session notes no failure. -/
theorem sameFailures_onLinkage (x : Op (Linkage H) α) : (onLinkage x).Within SameFailures :=
  fun _ => rfl

omit [Host H] in
theorem sameFailures_onBindings (x : Op (Linkage H × Bindings) α) :
    (onBindings x).Within SameFailures :=
  fun _ => rfl

omit [Host H] in
theorem sameFailures_onCapture (x : Op (Linkage H × ExecCapture) α) :
    (onCapture x).Within SameFailures :=
  fun _ => rfl

theorem sameFailures_establish : (establish : Op (Session H) Capability).Within SameFailures :=
  fun _ => rfl

variable (capability : Capability) (route : Route) (text : String)

/-- The direct path notes the failure of its free, and reports it. -/
theorem runDirect_reports (s : Session H) :
    (runDirect capability route text).Ends s
      (Reports s (directFailure capability route text s)) := by
  unfold runDirect directFailure
  rcases hresolve : onLinkage (Invocation.resolve route) s with ⟨fault | entries, t⟩
  · rw [Op.Ends, Op.run_bind_of_fault hresolve]
    exact reports_none ((sameFailures_onLinkage _ s).fault hresolve) fun _ h => by cases h
  have ht : t.failures = s.failures := (sameFailures_onLinkage _ s).ok hresolve
  refine Op.Ends.bind_of_ok hresolve ?_
  simp only
  rcases hbound : onBindings (Bindings.withBinding capability none
    (captured capability route text)) t with ⟨fault | released, u⟩
  · rw [Op.Ends, Op.run_bind_of_fault hbound]
    exact reports_none (((sameFailures_onBindings _ t).fault hbound).trans ht) fun _ h => by cases h
  refine Op.Ends.bind_of_ok hbound ?_
  have hnoted : (note released.cleanup.toList u).2.failures
      = s.failures ++ released.cleanup.toList := by
    have hu : u.failures = t.failures := (sameFailures_onBindings _ t).ok hbound
    rw [← ht, ← hu]
    rfl
  refine Op.Ends.bind_of_ok rfl ?_
  cases released.result with
  | error cause => exact ⟨hnoted, fun _ h => by cases h⟩
  | ok value =>
      refine ⟨hnoted, fun outcome h => ?_⟩
      cases h
      rfl

/-- The exec path frees nothing. -/
theorem runExec_reports (s : Session H) :
    (runExec capability route text).Ends s (Reports s none) := by
  unfold runExec
  split
  · exact reports_none rfl fun _ h => by cases h
  · refine (sameFailures_onCapture _ s).bind (fun report t ht => ?_)
      fun _ _ ht => reports_none ht fun _ h => by cases h
    refine reports_none ht fun outcome h => ?_
    cases h
    rfl

/-- Nor does a command without capture. -/
theorem runUncaptured_reports (s : Session H) :
    (runUncaptured capability route text).Ends s (Reports s none) := by
  refine (sameFailures_onLinkage _ s).bind (fun report t ht => ?_)
    fun _ _ ht => reports_none ht fun _ h => by cases h
  refine reports_none ht fun outcome h => ?_
  cases h
  rfl

/-- A direct path that missed a module had no private DD to free. -/
theorem directFailure_of_missed (hreads : Host.ReadsPlainly H) {s t : Session H}
    {module : String}
    (h : runDirect capability route text s
      = (.error (.error (.serviceUnavailable module)), t)) :
    directFailure capability route text s = none := by
  unfold directFailure
  rcases hresolve : onLinkage (Invocation.resolve route) s with ⟨fault | entries, u⟩
  · rfl
  simp only
  rcases hbound : onBindings (Bindings.withBinding capability none
    (captured capability route text)) u with ⟨fault | released, v⟩
  · rfl
  -- the work was done with modules that had been found, so it missed none
  exfalso
  unfold runDirect at h
  rw [Op.run_bind_of_ok hresolve, Op.run_bind_of_ok hbound] at h
  have hresult : released.result = .error (.serviceUnavailable module) := by
    cases hr : released.result with
    | ok value =>
        rw [hr] at h
        cases h
    | error cause =>
        rw [hr] at h
        cases h
        rfl
  obtain ⟨link, hlink, rfl⟩ := Op.on_ok hresolve
  have hfound : Invocation.Resolved route link :=
    (Invocation.resolve_resolved route s.linkage).ok hlink entries rfl
  obtain ⟨pair, hwith, -⟩ := Op.on_ok hbound
  obtain ⟨⟨name, result⟩, p, hallocate, h1⟩ := Op.bind_ok hwith
  obtain ⟨done, q, hattempt, h2⟩ := Op.bind_ok h1
  obtain ⟨cleanup, w, -, h3⟩ := Op.bind_ok h2
  obtain ⟨rfl, -⟩ := Op.pure_ok h3
  simp only at hresult
  subst hresult
  have hremembers : Linkage.Remembers link p.1 :=
    (Bindings.allocate_remembers capability _ _).ok hallocate
  have hattended := (captured_attended hreads capability route text name
    (hfound.remembered hremembers)).onFirst (s := p)
  exact (hattended.fault (Op.attempt_error hattempt)).1 _ rfl module rfl

/-- The automatic mode goes on only where nothing was freed. -/
theorem runAuto_reports (hreads : Host.ReadsPlainly H) (s : Session H) :
    (runAuto capability route text).Ends s
      (Reports s (directFailure capability route text s)) := by
  have hdirect := runDirect_reports capability route text s
  rcases hr : runDirect capability route text s with ⟨(cause | _) | outcome, t⟩
  · have hreports := hdirect.fault hr
    refine Op.Ends.bind_of_ok (Op.run_attempt_of_error hr) ?_
    cases cause with
    | serviceUnavailable module =>
        rw [directFailure_of_missed capability route text hreads hr] at hreports ⊢
        simp only
        split
        · refine (runExec_reports capability route text t).mono fun r u hu => ?_
          exact reports_none ((hu.noted.trans (List.append_nil _)).trans
            (hreports.noted.trans (List.append_nil _))) hu.own
        · exact ⟨hreports.noted, fun _ h => by cases h⟩
    | _ => exact ⟨hreports.noted, fun _ h => by cases h⟩
  · rw [Op.Ends]
    unfold runAuto
    rw [Op.run_bind_of_fault (Op.run_attempt_of_trap hr)]
    exact ⟨(hdirect.fault hr).noted, fun _ h => by cases h⟩
  · exact Op.Ends.bind_of_ok (Op.run_attempt_of_ok hr) (hdirect.ok hr)

/-- So a command reports what the free of its private DD left behind. -/
theorem runBy_reports (hreads : Host.ReadsPlainly H) (options : CommandOptions) (s : Session H) :
    (runBy capability route text options).Ends s (Reports s
      (if isPrivate s.settings options then directFailure capability route text s
        else none)) := by
  refine Op.ends_gets_bind ?_
  unfold isPrivate
  cases hcapture : options.capture.getD s.settings.captureDefault with
  | false => exact runUncaptured_reports capability route text s
  | true =>
      cases hmode : options.mode.getD s.settings.captureMode with
      | direct => exact runDirect_reports capability route text s
      | legacy => exact runExec_reports capability route text s
      | auto => exact runAuto_reports capability route text hreads s

/-- A command notes the failure of its own free behind those pending, and
returns with it if it returns. -/
theorem run_reports (hreads : Host.ReadsPlainly H) (options : CommandOptions) (s : Session H) :
    (run text options).Ends s (Reports s (releaseFailure text options s)) := by
  unfold releaseFailure
  refine Op.ends_gets_bind ?_
  simp only [Bool.or_eq_true, decide_eq_true_eq]
  by_cases hempty : Text.trim text = ""
  · rw [if_pos hempty, if_pos (Or.inl hempty)]
    exact reports_none rfl fun _ h => by cases h
  by_cases hdenied : (!s.settings.policy.permits (Command.verb (Text.trim text))) = true
  · rw [if_neg hempty, if_pos hdenied, if_pos (Or.inr hdenied)]
    exact reports_none rfl fun _ h => by cases h
  rw [if_neg hempty, if_neg hdenied, if_neg (not_or.mpr ⟨hempty, hdenied⟩)]
  rcases hestablish : establish s with ⟨fault | granted, t⟩
  · rw [Op.Ends, Op.run_bind_of_fault hestablish]
    exact reports_none ((sameFailures_establish s).fault hestablish) fun _ h => by cases h
  have ht : t.failures = s.failures := (sameFailures_establish s).ok hestablish
  have hsettings : t.settings = s.settings := (sameSettings_establish s).ok hestablish
  refine Op.Ends.bind_of_ok hestablish ?_
  have hby := runBy_reports granted (routeOf options) (Text.trim text) hreads options t
  rw [hsettings] at hby
  refine hby.bind (fun outcome u hu => ?_) fun _ _ hu => ?_
  · refine ⟨ht ▸ hu.noted, fun limited h => ?_⟩
    cases h
    rw [CommandOutcome.limitLines_cleanup]
    exact hu.own outcome rfl
  · exact ⟨ht ▸ hu.noted, fun _ h => by cases h⟩

end Session

-- =============================================================== scripts

namespace Script

/-- One call of a script, or of the program that runs it. -/
inductive Call where
  | cmd (text : String) (options : CommandOptions)
  | alloc (operands : String)
  | free (operands : String)
  | msg (text : String) (level : Option Int)
  | takeFailures

/-- The result of a script operation that returned. -/
def returned? : Outcome (Except ScriptError α) → Option α
  | .ok (.ok result) => some result
  | _ => none

namespace Call

/-- The session a call leaves. -/
def step : Call → Session H → Session H
  | .cmd text options, s => (Script.cmd text options s).2
  | .alloc operands, s => (Script.alloc operands s).2
  | .free operands, s => (Script.free operands s).2
  | .msg text level, s => (Script.msg text level s).2
  | .takeFailures, s => (Session.takeFailures s).2

/-- The result of a command, if the call is one that returns. -/
def result? : Call → Session H → Option CmdResult
  | .cmd text options, s => returned? (Script.cmd text options s).1
  | _, _ => none

/-- The failed frees of private DDs that a call leads to. -/
def produced : Call → Session H → List String
  | .cmd text options, s =>
    (Session.releaseFailure text options s).toList.map Error.message
  | _, _ => []

/-- The failed frees that a call hands over. -/
def delivered (call : Call) (s : Session H) : List String :=
  match call with
  | .takeFailures =>
    match (Session.takeFailures s).1 with
    | .ok failures => failures.map Error.message
    | .error _ => []
  | _ => (call.result? s).toList.flatMap fun result => result.cleanup.toList

/-- A command produces the failure of its own free. -/
theorem produced_cmd (text : String) (options : CommandOptions) (s : Session H) :
    (Call.cmd text options).produced s
      = (Session.releaseFailure text options s).toList.map Error.message :=
  rfl

/-- It delivers what its result carries. -/
theorem delivered_cmd (text : String) (options : CommandOptions) (s : Session H) :
    (Call.cmd text options).delivered s
      = ((Call.cmd text options).result? s).toList.flatMap fun result => result.cleanup.toList :=
  rfl

/-- The failed frees that a call drops: all that are pending, if it is a
command that returns. -/
def dropped (call : Call) (s : Session H) : List String :=
  if (call.result? s).isSome then s.failures.map Error.message else []

end Call

/-- The session after some calls. -/
def after (calls : List Call) (s : Session H) : Session H :=
  calls.foldl (fun s call => call.step s) s

/-- What the calls of a script add up to. -/
def allOf (part : Call → Session H → List String) : List Call → Session H → List String
  | [], _ => []
  | call :: rest, s => part call s ++ allOf part rest (call.step s)

/-- What several calls give is given by the first ones, then by the rest. -/
theorem allOf_append (part : Call → Session H → List String) (calls more : List Call)
    (s : Session H) :
    allOf part (calls ++ more) s = allOf part calls s ++ allOf part more (after calls s) := by
  induction calls generalizing s with
  | nil => rfl
  | cons call rest ih =>
      show part call s ++ allOf part (rest ++ more) (call.step s) = _
      rw [ih, ← List.append_assoc]
      rfl

-- ================================================================= steps

/-- What a script gets of an engine operation. -/
def answered (operation : ScriptOp) : Outcome α → Outcome (Except ScriptError α)
  | .ok a => .ok (.ok a)
  | .error (.error cause) => .ok (.error { operation, cause := .engine cause })
  | .error .trap => trap

omit [Host H] in
/-- A script operation does what its engine operation does. -/
theorem engine_run (operation : ScriptOp) (x : Op (Session H) α) (s : Session H) :
    engine operation x s = (answered operation (x s).1, (x s).2) := by
  unfold engine
  rcases hx : x s with ⟨(cause | _) | a, t⟩
  · rw [Op.run_bind_of_ok (Op.run_attempt_of_error hx)]
    rfl
  · rw [Op.run_bind_of_fault (Op.run_attempt_of_trap hx)]
    rfl
  · rw [Op.run_bind_of_ok (Op.run_attempt_of_ok hx)]
    rfl

/-- What a script gets of an outcome. -/
def resultOf (outcome : CommandOutcome) : CmdResult :=
  { rc := outcome.rc, lines := outcome.report.lines
    cleanup := outcome.cleanup.map Error.message }

/-- The command of a script is a command, with the failures taken away
behind it. -/
theorem cmd_eq (text : String) (options : CommandOptions) :
    (cmd text options : Op (Session H) _) = engine .cmd (do
      let outcome ← Session.run text options
      let _ ← Session.takeFailures
      return resultOf outcome) :=
  rfl

/-- A command that returns hands over its outcome and empties the list. -/
theorem cmd_of_ok {text : String} {options : CommandOptions} {s t : Session H}
    {outcome : CommandOutcome} (h : Session.run text options s = (.ok outcome, t)) :
    cmd text options s = (.ok (.ok (resultOf outcome)), { t with failures := [] }) := by
  rw [cmd_eq, engine_run, Op.run_bind_of_ok h]
  rfl

/-- A command that fails leaves the list as the run left it. -/
theorem cmd_of_fault {text : String} {options : CommandOptions} {s t : Session H}
    {fault : Fault} (h : Session.run text options s = (.error fault, t)) :
    cmd text options s = (answered .cmd (.error fault), t) := by
  rw [cmd_eq, engine_run, Op.run_bind_of_fault h]

/-- A command of a script returns if the session's does, with its
outcome. -/
theorem Call.result?_cmd (text : String) (options : CommandOptions) (s : Session H) :
    (Call.cmd text options).result? s
      = ((Session.run text options s).1.toOption).map resultOf := by
  rw [result?]
  rcases hrun : Session.run text options s with ⟨(cause | _) | outcome, t⟩
  · rw [cmd_of_fault hrun]
    rfl
  · rw [cmd_of_fault hrun]
    rfl
  · rw [cmd_of_ok hrun]
    rfl

open Session (SameFailures sameFailures_establish sameFailures_onBindings)

omit [Host H] in
/-- To note no failure is a contract like any other. -/
theorem sameFailures_of_meets {x : Op (Session H) α}
    (h : Session.Meets (.keeping (fun _ => True) SameFailures) id (id : H → H) (fun _ => True)
      (fun _ => True) x x) : x.Within SameFailures :=
  h.fulfils.within

/-- The other calls of a script note no failure. -/
theorem sameFailures_alloc (operands : String) :
    (alloc operands : Op (Session H) _).Within SameFailures := by
  refine sameFailures_of_meets (meets_alloc operands fun request => Session.meets_self ?_)
  exact (sameFailures_establish.bind fun _ => sameFailures_onBindings _).fulfils fun _ _ _ h => h

/-- A free looks for its DD first, and fails if there is none. -/
theorem sameFailures_free (operands : String) :
    (free operands : Op (Session H) _).Within SameFailures := by
  refine sameFailures_of_meets (meets_free operands fun name => Session.meets_self ?_)
  refine Op.Within.fulfils ((Op.within_gets _).bind fun live => ?_) fun _ _ _ h => h
  split
  · exact Op.within_fail _
  · exact sameFailures_establish.bind fun _ => sameFailures_onBindings _

/-- A message goes to the linkage, which keeps no failures. -/
theorem sameFailures_msg (text : String) (level : Option Int) :
    (msg text level : Op (Session H) _).Within SameFailures := by
  refine sameFailures_of_meets (meets_msg text level fun level => Session.meets_self ?_)
  exact (Session.sameFailures_onLinkage _).fulfils fun _ _ _ h => h

/-- The messages of the pending failures. -/
def pending (s : Session H) : List String :=
  s.failures.map Error.message

namespace Call

/-- The account of one call: what was pending and what the call led to is
what it hands over, what it drops and what is pending then. -/
def Accounted (call : Call) (s : Session H) : Prop :=
  (call.produced s ++ pending s).Perm
    (call.delivered s ++ call.dropped s ++ pending (call.step s))

/-- A command that fails hands nothing over and drops nothing; its failure
is noted behind those pending. -/
theorem accounted_failed (hreads : Host.ReadsPlainly H) {text : String}
    {options : CommandOptions} {s t : Session H} {fault : Fault}
    (hrun : Session.run text options s = (.error fault, t)) :
    (Call.cmd text options).Accounted s := by
  have hnoted := ((Session.run_reports text hreads options s).fault hrun).noted
  have hresult := result?_cmd text options s
  rw [hrun] at hresult
  have hdelivered : (Call.cmd text options).delivered s = [] := by
    rw [delivered_cmd, hresult]
    rfl
  have hdropped : (Call.cmd text options).dropped s = [] := by
    unfold dropped
    rw [hresult]
    rfl
  have hpending : pending ((Call.cmd text options).step s)
      = pending s ++ (Call.cmd text options).produced s := by
    show pending (Script.cmd text options s).2 = _
    rw [cmd_of_fault hrun]
    unfold pending
    rw [hnoted, List.map_append]
    rfl
  unfold Accounted
  rw [hdelivered, hdropped, hpending]
  exact List.perm_append_comm

/-- A command that returns hands over its own failure and drops those
pending. -/
theorem accounted_returned (hreads : Host.ReadsPlainly H) {text : String}
    {options : CommandOptions} {s t : Session H} {outcome : CommandOutcome}
    (hrun : Session.run text options s = (.ok outcome, t)) :
    (Call.cmd text options).Accounted s := by
  have hown := ((Session.run_reports text hreads options s).ok hrun).own outcome rfl
  have hresult := result?_cmd text options s
  rw [hrun] at hresult
  have hdelivered : (Call.cmd text options).delivered s
      = (Call.cmd text options).produced s := by
    rw [delivered_cmd, produced_cmd, hresult, ← hown]
    cases hcleanup : outcome.cleanup with
    | none => simp [resultOf, Except.toOption, hcleanup]
    | some failure => simp [resultOf, Except.toOption, hcleanup]
  have hdropped : (Call.cmd text options).dropped s = pending s := by
    unfold dropped
    rw [hresult]
    rfl
  have hpending : pending ((Call.cmd text options).step s) = [] := by
    show pending (Script.cmd text options s).2 = _
    rw [cmd_of_ok hrun]
    rfl
  unfold Accounted
  rw [hdelivered, hdropped, hpending, List.append_nil]

/-- A call that has nothing to do with commands leaves the list alone. -/
theorem accounted_other {call : Call} {s : Session H} (hproduced : call.produced s = [])
    (hdelivered : call.delivered s = []) (hresult : call.result? s = none)
    (hsame : Session.SameFailures s (call.step s)) : call.Accounted s := by
  unfold Accounted dropped pending
  rw [hproduced, hdelivered, hresult, hsame]
  exact List.Perm.refl _

/-- No call makes a failure vanish or shows one twice. -/
theorem accounted (hreads : Host.ReadsPlainly H) (call : Call) (s : Session H) :
    call.Accounted s := by
  cases call with
  | cmd text options =>
      rcases hrun : Session.run text options s with ⟨fault | outcome, t⟩
      · exact accounted_failed hreads hrun
      · exact accounted_returned hreads hrun
  | alloc operands => exact accounted_other rfl rfl rfl (sameFailures_alloc operands s)
  | free operands => exact accounted_other rfl rfl rfl (sameFailures_free operands s)
  | msg text level => exact accounted_other rfl rfl rfl (sameFailures_msg text level s)
  | takeFailures =>
      show (pending s).Perm (pending s ++ [] ++ [])
      rw [List.append_nil, List.append_nil]

end Call

/-- The account of a run. -/
theorem accounted_run (hreads : Host.ReadsPlainly H) (calls : List Call) (s : Session H) :
    (allOf Call.produced calls s ++ pending s).Perm
      (allOf Call.delivered calls s ++ allOf Call.dropped calls s
        ++ pending (after calls s)) := by
  induction calls generalizing s with
  | nil => exact List.Perm.refl _
  | cons call rest ih =>
      have hstep := Call.accounted hreads call s
      have hrest := ih (call.step s)
      rw [Call.Accounted, List.perm_iff_count] at hstep
      rw [List.perm_iff_count] at hrest
      refine List.perm_iff_count.mpr fun failure => ?_
      have hstep := hstep failure
      have hrest := hrest failure
      show (call.produced s ++ allOf Call.produced rest (call.step s) ++ pending s).count failure
        = ((call.delivered s ++ allOf Call.delivered rest (call.step s))
          ++ (call.dropped s ++ allOf Call.dropped rest (call.step s))
          ++ pending (after rest (call.step s))).count failure
      simp only [List.count_append] at hstep hrest ⊢
      omega

/-- Calls add up to nothing if each of them has nothing to add where it
is made. -/
theorem allOf_eq_nil_iff {part : Call → Session H → List String} {calls : List Call}
    {s : Session H} :
    allOf part calls s = []
      ↔ ∀ before call rest, calls = before ++ call :: rest → part call (after before s) = [] := by
  induction calls generalizing s with
  | nil => exact ⟨fun _ before call rest h => by simp at h, fun _ => rfl⟩
  | cons first others ih =>
      show part first s ++ allOf part others (first.step s) = [] ↔ _
      rw [List.append_eq_nil_iff, ih]
      constructor
      · rintro ⟨hfirst, hothers⟩ before call rest h
        cases before with
        | nil =>
            obtain ⟨rfl, -⟩ := List.cons.inj h
            exact hfirst
        | cons head before =>
            obtain ⟨rfl, hsplit⟩ := List.cons.inj h
            exact hothers before call rest hsplit
      · intro h
        refine ⟨h [] first others rfl, fun before call rest hsplit => ?_⟩
        exact h (first :: before) call rest (by rw [hsplit, List.cons_append])

/-- A call drops nothing if it is no command, or one that fails, or one
that is called with nothing pending. -/
theorem Call.dropped_eq_nil_iff {call : Call} {s : Session H} :
    call.dropped s = [] ↔ ((call.result? s).isSome = true → s.failures = []) := by
  unfold dropped
  split
  · next hsome => simp [hsome]
  · next hnone => simp [hnone]

/-- A command that returns reports the failure of its own free. -/
theorem Call.result_cleanup (hreads : Host.ReadsPlainly H) {text : String}
    {options : CommandOptions} {s : Session H} {result : CmdResult}
    (h : (Call.cmd text options).result? s = some result) :
    result.cleanup = (Session.releaseFailure text options s).map Error.message := by
  rw [result?_cmd] at h
  rcases hrun : Session.run text options s with ⟨fault | outcome, t⟩
  · rw [hrun] at h
    cases h
  · rw [hrun] at h
    cases h
    rw [← ((Session.run_reports text hreads options s).ok hrun).own outcome rfl]
    rfl

/-- With a last take, a run delivers what it led to just when it drops
nothing. -/
theorem delivered_perm_iff (hreads : Host.ReadsPlainly H) (calls : List Call) {s : Session H}
    (hstart : pending s = []) :
    (allOf Call.delivered (calls ++ [.takeFailures]) s).Perm
        (allOf Call.produced (calls ++ [.takeFailures]) s)
      ↔ allOf Call.dropped calls s = [] := by
  have hlast : pending (after (calls ++ [.takeFailures]) s) = [] := by
    unfold after
    rw [List.foldl_append]
    rfl
  have hdropped : allOf Call.dropped (calls ++ [.takeFailures]) s = allOf Call.dropped calls s := by
    rw [allOf_append]
    exact List.append_nil _
  have htotal := accounted_run hreads (calls ++ [.takeFailures]) s
  rw [hstart, hlast, List.append_nil, List.append_nil, hdropped] at htotal
  constructor
  · intro hperm
    have hlengths := hperm.length_eq.trans htotal.length_eq
    rw [List.length_append] at hlengths
    exact List.eq_nil_of_length_eq_zero (by omega)
  · intro hnil
    rw [hnil, List.append_nil] at htotal
    exact htotal.symm

end Script

-- =============================================================== theorems

namespace Sim

open Script

/-- Failed cleanups of a script's commands are accounted for. Each one that
a command led to was handed to the script once, or is pending, or was
dropped; a command that returns reports its own; and, counting a last take,
every one is delivered exactly once just when no command returns while
failures of earlier ones are pending. -/
theorem cleanup_failures_delivered {s : Session SimHost} (hnone : s.failures = [])
    (calls : List Call) :
    (allOf Call.produced calls s).Perm
        (allOf Call.delivered calls s ++ allOf Call.dropped calls s ++ pending (after calls s))
      ∧ (∀ before text options rest result, calls = before ++ .cmd text options :: rest →
        (Call.cmd text options).result? (after before s) = some result →
        result.cleanup
          = (Session.releaseFailure text options (after before s)).map Error.message)
      ∧ ((allOf Call.delivered (calls ++ [.takeFailures]) s).Perm
            (allOf Call.produced (calls ++ [.takeFailures]) s)
          ↔ ∀ before text options rest, calls = before ++ .cmd text options :: rest →
            ((Call.cmd text options).result? (after before s)).isSome = true →
            (after before s).failures = []) := by
  have hstart : pending s = [] := by
    unfold pending
    rw [hnone]
    rfl
  refine ⟨?_, fun _ _ _ _ _ _ => Call.result_cleanup readsPlainly, ?_⟩
  · have haccount := accounted_run readsPlainly calls s
    rwa [hstart, List.append_nil] at haccount
  · rw [delivered_perm_iff readsPlainly calls hstart, allOf_eq_nil_iff]
    constructor
    · intro h before text options rest hsplit
      exact Call.dropped_eq_nil_iff.mp (h before _ rest hsplit)
    · intro h before call rest hsplit
      refine Call.dropped_eq_nil_iff.mpr fun hsome => ?_
      -- only a command has a result
      cases call with
      | cmd text options => exact h before text options rest hsplit hsome
      | _ => cases hsome

/-- A session with a host that refuses every free. -/
def unfreed : Session SimHost :=
  Session.start (SimHost.build { freeFailure := some 0x0438 } noon) {}

/-- A command that fails, with a private DD. -/
def failing : Call :=
  .cmd "PARMLIB LIST" { capture := some true, mode := some .direct }

/-- A command that returns, without capture. -/
def returning : Call :=
  .cmd "SEND 'A'" { capture := some false }

/-- The failure of a command that failed is delivered if it is taken before
the next command returns. -/
theorem cleanup_failures_delivered_taken :
    unfreed.failures = []
      ∧ failing.produced unfreed = ["cleanup of LUZ00001 failed: rc=12, darc=0x0438, ctrc=0x0000"]
      ∧ (allOf Call.delivered ([failing, .takeFailures, returning] ++ [.takeFailures]) unfreed).Perm
        (allOf Call.produced ([failing, .takeFailures, returning] ++ [.takeFailures]) unfreed) := by
  refine ⟨rfl, by decide +kernel, ?_⟩
  refine (cleanup_failures_delivered rfl [failing, .takeFailures, returning]).2.2.mpr ?_
  rintro before text options rest hsplit -
  -- one command is called with a new session, the other after a take
  rcases before with _ | ⟨first, _ | ⟨second, _ | ⟨third, more⟩⟩⟩
  · rfl
  · cases (List.cons.inj (List.cons.inj hsplit).2).1
  · cases (List.cons.inj (List.cons.inj hsplit).2).1
    rfl
  · have hlength := congrArg List.length hsplit
    simp only [List.length_cons, List.length_append, List.length_nil] at hlength
    omega

/-- It is lost if the next command returns first. -/
theorem cleanup_failure_lost :
    ¬(allOf Call.delivered ([failing, returning] ++ [.takeFailures]) unfreed).Perm
      (allOf Call.produced ([failing, returning] ++ [.takeFailures]) unfreed) := by
  rw [delivered_perm_iff readsPlainly [failing, returning] rfl]
  intro hnil
  have hdropped : returning.dropped (after [failing] unfreed) = [] :=
    allOf_eq_nil_iff.mp hnil [failing] returning [] rfl
  have hpending : (returning.result? (after [failing] unfreed)).isSome = true
      ∧ (after [failing] unfreed).failures ≠ [] := by
    decide +kernel
  exact hpending.2 (Call.dropped_eq_nil_iff.mp hdropped hpending.1)

end Sim
end TsoBridge
