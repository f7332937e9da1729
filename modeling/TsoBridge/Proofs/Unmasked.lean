/-
A free that fails hides nothing of a command. One command is compared in
two sessions that differ in one thing: the host of the one frees what it is
asked to, and that of the other refuses every free for a reason. Both
return the same, but for the report of the failed free.

# Where the sessions part

To the engine the hosts differ in one module (`refusing_maps`), so the
sessions do the same up to the first call of the free service. A command
makes that call at most once and late: after an allocation under the name
asked for, nothing is taken back, so the free of the private DD is the
first, and it comes when the result of the work has been kept. What the
call answers is known on both sides (`release_answers`), since what an
allocation could post in storage a free can post there again.

# After the free

Only the automatic mode goes on after a direct attempt, and only when a
module was missing. The modules of a command are found before the
allocation, so then there was no free (`runDirect_told`) and the sessions
have not parted.
-/
import TsoBridge.Proofs.Agreement
import TsoBridge.Proofs.CleanupReport

namespace TsoBridge.Sim

open Session
open Bindings (Postable)
open Invocation (Resolved)
open Linkage.Terms (allows_byName)

variable {capability : Capability} {route : Route} {text : String}

-- =========================================================== the release

/-- How a release is answered. The module is there, the name is live and
that of a DD, and there is room to post the request: the DD is freed, or
refused for the host's reason. -/
theorem release_answers {link : Linkage SimHost} {bindings : Bindings} {name : DdName}
    (hready : Ready link) (hoffers : Offers "TSODFRE" link) (hlive : bindings.isLive name = true)
    (hpostable : Postable capability link.storage.openFrame)
    (hlookup : (link.host.dds.lookup name.text).isSome = true) :
    (Bindings.release capability name (link, bindings)).1
      = .ok (link.host.freeFailure.map fun reason => .cleanupFailed name.text 12 reason 0) := by
  obtain ⟨entry, found, hfetch⟩ := Linkage.fetch_of_finds hoffers.finds
  obtain ⟨hnamed, hhost, hstorage, -, hagain⟩ :=
    (fetch_lookedUp hready.named hoffers.upper).ok hfetch
  -- the request reaches the host, and the engine reads the answer
  have hrequest := (requestFree_frees hnamed (by rw [hstorage]; exact hready.wellFormed)
    name.field capability).2 (hagain entry rfl) (by rw [hstorage]; exact hpostable)
  obtain ⟨result, hresult, hreads⟩ := hrequest
  rw [hhost] at hreads
  obtain ⟨freed, hasked⟩ := Op.ends_of_fst hresult
  have hfree : Bindings.free capability name (link, bindings)
      = Bindings.freedOr name result (freed, bindings.without name) := by
    rw [Bindings.free_eq capability hlive hfetch, Op.run_bind_of_ok (Op.run_onFirst hasked)]
  have hsucceeded : result.succeeded
      = ((Service.freeAnswer link.host name.text).rc == 0
        && (Service.freeAnswer link.host name.text).reason == 0) := by
    unfold AllocationResult.succeeded
    rw [hreads.rc, hreads.reason]
  unfold Bindings.freedOr at hfree
  unfold Bindings.release
  unfold Service.freeAnswer at hreads hsucceeded
  cases hfailure : link.host.freeFailure with
  | none =>
      obtain ⟨dd, hdd⟩ := Option.isSome_iff_exists.mp hlookup
      rw [hfailure, hdd] at hsucceeded
      have hok : result.succeeded = true := hsucceeded
      rw [if_pos hok] at hfree
      rw [Op.run_bind_of_ok (Op.run_attempt_of_ok hfree)]
      rfl
  | some reason =>
      rw [hfailure] at hreads hsucceeded
      have hno : result.succeeded = false := hsucceeded
      rw [if_neg (by rw [hno]; exact Bool.false_ne_true)] at hfree
      rw [Op.run_bind_of_ok (Op.run_attempt_of_error hfree), hreads.rc, hreads.reason,
        hreads.catalogRc]
      rfl

-- ============================================================= harmless

/-- The modules other than that of the free. -/
abbrev Harmless (module : String) : Prop :=
  module ≠ "TSODFRE"

/-- The modules of a command free nothing. -/
theorem harmless_prepare : ∀ module ∈ Invocation.prepareModules, Harmless module := by
  unfold Harmless
  decide

theorem harmless_route (route : Route) : Harmless route.module := by
  cases route
  · decide
  · decide

/-- What the engine does without the free service is the same whatever the
host does about frees. -/
theorem served_harmless (failure : Option UInt16) :
    Linkage.Served (.moves Harmless) (refusing failure) (.byName Harmless) :=
  Linkage.served_moves (refusing_maps failure)

-- ======================================================= the allocation

/-- A ready host allocates under the name asked for, so nothing is taken
back and nothing is freed. -/
theorem allocate_matches {s : Linkage SimHost × Bindings} (hready : Ready s.1)
    (capability : Capability) (wanted : AllocationRequest) (failure : Option UInt16) :
    Op.Matches (Prod.map (Linkage.mapHost (refusing failure)) id)
      (Bindings.allocate capability wanted) (Bindings.allocate capability wanted) s := by
  have K := served_harmless failure
  have hname : Linkage.MeetsBeside (.moves Harmless) (refusing failure) (fun _ => True) _
      (Bindings.requestedName wanted) (Bindings.requestedName wanted) :=
    Bindings.meets_requestedName .any wanted
  refine (hname s hready.named).1.bind fun requested t1 hrequested => ?_
  obtain ⟨hlink, -⟩ := (requestedName_ends wanted s).ok hrequested
  have hready1 : Ready t1.1 := by rw [hlink]; exact hready
  have hfetch : Linkage.MeetsBeside (.moves Harmless) (refusing failure) (fun _ => True) _
      (Op.onFirst (Linkage.fetch "TSODALC") : Op (Linkage SimHost × Bindings) EntryPoint)
      (Op.onFirst (Linkage.fetch "TSODALC")) :=
    (Linkage.meets_fetch K (fun _ => trivial) (by simp)).onFirst
  refine (hfetch t1 hready1.named).1.bind fun entry t2 hfound => ?_
  obtain ⟨hnamed, hhost, hstorage, hfiled, -⟩ := (fetch_lookedUp hready1.named
    (Linkage.upper_sought (by simp))).ok (Op.onFirst_ok hfound).1
  have hmodule : entry.module = "TSODALC" := hfiled entry rfl
  have hharmless : Harmless entry.module := by rw [hmodule]; decide
  have hask : Linkage.Meets (.moves Harmless) (refusing failure) (fun _ => True) _
      (Bindings.requestAllocate entry capability requested wanted)
      (Bindings.requestAllocate entry capability requested wanted) :=
    (K.allocate entry capability requested wanted hmodule hharmless).meets
      ((Bindings.posted_allocate entry capability requested wanted).matches K.maps hharmless)
      fun _ _ _ => trivial
  have hask := hask.onFirst t2 hnamed
  refine hask.1.bind fun result t3 hasked => ?_
  have hnamed' : t3.1.Named := (hask.2.ok hasked).1.given
  have hrequest := (requestAllocate_ends hmodule (by rw [hstorage]; exact hready1.wellFormed)
    (by rw [hhost]; exact hready1.reply) capability requested wanted).ok
      (Op.onFirst_ok hasked).1
  refine (Bindings.meets_settle K .any (fun hsucceeded => .inl ?_) capability requested t3
    hnamed').1
  rcases hrequest with ⟨-, hnot⟩ | ⟨⟨_, hresult, -, hassigned⟩, hentered, -⟩
  · rw [hnot result rfl] at hsucceeded
    cases hsucceeded
  · cases hresult
    rw [hassigned]
    exact ⟨_, requested.ofString_text⟩

-- ============================================================= the work

/-- Captured output comes with the name of its DD. -/
theorem captured_name (capability : Capability) (route : Route) (text : String) (name : DdName)
    {link after : Linkage SimHost} {value : DdName × CommandReport}
    (h : captured capability route text name link = (.ok value, after)) : value.1 = name := by
  obtain ⟨report, _, -, h⟩ := Op.bind_ok h
  obtain ⟨lines, _, -, h⟩ := Op.bind_ok h
  obtain ⟨rfl, -⟩ := Op.pure_ok h
  rfl

theorem Ready.refusing {link : Linkage SimHost} (h : Ready link) (failure : Option UInt16) :
    Ready (link.mapHost (refusing failure)) :=
  ⟨h.named, h.wellFormed, h.reply⟩

theorem Offers.refusing {link : Linkage SimHost} {module : String} (h : Offers module link)
    (failure : Option UInt16) : Offers module (link.mapHost (refusing failure)) :=
  ⟨h.upper, h.present, h.cached⟩

/-- The work is the same whatever the host does about frees. -/
theorem meets_work (failure : Option UInt16) (capability : Capability) (route : Route)
    (text : String) (name : DdName) :
    Linkage.Meets (.moves Harmless) (refusing failure) (fun _ => True) (fun _ => True)
      (captured capability route text name) (captured capability route text name) :=
  meets_captured (served_harmless failure)
    (fun module hmem => allows_byName (harmless_prepare module hmem)) .any
    Error.Granting.any.toServing .any (allows_byName (harmless_route route))
    (fun _ _ _ _ _ => trivial) capability name

/-- After the work in between, the DD that was allocated can be freed: the
name is live, the DD is there, and what could be posted can be posted
again. -/
theorem release_after {s t : Linkage SimHost × Bindings} {name : DdName}
    {bound : AllocationResult} {worked : Linkage SimHost} {r : Outcome (DdName × CommandReport)}
    (hready : Ready s.1) (hoffers : Offers "TSODFRE" s.1)
    (hallocate : Bindings.allocate capability (.temporary none) s = (.ok (name, bound), t))
    (hran : captured capability route text name t.1 = (r, worked)) (failure : Option UInt16) :
    (Bindings.release capability name (worked.mapHost (refusing failure), t.2)).1
      = .ok (failure.map fun reason => .cleanupFailed name.text 12 reason 0) := by
  have hmoves : Linkage.Reach (fun _ => True) s.1
      (Bindings.allocate capability (.temporary none) s).2.1 :=
    (Bindings.uses_allocate trivial trivial capability (.temporary none) s hready.named).1
  rw [hallocate] at hmoves
  have hthere : Ready t.1 := hready.reach hmoves
  have hworked : Linkage.Reach Elsewhere t.1 worked := by
    have hreach := (uses_captured elsewhere_prepare (elsewhere_route route) capability text name t.1
      hthere.named).1
    rwa [hran] at hreach
  have hshape : Storage.SameShape t.1.storage worked.storage := by
    have hkept := (keeps_captured onlyWrites_prepare (onlyWrites route.ne_environment) capability
      text name t.1 hthere.named hthere.wellFormed).2.2.1
    rwa [hran] at hkept
  have hends := (allocate_ends hready.named hready.wellFormed hready.reply capability
    (.temporary none)).ok hallocate
  rcases hends with ⟨⟨_, hfault⟩, -⟩ | ⟨_, _, hok, hentered, hlive, hpostable, hshape', -⟩
  · cases hfault
  · cases hok
    have hdone : Ready worked := hthere.reach hworked
    refine release_answers (hdone.refusing failure)
      (((hoffers.reach hmoves).reach hworked).refusing failure) ?_ ?_ ?_
    · unfold Bindings.isLive
      rw [hlive, Table.contains_insert]
      simp
    · exact postable_sameShape (IsTrans.trans _ _ _ hshape' hshape) hready.wellFormed
        hdone.wellFormed hpostable
    · show (worked.host.dds.lookup name.text).isSome = true
      rw [reach_elsewhere hworked]
      exact hentered.lookup_self

/-- A linkage whose host is told what to do about frees, beside its
bindings. -/
abbrev told (failure : Option UInt16) :
    Linkage SimHost × Bindings → Linkage SimHost × Bindings :=
  Prod.map (Linkage.mapHost (refusing failure)) id

/-- Work with a private DD, whatever the host does about frees: it stops
before any free, and what is left differs in the host's setting only; or
the work ends, with one result, and the free is reported beside it. -/
theorem withBinding_told {s : Linkage SimHost × Bindings} (hready : Ready s.1)
    (hoffers : Offers "TSODFRE" s.1) (hresolved : Resolved route s.1) (capability : Capability)
    (text : String) :
    (∃ fault t, t.1.Named ∧ ∀ failure,
        Bindings.withBinding capability none (captured capability route text) (told failure s)
          = (.error fault, told failure t))
      ∨ ∃ name result, (∀ cause, result = .error cause → cause.Attended)
        ∧ (∀ value, result = .ok value → value.1 = name)
        ∧ ∀ failure, (Bindings.withBinding capability none (captured capability route text)
          (told failure s)).1 = .ok
            { result
              cleanup := failure.map fun reason => .cleanupFailed name.text 12 reason 0 } := by
  have hmatch := allocate_matches hready capability (.temporary none)
  have hmoves : (Bindings.allocate capability (.temporary none)).Ends s fun _ t =>
      Linkage.Reach (fun _ => True) s.1 t.1 :=
    (Bindings.uses_allocate trivial trivial capability (.temporary none) s hready.named).1
  rcases hallocate : Bindings.allocate capability (.temporary none) s with
    ⟨fault | ⟨name, bound⟩, t⟩
  · exact .inl ⟨fault, t, (hmoves.fault hallocate).named hready.named,
      fun failure => Op.run_bind_of_fault ((hmatch failure).run hallocate)⟩
  have hnamed : t.1.Named := (hmoves.ok hallocate).named hready.named
  have hfound : Resolved route t.1 :=
    hresolved.remembered ((Bindings.allocate_remembers capability _ s).ok hallocate)
  have hattended := captured_attended readsPlainly capability route text name hfound
  have hwork := fun failure => meets_work failure capability route text name t.1 hnamed
  have hended : ∀ result worked,
      captured capability route text name t.1 = (Outcome.ofExcept result, worked) → ∀ failure,
      (Bindings.withBinding capability none (captured capability route text) (told failure s)).1
        = .ok { result
                cleanup := failure.map fun reason => .cleanupFailed name.text 12 reason 0 } := by
    intro result worked hran failure
    rw [Bindings.withBinding_of_ended ((hmatch failure).run hallocate) ((hwork failure).1.run hran)]
    obtain ⟨u, hrelease⟩ := Op.ends_of_fst (release_after hready hoffers hallocate hran failure)
    exact congrArg Prod.fst (Op.run_bind_of_ok hrelease)
  rcases hran : captured capability route text name t.1 with ⟨(cause | _) | value, worked⟩
  · refine .inr ⟨name, .error cause, fun other h => ?_, fun _ h => (by cases h),
      hended (.error cause) worked hran⟩
    cases h
    exact (hattended.fault hran) cause rfl
  · refine .inl ⟨.trap, (worked, t.2), ((hwork none).2.fault hran).1.given, fun failure => ?_⟩
    rw [Bindings.withBinding_of_trapped ((hmatch failure).run hallocate)
      ((hwork failure).1.run hran)]
    rfl
  · refine .inr ⟨name, .ok value, fun _ h => (by cases h), fun other h => ?_,
      hended (.ok value) worked hran⟩
    cases h
    exact captured_name capability route text name hran

-- ============================================================= outcomes

/-- An outcome with the report of its free, where the host is told what to
do about frees. -/
def freedAs (failure : Option UInt16) (outcome : CommandOutcome) : CommandOutcome :=
  { outcome with
    cleanup := outcome.binding.bind fun name =>
      failure.map fun reason => .cleanupFailed name.text 12 reason 0 }

/-- An outcome has a private DD if it went the direct way. -/
def Labelled (outcome : CommandOutcome) : Prop :=
  outcome.binding.isSome = true ↔ outcome.path = .direct

/-- The limit of lines and the report of the free do not meet. -/
theorem freedAs_limitLines (failure : Option UInt16) (outcome : CommandOutcome)
    (limit : Option Nat) :
    (freedAs failure outcome).limitLines limit = freedAs failure (outcome.limitLines limit) := by
  unfold CommandOutcome.limitLines freedAs
  cases limit with
  | none => rfl
  | some most =>
      simp only
      split
      · rfl
      · rfl

/-- Nor does the limit touch path and binding. -/
theorem Labelled.limitLines {outcome : CommandOutcome} (h : Labelled outcome)
    (limit : Option Nat) : Labelled (outcome.limitLines limit) := by
  unfold CommandOutcome.limitLines
  cases limit with
  | none => exact h
  | some most =>
      simp only
      split
      · exact h
      · exact h

/-- From `s`, `x` ends in one way, whatever the host does about frees: with
one fault, or with one outcome and the report of the free beside it. -/
def EndsAlike (x : Op (Session SimHost) CommandOutcome) (s : Session SimHost) : Prop :=
  (∃ fault, ∀ failure, (x (s.mapHost (refusing failure))).1 = .error fault)
    ∨ ∃ outcome, Labelled outcome
      ∧ ∀ failure, (x (s.mapHost (refusing failure))).1 = .ok (freedAs failure outcome)

/-- What goes on as `y` from `t` ends as that does. -/
theorem EndsAlike.of_eq {x y : Op (Session SimHost) CommandOutcome} {s t : Session SimHost}
    (h : EndsAlike y t)
    (heq : ∀ failure, x (s.mapHost (refusing failure)) = y (t.mapHost (refusing failure))) :
    EndsAlike x s := by
  unfold EndsAlike
  simp only [heq]
  exact h

/-- A failure is the same in both. -/
theorem endsAlike_fail (cause : Error) (s : Session SimHost) : EndsAlike (Op.fail cause) s :=
  .inl ⟨.error cause, fun _ => rfl⟩

theorem endsAlike_settings_bind {f : Settings → Op (Session SimHost) CommandOutcome}
    {s : Session SimHost} (h : EndsAlike (f s.settings) s) :
    EndsAlike (Op.gets settings >>= f) s :=
  h.of_eq fun _ => rfl

/-- What never frees ends in one way. -/
theorem endsAlike_of_matches {x : Op (Session SimHost) CommandOutcome} {s : Session SimHost}
    (h : ∀ failure, Op.Matches (mapHost (refusing failure)) x x s)
    (hplain : x.Ends s fun r _ => ∀ outcome, r = .ok outcome →
      outcome.binding = none ∧ outcome.cleanup = none ∧ outcome.path ≠ .direct) :
    EndsAlike x s := by
  rcases hx : x s with ⟨fault | outcome, t⟩
  · exact .inl ⟨fault, fun failure => congrArg Prod.fst ((h failure).run hx)⟩
  · obtain ⟨hbinding, hcleanup, hpath⟩ := hplain.ok hx outcome rfl
    refine .inr ⟨outcome, ⟨fun hsome => ?_, fun hdirect => absurd hdirect hpath⟩, fun failure => ?_⟩
    · rw [hbinding] at hsome
      cases hsome
    · rw [(h failure).run hx]
      obtain ⟨report, path, binding, truncated, cleanup⟩ := outcome
      cases hbinding
      cases hcleanup
      rfl

/-- Limiting the lines keeps that. -/
theorem EndsAlike.limitLines {x : Op (Session SimHost) CommandOutcome} {s : Session SimHost}
    (h : EndsAlike x s) (limit : Option Nat) :
    EndsAlike (x >>= fun outcome => pure (outcome.limitLines limit)) s := by
  rcases h with ⟨fault, hfault⟩ | ⟨outcome, hlabelled, hok⟩
  · refine .inl ⟨fault, fun failure => ?_⟩
    obtain ⟨t, hx⟩ := Op.ends_of_fst (hfault failure)
    rw [Op.run_bind_of_fault hx]
  · refine .inr ⟨outcome.limitLines limit, hlabelled.limitLines limit, fun failure => ?_⟩
    obtain ⟨t, hx⟩ := Op.ends_of_fst (hok failure)
    rw [Op.run_bind_of_ok hx, ← freedAs_limitLines]
    rfl

-- ============================================================= the paths

/-- The exec path never frees. -/
theorem runExec_endsAlike {s : Session SimHost} (hnamed : s.linkage.Named)
    (capability : Capability) (route : Route) (text : String) :
    EndsAlike (runExec capability route text) s := by
  refine endsAlike_of_matches (fun failure => ?_) ?_
  · have hexec := meets_onCapture (ExecCapture.meets_run (served_harmless failure) .any
      Error.Running.any.toExecuting (fun _ => trivial) (allows_byName (by decide)) capability text
      fun _ => trivial)
    unfold runExec
    split
    · rfl
    · exact (hexec s hnamed).1.bind fun _ _ _ => rfl
  · unfold runExec
    split
    · exact fun _ h => by cases h
    · intro outcome h
      obtain ⟨t, hrun⟩ := Op.ends_of_fst h
      obtain ⟨report, _, -, hpure⟩ := Op.bind_ok hrun
      obtain ⟨rfl, -⟩ := Op.pure_ok hpure
      exact ⟨rfl, rfl, by simp⟩

/-- Nor does a command without capture. -/
theorem runUncaptured_endsAlike {s : Session SimHost} (hnamed : s.linkage.Named)
    (capability : Capability) (route : Route) (text : String) :
    EndsAlike (runUncaptured capability route text) s := by
  refine endsAlike_of_matches (fun failure => ?_) fun outcome h => ?_
  · have hrun := meets_onLinkage (Invocation.meets_run (served_harmless failure) .any
      (fun _ => trivial) (fun module hmem => allows_byName (harmless_prepare module hmem))
      (allows_byName (harmless_route route)) capability text none fun _ _ _ _ _ => trivial)
    exact (hrun s hnamed).1.bind fun _ _ _ => rfl
  · obtain ⟨t, hrun⟩ := Op.ends_of_fst h
    obtain ⟨report, _, -, hpure⟩ := Op.bind_ok hrun
    obtain ⟨rfl, -⟩ := Op.pure_ok hpure
    exact ⟨rfl, rfl, by simp⟩

/-- Work on the bindings, by its run. -/
theorem run_onBindings {α : Type} {x : Op (Linkage SimHost × Bindings) α} {s : Session SimHost}
    {r : Outcome α} {u : Linkage SimHost × Bindings} (h : x (s.linkage, s.bindings) = (r, u)) :
    onBindings x s = (r, { s with linkage := u.1, bindings := u.2 }) :=
  Op.run_on h

/-- A direct command whose work ended: its result is that of the work. -/
theorem runDirect_of_released {s t : Session SimHost} {entries : EntryPoint × EntryPoint}
    {released : Bindings.Released (DdName × CommandReport)}
    (hresolve : onLinkage (Invocation.resolve route) s = (.ok entries, t))
    (hwith : (Bindings.withBinding capability none (captured capability route text)
      (t.linkage, t.bindings)).1 = .ok released) :
    (runDirect capability route text s).1 = Outcome.ofExcept (released.result.map fun result =>
      { report := result.2, path := .direct, binding := some result.1
        cleanup := released.cleanup }) := by
  obtain ⟨u, hwith⟩ := Op.ends_of_fst hwith
  unfold runDirect
  rw [Op.run_bind_of_ok hresolve, Op.run_bind_of_ok (run_onBindings hwith)]
  obtain ⟨cause | value, cleanup⟩ := released
  · rfl
  · rfl

/-- The direct way: it stops before any free, or it ends in one way, and
not for want of a module. -/
theorem runDirect_told {s : Session SimHost} (hready : Ready s.linkage)
    (hoffers : Offers "TSODFRE" s.linkage) (capability : Capability) (route : Route)
    (text : String) :
    (∃ fault, ∃ t : Session SimHost, t.linkage.Named ∧ ∀ failure,
        runDirect capability route text (s.mapHost (refusing failure))
          = (.error fault, t.mapHost (refusing failure)))
      ∨ EndsAlike (runDirect capability route text) s
        ∧ ∀ failure module, (runDirect capability route text (s.mapHost (refusing failure))).1
          ≠ .error (.error (.serviceUnavailable module)) := by
  have hresolve (failure : Option UInt16) : Session.Meets (.moves Harmless) linkage
      (refusing failure) (fun _ => True) _ (onLinkage (Invocation.resolve route))
      (onLinkage (Invocation.resolve route)) :=
    meets_onLinkage (Invocation.meets_resolve (served_harmless failure) (fun _ => trivial) route)
  have hresolve := fun failure => hresolve failure s hready.named
  have hreach : (onLinkage (Invocation.resolve route)).Ends s fun _ t =>
      Linkage.Reach (· ∈ Invocation.prepareModules) s.linkage t.linkage :=
    (uses_onLinkage (Invocation.uses_resolve route) s hready.named).1
  rcases hfound : onLinkage (Invocation.resolve route) s with ⟨fault | entries, t⟩
  · exact .inl ⟨fault, t, ((hresolve none).2.fault hfound).1.given,
      fun failure => Op.run_bind_of_fault ((hresolve failure).1.run hfound)⟩
  have hmoves := hreach.ok hfound
  have hresolved : Resolved route t.linkage := by
    obtain ⟨link, hlink, rfl⟩ := Op.on_ok hfound
    exact (Invocation.resolve_resolved route s.linkage).ok hlink entries rfl
  rcases withBinding_told (s := (t.linkage, t.bindings)) (hready.reach hmoves)
    (hoffers.reach hmoves) hresolved capability text with
    ⟨fault, u, hnamed, hfault⟩ | ⟨name, result, hattended, hname, hok⟩
  · refine .inl ⟨fault, { t with linkage := u.1, bindings := u.2 }, hnamed, fun failure => ?_⟩
    unfold runDirect
    rw [Op.run_bind_of_ok ((hresolve failure).1.run hfound)]
    exact Op.run_bind_of_fault (run_onBindings (s := t.mapHost (refusing failure)) (hfault failure))
  have hended := fun failure =>
    runDirect_of_released ((hresolve failure).1.run hfound) (hok failure)
  cases result with
  | error cause =>
      refine .inr ⟨.inl ⟨.error cause, hended⟩, fun failure module h => ?_⟩
      rw [hended failure] at h
      cases h
      exact hattended _ rfl module rfl
  | ok value =>
      cases hname value rfl
      refine .inr ⟨.inr ⟨{ report := value.2, path := .direct, binding := some value.1 },
        ⟨fun _ => rfl, fun _ => rfl⟩, hended⟩, fun failure module h => ?_⟩
      rw [hended failure] at h
      cases h

/-- The automatic mode after a direct attempt that missed no module. -/
theorem runAuto_of_attended {s : Session SimHost}
    (h : ∀ module, (runDirect capability route text s).1
      ≠ .error (.error (.serviceUnavailable module))) :
    runAuto capability route text s = runDirect capability route text s := by
  unfold runAuto
  rcases hr : runDirect capability route text s with ⟨(cause | _) | outcome, t⟩
  · rw [Op.run_bind_of_ok (Op.run_attempt_of_error hr)]
    cases cause with
    | serviceUnavailable module => exact absurd (congrArg Prod.fst hr) (h module)
    | _ => rfl
  · exact Op.run_bind_of_fault (Op.run_attempt_of_trap hr)
  · rw [Op.run_bind_of_ok (Op.run_attempt_of_ok hr)]
    rfl

/-- And after one that missed a module. -/
theorem runAuto_of_missed {s t : Session SimHost} {module : String}
    (h : runDirect capability route text s = (.error (.error (.serviceUnavailable module)), t)) :
    runAuto capability route text s
      = if route = .standard then runExec capability route text t
        else (.error (.error (.serviceUnavailable module)), t) := by
  unfold runAuto
  rw [Op.run_bind_of_ok (Op.run_attempt_of_error h)]
  simp only
  split
  · rfl
  · rfl

/-- The automatic mode: the direct attempt ends it, or there was no free
yet. -/
theorem runAuto_endsAlike {s : Session SimHost} (hready : Ready s.linkage)
    (hoffers : Offers "TSODFRE" s.linkage) (capability : Capability) (route : Route)
    (text : String) : EndsAlike (runAuto capability route text) s := by
  rcases runDirect_told hready hoffers capability route text with
    ⟨fault, t, hnamed, hfault⟩ | ⟨hends, hattended⟩
  · by_cases hmissed : ∃ module, fault = .error (.serviceUnavailable module)
    · obtain ⟨module, rfl⟩ := hmissed
      by_cases hroute : route = .standard
      · refine (runExec_endsAlike hnamed capability route text).of_eq fun failure => ?_
        rw [runAuto_of_missed (hfault failure), if_pos hroute]
      · refine .inl ⟨.error (.serviceUnavailable module), fun failure => ?_⟩
        rw [runAuto_of_missed (hfault failure), if_neg hroute]
    · refine .inl ⟨fault, fun failure => ?_⟩
      rw [runAuto_of_attended, hfault failure]
      rintro module h
      rw [hfault failure] at h
      cases h
      exact hmissed ⟨module, rfl⟩
  · exact hends.of_eq fun failure => runAuto_of_attended (hattended failure)

/-- The direct way, either before its free or after it. -/
theorem runDirect_endsAlike {s : Session SimHost} (hready : Ready s.linkage)
    (hoffers : Offers "TSODFRE" s.linkage) (capability : Capability) (route : Route)
    (text : String) : EndsAlike (runDirect capability route text) s := by
  rcases runDirect_told hready hoffers capability route text with
    ⟨fault, t, -, hfault⟩ | ⟨hends, -⟩
  · exact .inl ⟨fault, fun failure => congrArg Prod.fst (hfault failure)⟩
  · exact hends

/-- So a command ends alike, by whichever path. -/
theorem runBy_endsAlike {s : Session SimHost} (hready : Ready s.linkage)
    (hoffers : Offers "TSODFRE" s.linkage) (capability : Capability) (route : Route)
    (text : String) (options : CommandOptions) :
    EndsAlike (runBy capability route text options) s := by
  refine endsAlike_settings_bind ?_
  split
  · exact runUncaptured_endsAlike hready.named capability route text
  · split
    · exact runDirect_endsAlike hready hoffers capability route text
    · exact runExec_endsAlike hready.named capability route text
    · exact runAuto_endsAlike hready hoffers capability route text

/-- One command, whatever the host does about frees. -/
theorem run_endsAlike {s : Session SimHost} (hready : Ready s.linkage)
    (hoffers : Offers "TSODFRE" s.linkage) (text : String) (options : CommandOptions) :
    EndsAlike (run text options) s := by
  refine endsAlike_settings_bind ?_
  simp only
  split
  · exact endsAlike_fail _ s
  · split
    · exact endsAlike_fail _ s
    · have hestablish (failure : Option UInt16) : Session.Meets (.moves Harmless) linkage
          (refusing failure) (fun _ => True) _ establish establish :=
        meets_onEnvironment (Environment.meets_establish (served_harmless failure) .any
          (allows_byName (by decide)))
      have hestablish := fun failure => hestablish failure s hready.named
      have hreach : (establish : Op (Session SimHost) Capability).Ends s fun _ t =>
          Linkage.Reach (· = "IKJTSOEV") s.linkage t.linkage :=
        (probes_establish s hready.named).1
      rcases hgranted : establish s with ⟨fault | capability, t⟩
      · refine .inl ⟨fault, fun failure => ?_⟩
        rw [Op.run_bind_of_fault ((hestablish failure).1.run hgranted)]
      · have hmoves := hreach.ok hgranted
        have hby := runBy_endsAlike (hready.reach hmoves) (hoffers.reach hmoves) capability
          (routeOf options) (Text.trim text) options
        refine (hby.limitLines s.settings.lineLimit).of_eq fun failure => ?_
        exact Op.run_bind_of_ok ((hestablish failure).1.run hgranted)

-- ============================================================== theorems

/-- A host is touched, or is told what to do about frees. -/
inductive Retold : SimHost → SimHost → Prop where
  | touched {host after : SimHost} (h : Touched host after) : Retold host after
  | told (host : SimHost) (failure : Option UInt16) : Retold host (refusing failure host)

/-- Neither changes what the host was set up with. -/
theorem Retold.setup {host after : SimHost} (h : Retold host after) :
    after.reply = host.reply ∧ after.modules = host.modules := by
  cases h with
  | touched h => exact ⟨h.setup.1, h.setup.2.2⟩
  | told failure => exact ⟨rfl, rfl⟩

/-- A session is ready for commands at every moment, whatever became of its
frees. -/
theorem reachable_ready {host : SimHost} {settings : Settings} {s : Session SimHost}
    (h : Reachable Retold host settings s) (hreply : host.reply = .requested)
    (hpresent : (host.modules.get? "TSODFRE").isSome = true) :
    Ready s.linkage ∧ Offers "TSODFRE" s.linkage := by
  induction h with
  | refl =>
      refine ⟨⟨fun key entry hget => ?_, Storage.wellFormed_empty, hreply⟩,
        Linkage.upper_sought (by simp), hpresent, fun found hget => ?_⟩
      · cases hget
      · cases hget
  | @tail middle last hreach hstep ih =>
      obtain ⟨hready, hoffers⟩ := ih
      rcases hstep.cases hready.named with ⟨text, options, rfl⟩ | hmoves | ⟨after, htold, hlinkage⟩
      · have hall : Supported fun _ => True := fun _ _ => trivial
        have hmoves : Linkage.Reach (fun _ => True) middle.linkage
            (run text options middle).2.linkage :=
          (uses_run hall trivial text trivial middle hready.named).1
        exact ⟨hready.reach hmoves, hoffers.reach hmoves⟩
      · exact ⟨hready.reach hmoves, hoffers.reach hmoves⟩
      · obtain ⟨hreply', hmodules⟩ := htold.setup
        rw [hlinkage]
        refine ⟨⟨hready.named, hready.wellFormed, hreply'.trans hready.reply⟩,
          hoffers.upper, ?_, hoffers.cached⟩
        show (after.modules.get? "TSODFRE").isSome = true
        rw [hmodules]
        exact hoffers.present

/-- A failed free hides nothing. Take a session as it is when its host
frees what it is asked to, and as it is when the host refuses every free
for a reason. A command ends with the same fault in both, or returns in
both, and what it returns differs in the report of the free alone: none in
the first, and in the second the refusal, naming the private DD, exactly if
the command went the direct way. -/
theorem cleanup_masks_nothing {host : SimHost} {settings : Settings} {s : Session SimHost}
    (hs : Reachable Retold host settings s) (hreply : host.reply = .requested)
    (hpresent : (host.modules.get? "TSODFRE").isSome = true) (reason : UInt16) (text : String)
    (options : CommandOptions) :
    let kept := (run text options (s.mapHost (refusing none))).1
    let refused := (run text options (s.mapHost (refusing (some reason)))).1
    (∃ fault, kept = .error fault ∧ refused = .error fault)
      ∨ ∃ outcome cleanup, kept = .ok outcome ∧ outcome.cleanup = none
        ∧ refused = .ok { outcome with cleanup }
        ∧ (outcome.path = .direct → ∃ name, outcome.binding = some name
          ∧ cleanup = some (.cleanupFailed name.text 12 reason 0))
        ∧ (outcome.path ≠ .direct → cleanup = none) := by
  obtain ⟨hready, hoffers⟩ := reachable_ready hs hreply hpresent
  rcases run_endsAlike hready hoffers text options with
    ⟨fault, hfault⟩ | ⟨outcome, hlabelled, hok⟩
  · exact .inl ⟨fault, hfault none, hfault (some reason)⟩
  · refine .inr ⟨freedAs none outcome, (freedAs (some reason) outcome).cleanup, hok none, ?_,
      hok (some reason), fun hdirect => ?_, fun hother => ?_⟩
    · unfold freedAs
      cases outcome.binding with
      | none => rfl
      | some name => rfl
    · obtain ⟨name, hname⟩ := Option.isSome_iff_exists.mp (hlabelled.mpr hdirect)
      refine ⟨name, hname, ?_⟩
      unfold freedAs
      rw [hname]
      rfl
    · have hnone : outcome.binding = none := by
        cases hbinding : outcome.binding with
        | none => rfl
        | some name => exact absurd (hlabelled.mp (by rw [hbinding]; rfl)) hother
      unfold freedAs
      rw [hnone]
      rfl

/-- A listing whose private DD the host will not free. -/
theorem cleanup_masks_nothing_listalc :
    let host := SimHost.build {} noon
    let s := start host {}
    let options : CommandOptions := { mode := some .direct }
    let kept := (run "LISTALC" options (s.mapHost (refusing none))).1
    let refused := (run "LISTALC" options (s.mapHost (refusing (some 0x0438)))).1
    Reachable Retold host {} s ∧ host.reply = .requested
      ∧ (host.modules.get? "TSODFRE").isSome = true
      ∧ ∃ outcome, kept = .ok outcome ∧ outcome.path = .direct ∧ outcome.cleanup = none
        ∧ ∃ name : DdName, outcome.binding = some name
          ∧ refused = .ok { outcome with
              cleanup := some (.cleanupFailed name.text 12 0x0438 0) } := by
  intro host s options kept refused
  have hs : Reachable Retold host {} s := Relation.ReflTransGen.refl
  have hpresent : (host.modules.get? "TSODFRE").isSome = true := by decide +kernel
  have hpath : kept.toOption.map CommandOutcome.path = some .direct := by decide +kernel
  refine ⟨hs, rfl, hpresent, ?_⟩
  rcases cleanup_masks_nothing hs rfl hpresent 0x0438 "LISTALC" options with
    ⟨fault, hkept, -⟩ | ⟨outcome, cleanup, hkept, hnone, hrefused, hdirect, -⟩
  · rw [show kept = .error fault from hkept] at hpath
    cases hpath
  · rw [show kept = .ok outcome from hkept] at hpath
    have hdirectly : outcome.path = .direct := Option.some.inj hpath
    obtain ⟨name, hname, rfl⟩ := hdirect hdirectly
    exact ⟨outcome, hkept, hdirectly, hnone, name, hname, hrefused⟩

end TsoBridge.Sim
