/-
Sessions: what their operations do to the host, and which sessions there
are. `Reachable` is the closure of the operations a caller can make, each
with the state it leaves whether it succeeded, failed or trapped, and of
what may happen to the host between two of them (`touch`).

The operations are read once, like the engine below them: each meets a
contract if the operations on the parts of a session do that it is made of
(`Commanded` for a command, `Tended` for the others). A contract of the
linkage is met by these parts because the engine meets it; one that looks
at more of the session is asked about them.

Every reachable session has a named cache, so the readings of the engine
apply to it. The settings never change, and a session whose host is
touched only in ways that keep a fact about it keeps that fact if every
move does (`Reachable.keeps`).
-/
import TsoBridge.Proofs.Engine

namespace TsoBridge.Session

open Op (Contract Tried)

variable {H H' : Type} {κ α : Type} {branches : String → Prop}

/-- Meeting a contract on the sessions with two hosts. -/
abbrev Meets (C : Contract κ) (link : Session H → κ) (g : H → H') (causes : Error → Prop)
    (value : α → Prop) (x : Op (Session H) α) (y : Op (Session H') α) : Prop :=
  Op.Meets C link (mapHost g) causes value x y

/-- On one host, and whatever the causes, there is only the contract. -/
theorem meets_self {C : Contract κ} {link : Session H → κ} {value : α → Prop}
    {x : Op (Session H) α} (h : x.Fulfils C link value) :
    Meets C link (id : H → H) (fun _ => True) value x x :=
  h.meets (fun _ => rfl) fun _ _ _ => trivial

-- ========================================================== the operations

/-- The route of a command. -/
def routeOf (options : CommandOptions) : Route :=
  if options.authorized then .authorizedProcessor else .standard

section Walk

variable [Host H] [Host H'] {C : Contract κ} {link : Session H → κ} {g : H → H'}
  {causes : Error → Prop}

/-- What a command by a route is made of meets the contract. -/
structure Commanded (C : Contract κ) (link : Session H → κ) (g : H → H')
    (causes : Error → Prop) (route : Route) (text : String) : Prop where
  resolve : Meets C link g causes (fun _ => True) (onLinkage (Invocation.resolve route))
    (onLinkage (Invocation.resolve route))
  bound : ∀ capability, Meets C link g causes
    (fun released => Tried causes (fun _ => True) released.result)
    (onBindings (Bindings.withBinding capability none (captured capability route text)))
    (onBindings (Bindings.withBinding capability none (captured capability route text)))
  note : ∀ failures, Meets C link g causes (fun _ => True) (note failures) (note failures)
  uncaptured : ∀ capability, Meets C link g causes (fun _ => True)
    (onLinkage (Invocation.run capability route text none))
    (onLinkage (Invocation.run capability route text none))
  exec : ∀ capability, Meets C link g causes (fun _ => True)
    (onCapture (ExecCapture.run capability text)) (onCapture (ExecCapture.run capability text))
  command : ∀ flaw, causes (.invalidCommand flaw)

/-- What the other operations are made of meets the contract. -/
structure Tended (C : Contract κ) (link : Session H → κ) (g : H → H')
    (causes : Error → Prop) : Prop where
  establish : Meets C link g causes (fun _ => True) establish establish
  note : ∀ failures, Meets C link g causes (fun _ => True) (note failures) (note failures)
  allocate : ∀ capability request, Meets C link g causes (fun _ => True)
    (onBindings (Bindings.allocate capability request))
    (onBindings (Bindings.allocate capability request))
  free : ∀ capability name, Meets C link g causes (fun _ => True)
    (onBindings (Bindings.free capability name)) (onBindings (Bindings.free capability name))
  releaseAll : ∀ capability, Meets C link g causes (fun _ => True)
    (onBindings (Bindings.releaseAll capability)) (onBindings (Bindings.releaseAll capability))
  unknown : ∀ ddname, causes (.notAllocated ddname)

omit [Host H] [Host H'] in
/-- The settings are the same on both sides. -/
theorem meets_settings :
    Meets C link g causes (fun _ => True) (Op.gets settings) (Op.gets settings) :=
  Op.meets_gets settings settings fun _ => rfl

section Commanded

variable {route : Route} {text : String} (P : Commanded C link g causes route text)
  (capability : Capability)
include P

/-- The direct path fails with what its parts fail with, the work with the
private DD included. -/
theorem meets_runDirect : Meets C link g causes (fun _ => True) (runDirect capability route text)
    (runDirect capability route text) := by
  refine P.resolve.andThen fun _ => (P.bound capability).bind fun released hreleased => ?_
  refine (P.note _).andThen fun _ => ?_
  refine (Op.meets_lift ?_).andThen fun _ => Op.meets_return _
  refine Outcome.raises_ofExcept fun cause hcause => ?_
  rw [hcause] at hreleased
  exact hreleased

/-- The exec path is an exec, unless the route is the authorized one. -/
theorem meets_runExec : Meets C link g causes (fun _ => True) (runExec capability route text)
    (runExec capability route text) := by
  unfold runExec
  split
  · exact Op.meets_fail (P.command _)
  · exact (P.exec capability).andThen fun _ => Op.meets_return _

/-- Without capture, a command is its invocation. -/
theorem meets_runUncaptured :
    Meets C link g causes (fun _ => True) (runUncaptured capability route text)
      (runUncaptured capability route text) :=
  (P.uncaptured capability).andThen fun _ => Op.meets_return _

/-- The automatic mode goes on after a missing module, and is otherwise the
direct path. -/
theorem meets_runAuto : Meets C link g causes (fun _ => True) (runAuto capability route text)
    (runAuto capability route text) := by
  refine (meets_runDirect P capability).attempt.bind fun result hresult => ?_
  split
  · exact Op.meets_return _
  · split
    · exact meets_runExec P capability
    · exact Op.meets_fail hresult
  · exact Op.meets_fail hresult

/-- Settings and options choose among these paths. -/
theorem meets_runBy (options : CommandOptions) :
    Meets C link g causes (fun _ => True) (runBy capability route text options)
      (runBy capability route text options) := by
  refine meets_settings.andThen fun settings => ?_
  split
  · exact meets_runUncaptured P capability
  · split
    · exact meets_runDirect P capability
    · exact meets_runExec P capability
    · exact meets_runAuto P capability

end Commanded

/-- A command that is not refused by the policy asks about the environment
and runs by the route of its options. -/
theorem meets_run {text : String} {options : CommandOptions}
    (P : Commanded C link g causes (routeOf options) (Text.trim text))
    (hestablish : Meets C link g causes (fun _ => True) establish establish)
    (hdenied : ∀ verb, causes (.policyDenied verb)) :
    Meets C link g causes (fun _ => True) (run text options) (run text options) := by
  refine meets_settings.andThen fun settings => ?_
  simp only
  split
  · exact Op.meets_fail (P.command _)
  · split
    · exact Op.meets_fail (hdenied _)
    · refine hestablish.andThen fun capability => ?_
      exact (meets_runBy P capability options).andThen fun _ => Op.meets_return _

/-- Nothing is asked of the host if nothing is live, and an environment that
cannot be had is what went wrong, so that establishing it may have any
causes. -/
theorem meets_sweep {tried : Error → Prop}
    (hestablish : Meets C link g tried (fun _ => True) establish establish)
    (hrelease : ∀ capability, Meets C link g causes (fun _ => True)
      (onBindings (Bindings.releaseAll capability)) (onBindings (Bindings.releaseAll capability)))
    (hnote : ∀ failures, Meets C link g causes (fun _ => True) (note failures) (note failures)) :
    Meets C link g causes (fun _ => True) releaseAll releaseAll := by
  refine (Op.meets_gets _ _ fun _ => rfl).andThen fun live => ?_
  split
  · exact Op.meets_return _
  · refine hestablish.attempt.andThen fun result => ?_
    split
    · exact Op.meets_return _
    · exact (hrelease _).andThen fun failures => (hnote failures).andThen fun _ =>
        Op.meets_return _

section Tended

variable (P : Tended C link g causes)
include P

/-- An allocation establishes the environment first. -/
theorem meets_allocate (request : AllocationRequest) :
    Meets C link g causes (fun _ => True) (allocate request) (allocate request) :=
  P.establish.andThen fun capability => P.allocate capability request

/-- A free of a name that is not live asks nobody. -/
theorem meets_free (name : DdName) :
    Meets C link g causes (fun _ => True) (free name) (free name) := by
  refine (Op.meets_gets _ _ fun _ => rfl).andThen fun live => ?_
  split
  · exact Op.meets_fail (P.unknown _)
  · exact P.establish.andThen fun capability => P.free capability name

/-- So does a sweep. -/
theorem meets_releaseAll : Meets C link g causes (fun _ => True) releaseAll releaseAll :=
  meets_sweep P.establish P.releaseAll P.note

end Tended
end Walk

-- ============================================================ the parts

section Parts

variable {C : Contract (Linkage H)} {g : H → H'} {causes : Error → Prop} {value : α → Prop}

/-- A contract of the linkage, met on a part of the session, is met by the
session. -/
theorem meets_onLinkage {x : Op (Linkage H) α} {y : Op (Linkage H') α}
    (h : Linkage.Meets C g causes value x y) :
    Meets C linkage g causes value (onLinkage x) (onLinkage y) :=
  h.on (fun _ => rfl) (fun _ _ => rfl) (fun _ => rfl) fun _ _ => rfl

/-- So is one met on the environment and the linkage together. -/
theorem meets_onEnvironment {x : Op (Linkage H × Environment) α}
    {y : Op (Linkage H' × Environment) α} (h : Linkage.MeetsBeside C g causes value x y) :
    Meets C linkage g causes value (onEnvironment x) (onEnvironment y) :=
  h.on (fun _ => rfl) (fun _ _ => rfl) (fun _ => rfl) fun _ _ => rfl

theorem meets_onBindings {x : Op (Linkage H × Bindings) α} {y : Op (Linkage H' × Bindings) α}
    (h : Linkage.MeetsBeside C g causes value x y) :
    Meets C linkage g causes value (onBindings x) (onBindings y) :=
  h.on (fun _ => rfl) (fun _ _ => rfl) (fun _ => rfl) fun _ _ => rfl

theorem meets_onCapture {x : Op (Linkage H × ExecCapture) α}
    {y : Op (Linkage H' × ExecCapture) α} (h : Linkage.MeetsBeside C g causes value x y) :
    Meets C linkage g causes value (onCapture x) (onCapture y) :=
  h.on (fun _ => rfl) (fun _ _ => rfl) (fun _ => rfl) fun _ _ => rfl

/-- Noting failures is done beside the linkage. -/
theorem meets_note (failures : List Error) :
    Meets C linkage g causes (fun _ => True) (note failures) (note failures) :=
  Op.meets_still (fun _ => rfl) (fun _ => rfl) (fun _ => nofun) (Op.raises_modify _)
    fun _ _ _ => trivial

end Parts

/-- The modules that allocate, free and prepare, and run no command. -/
def supportModules : List String :=
  ["IKJTSOEV", "TSODALC", "TSODFRE"] ++ Invocation.prepareModules

section Served

variable [Host H] [Host H'] {C : Contract (Linkage H)} {g : H → H'} {causes : Error → Prop}
  {terms : Linkage.Terms} (K : Linkage.Served C g terms)
include K

/-- A command and the reading of its output. -/
theorem meets_captured (hprepare : ∀ module ∈ Invocation.prepareModules, terms.Allows module)
    (hrun : Error.Running causes) (hserve : Error.Serving causes)
    (hreads : Host.ReadsWith H causes) {route : Route} {text : String}
    (hroute : terms.Allows route.module) (hsend : terms.Sends route text)
    (capability : Capability) (name : DdName) :
    Linkage.Meets C g causes (fun _ => True) (captured capability route text name)
      (captured capability route text name) := by
  refine (Invocation.meets_run K hrun hserve.service hprepare hroute capability text
    (some name) hsend).andThen fun _ => ?_
  refine (Output.meets_readLines K hreads hrun.mechanical name.text).andThen fun _ => ?_
  exact Op.meets_return _

variable (hsupport : ∀ module ∈ supportModules, terms.Allows module)
include hsupport

/-- The work with a private DD; the cause of a failed command is in its
result. -/
theorem meets_bound (hrun : Error.Running causes) (hgrant : Error.Granting causes)
    (hreads : Host.ReadsWith H causes) {route : Route} {text : String}
    (hroute : terms.Allows route.module) (hsend : terms.Sends route text)
    (capability : Capability) :
    Meets C linkage g causes (fun released => Tried causes (fun _ => True) released.result)
      (onBindings (Bindings.withBinding capability none (captured capability route text)))
      (onBindings (Bindings.withBinding capability none (captured capability route text))) := by
  have hwork : ∀ name, Linkage.MeetsBeside C g causes (fun _ => True)
      (Op.onFirst (captured capability route text name) : Op (Linkage H × Bindings) _)
      (Op.onFirst (captured capability route text name)) := fun name =>
    (meets_captured K (fun module hmem => hsupport module (List.mem_append_right _ hmem)) hrun
      hgrant.toServing hreads hroute hsend capability name).onFirst
  refine meets_onBindings (Bindings.meets_withBinding
    (Bindings.meets_allocate K hgrant (hsupport _ (by simp [supportModules]))
      (hsupport _ (by simp [supportModules])) capability _) hwork fun name => ?_)
  exact Bindings.meets_free K .any (hsupport _ (by simp [supportModules])) capability name

/-- A contract of the linkage is met by commands. -/
theorem commanded_served (hrun : Error.Running causes) (hgrant : Error.Granting causes)
    (hreads : Host.ReadsWith H causes) {route : Route} {text : String}
    (hroute : terms.Allows route.module) (hexec : terms.Allows "IRXEXEC")
    (hsend : terms.Sends route text) (hask : terms.Asks text) :
    Commanded C linkage g causes route text where
  resolve := (meets_onLinkage (Invocation.meets_resolve K hgrant.service route)).any
  bound := meets_bound K hsupport hrun hgrant hreads hroute hsend
  note := meets_note
  uncaptured capability := meets_onLinkage (Invocation.meets_run K hrun hgrant.service
    (fun module hmem => hsupport module (List.mem_append_right _ hmem)) hroute capability text
    none hsend)
  exec capability := meets_onCapture (ExecCapture.meets_run K hreads hrun.toExecuting
    hgrant.service hexec capability text hask)
  command := hrun.command

/-- Establishing is done on the environment and on the linkage. -/
theorem meets_establish (hask : Error.Asking causes) :
    Meets C linkage g causes (fun _ => True) establish establish :=
  meets_onEnvironment
    (Environment.meets_establish K hask (hsupport _ (by simp [supportModules])))

/-- A contract of the linkage is met by the other operations. -/
theorem tended_served (hask : Error.Asking causes) (hgrant : Error.Granting causes) :
    Tended C linkage g causes where
  establish := meets_establish K hsupport hask
  note := meets_note
  allocate capability request := meets_onBindings (Bindings.meets_allocate K hgrant
    (hsupport _ (by simp [supportModules])) (hsupport _ (by simp [supportModules])) capability
    request)
  free capability name := meets_onBindings (Bindings.meets_free K hgrant
    (hsupport _ (by simp [supportModules])) capability name)
  releaseAll capability := meets_onBindings (Bindings.meets_releaseAll fun name =>
    Bindings.meets_free K hgrant (hsupport _ (by simp [supportModules])) capability name)
  unknown := hgrant.unknown

end Served

-- ======================================================= the settings

/-- The settings are the same. -/
def SameSettings (s t : Session H) : Prop :=
  t.settings = s.settings

instance : IsPreorder (Session H) SameSettings where
  refl _ := rfl
  trans _ _ _ h h' := h'.trans h

/-- The settings are in none of the parts an operation works on. -/
theorem settings_onLinkage (x : Op (Linkage H) α) (s : Session H) :
    (onLinkage x s).2.settings = s.settings :=
  rfl

theorem settings_onBindings (x : Op (Linkage H × Bindings) α) (s : Session H) :
    (onBindings x s).2.settings = s.settings :=
  rfl

theorem settings_onCapture (x : Op (Linkage H × ExecCapture) α) (s : Session H) :
    (onCapture x s).2.settings = s.settings :=
  rfl

/-- An operation that leaves the settings alone. -/
theorem meets_sameSettings {value : α → Prop} {x : Op (Session H) α}
    (hsame : ∀ s, (x s).2.settings = s.settings) (hvalue : ∀ a, value a) :
    Meets (.keeping (fun _ => True) SameSettings) id (id : H → H) (fun _ => True) value x x :=
  meets_self fun s _ => Op.Contract.kept_keeping trivial (hsame s) fun a _ => hvalue a

variable [Host H]

/-- Establishing leaves the settings alone. -/
theorem sameSettings_establish : (establish : Op (Session H) Capability).Within SameSettings :=
  fun _ => rfl

/-- So do the parts of a command, each on its part of the session. -/
theorem commanded_sameSettings (route : Route) (text : String) :
    Commanded (.keeping (fun _ => True) SameSettings) id (id : H → H) (fun _ => True) route
      text where
  resolve := meets_sameSettings (settings_onLinkage _) fun _ => trivial
  bound _ := meets_sameSettings (settings_onBindings _) fun released => Op.tried_any released.result
  note _ := meets_sameSettings (fun _ => rfl) fun _ => trivial
  uncaptured _ := meets_sameSettings (settings_onLinkage _) fun _ => trivial
  exec _ := meets_sameSettings (settings_onCapture _) fun _ => trivial
  command _ := trivial

/-- And those of the other operations. -/
theorem tended_sameSettings :
    Tended (.keeping (fun _ => True) SameSettings) id (id : H → H) fun _ => True where
  establish := meets_sameSettings (fun _ => rfl) fun _ => trivial
  note _ := meets_sameSettings (fun _ => rfl) fun _ => trivial
  allocate _ _ := meets_sameSettings (settings_onBindings _) fun _ => trivial
  free _ _ := meets_sameSettings (settings_onBindings _) fun _ => trivial
  releaseAll _ := meets_sameSettings (settings_onBindings _) fun _ => trivial
  unknown _ := trivial

/-- So a command leaves the settings alone, however it ends. -/
theorem sameSettings_run (text : String) (options : CommandOptions) :
    (run text options : Op (Session H) CommandOutcome).Within SameSettings := by
  have hmeets : Meets (.keeping (fun _ => True) SameSettings) id (id : H → H) (fun _ => True)
      (fun _ => True) (run text options) (run text options) :=
    meets_run (commanded_sameSettings _ _) tended_sameSettings.establish fun _ => trivial
  exact fun s => (hmeets.fulfils s trivial).stays

-- ============================================================== reaching

/-- What a caller can make happen to a session: one of its operations,
however it ends, or a change of the host that `touch` allows. -/
inductive Step (touch : H → H → Prop) : Session H → Session H → Prop where
  | run (s : Session H) (text : String) (options : CommandOptions) :
      Step touch s (run text options s).2
  | allocate (s : Session H) (request : AllocationRequest) :
      Step touch s (allocate request s).2
  | free (s : Session H) (name : DdName) : Step touch s (free name s).2
  | releaseAll (s : Session H) : Step touch s (releaseAll s).2
  | message (s : Session H) (text : String) (level : MessageLevel) :
      Step touch s (message text level s).2
  | takeFailures (s : Session H) : Step touch s (takeFailures s).2
  | establish (s : Session H) : Step touch s (establish s).2
  | adopt (s : Session H) (cppl : Address) : Step touch s (adopt cppl s).2
  | touch (s : Session H) {host : H} (h : touch s.host host) :
      Step touch s { s with linkage := { s.linkage with host } }

/-- The sessions that come of a host and settings. -/
def Reachable (touch : H → H → Prop) (host : H) (settings : Settings) : Session H → Prop :=
  Relation.ReflTransGen (Step touch) (start host settings)

variable {touch : H → H → Prop}

/-- No step changes the settings. -/
theorem Step.settings {s t : Session H} (h : Step touch s t) : t.settings = s.settings := by
  have hkept {α : Type} {x : Op (Session H) α} (hx : Meets (.keeping (fun _ => True) SameSettings)
      id (id : H → H) (fun _ => True) (fun _ => True) x x) : (x s).2.settings = s.settings :=
    (hx.fulfils s trivial).stays
  cases h with
  | run text options => exact sameSettings_run text options s
  | allocate request => exact hkept (meets_allocate tended_sameSettings request)
  | free name => exact hkept (meets_free tended_sameSettings name)
  | releaseAll => exact hkept (meets_releaseAll tended_sameSettings)
  | _ => rfl

/-- So a session keeps the settings it was started with. -/
theorem Reachable.settings {host : H} {settings : Settings} {s : Session H}
    (h : Reachable touch host settings s) : s.settings = settings := by
  induction h with
  | refl => rfl
  | tail _ hstep ih => exact hstep.settings.trans ih

-- ============================================================== the moves

/-- Moves on a part of the session are moves of the session. -/
theorem uses_onLinkage {value : α → Prop} {x : Op (Linkage H) α}
    (h : x.Uses id branches value) : (onLinkage x).Uses linkage branches value :=
  h.on (fun _ => rfl) fun _ _ => rfl

theorem uses_onEnvironment {value : α → Prop} {x : Op (Linkage H × Environment) α}
    (h : x.Uses Prod.fst branches value) : (onEnvironment x).Uses linkage branches value :=
  h.on (fun _ => rfl) fun _ _ => rfl

theorem uses_onBindings {value : α → Prop} {x : Op (Linkage H × Bindings) α}
    (h : x.Uses Prod.fst branches value) : (onBindings x).Uses linkage branches value :=
  h.on (fun _ => rfl) fun _ _ => rfl

theorem uses_onCapture {value : α → Prop} {x : Op (Linkage H × ExecCapture) α}
    (h : x.Uses Prod.fst branches value) : (onCapture x).Uses linkage branches value :=
  h.on (fun _ => rfl) fun _ _ => rfl

/-- Noting failures makes no move. -/
theorem uses_note (failures : List Error) :
    (note failures : Op (Session H) Unit).Uses linkage branches fun _ => True :=
  Op.uses_still fun _ => ⟨rfl, fun _ _ => trivial⟩

/-- A message is one move, a line for the terminal. -/
theorem uses_message (text : String) (level : MessageLevel) :
    (message text level : Op (Session H) Unit).Uses linkage branches fun _ => True :=
  uses_onLinkage fun link _ => ⟨(Linkage.Move.putLine link text level).reach, fun _ _ => trivial⟩

variable [Host.LoadsByName H]

/-- The support modules are among those a session may branch to. -/
def Supported (branches : String → Prop) : Prop :=
  ∀ module ∈ supportModules, branches module

namespace Supported

/-- None of the support modules runs a command. -/
theorem quiet : Supported Quiet := by
  unfold Supported Quiet isExecute
  decide +kernel

variable (h : Supported branches)
include h

/-- So the engine may branch to every one of them. -/
theorem allows : ∀ module ∈ supportModules, (Linkage.Terms.byName branches).Allows module :=
  fun module hmodule => Linkage.Terms.allows_byName (h module hmodule)

theorem environment : branches "IKJTSOEV" := h _ (by simp [supportModules])

theorem allocate : branches "TSODALC" := h _ (by simp [supportModules])

theorem free : branches "TSODFRE" := h _ (by simp [supportModules])

theorem prepare : ∀ module ∈ Invocation.prepareModules, branches module :=
  fun module hmodule => h module (List.mem_append_right _ hmodule)

end Supported

open Linkage.Terms (allows_byName)

/-- Establishing branches to support modules at most. -/
theorem uses_establish (h : Supported branches) :
    (establish : Op (Session H) Capability).Uses linkage branches fun _ => True :=
  (meets_establish Linkage.served h.allows .any).uses

/-- Of the support modules it takes one. -/
theorem probes_establish :
    (establish : Op (Session H) Capability).Uses linkage (· = "IKJTSOEV") fun _ => True :=
  uses_onEnvironment (Environment.uses_establish rfl)

/-- A command with its output branches to a prepare module and to that of
its route. -/
theorem uses_captured (hprepare : ∀ module ∈ Invocation.prepareModules, branches module)
    {route : Route} (hroute : branches route.module) (capability : Capability) (text : String)
    (name : DdName) :
    (captured capability route text name : Op (Linkage H) (DdName × CommandReport)).Uses id
      branches fun _ => True :=
  (meets_captured Linkage.served (fun module hmem => allows_byName (hprepare module hmem)) .any Error.Granting.any.toServing .any
    (allows_byName hroute) (fun _ _ _ _ _ => trivial) capability name).uses

/-- A command makes moves, those of its route. -/
theorem commanded_moves [Host H'] {g : H → H'} (maps : Host.Maps g branches)
    (h : Supported branches) {route : Route} (hroute : branches route.module)
    (hexec : branches "IRXEXEC") (text : String) :
    Commanded (.moves branches) linkage g (fun _ => True) route text :=
  commanded_served (Linkage.served_moves maps) h.allows .any .any .any (allows_byName hroute)
    (allows_byName hexec) (fun _ _ _ _ _ => trivial) fun _ => trivial

/-- So do the other operations. -/
theorem tended_moves [Host H'] {g : H → H'} (maps : Host.Maps g branches)
    (h : Supported branches) : Tended (.moves branches) linkage g fun _ => True :=
  tended_served (Linkage.served_moves maps) h.allows .any .any

/-- A command branches to the support modules, to the module of its route
and to the interpreter. -/
theorem uses_run (h : Supported branches) (hexec : branches "IRXEXEC") (text : String)
    {options : CommandOptions} (hroute : branches (routeOf options).module) :
    (run text options : Op (Session H) CommandOutcome).Uses linkage branches
      fun _ => True :=
  (meets_run (commanded_moves (Host.maps_id branches) h hroute hexec _)
    (tended_moves (Host.maps_id branches) h).establish fun _ => trivial).uses

-- =========================================================== invariants

/-- A step runs a command, makes support moves, or touches the host. -/
theorem Step.cases {s t : Session H} (h : Step touch s t) (hnamed : s.linkage.Named) :
    (∃ text options, t = (Session.run text options s).2)
      ∨ Linkage.Reach (· ∈ supportModules) s.linkage t.linkage
      ∨ ∃ host, touch s.host host ∧ t.linkage = { s.linkage with host } := by
  have hsupport : Supported (· ∈ supportModules) := fun _ h => h
  have htended : Tended (.moves (· ∈ supportModules)) linkage (id : H → H) fun _ => True :=
    tended_moves (Host.maps_id _) hsupport
  cases h with
  | run text options => exact .inl ⟨text, options, rfl⟩
  | allocate request => exact .inr (.inl ((meets_allocate htended request).uses s hnamed).1)
  | free name => exact .inr (.inl ((meets_free htended name).uses s hnamed).1)
  | releaseAll => exact .inr (.inl ((meets_releaseAll htended).uses s hnamed).1)
  | message text level => exact .inr (.inl (uses_message text level s hnamed).1)
  | takeFailures => exact .inr (.inl (Linkage.Reach.refl _))
  | establish => exact .inr (.inl (uses_establish hsupport s hnamed).1)
  | adopt cppl => exact .inr (.inl (Linkage.Reach.refl _))
  | touch h => exact .inr (.inr ⟨_, h, rfl⟩)

/-- Whatever a caller does, modules stay filed under their names. -/
theorem Step.named {s t : Session H} (h : Step touch s t) (hnamed : s.linkage.Named) :
    t.linkage.Named := by
  rcases h.cases hnamed with ⟨text, options, rfl⟩ | hreach | ⟨host, -, hlinkage⟩
  · have hall : Supported fun _ => True := fun _ _ => trivial
    exact (uses_run hall trivial text trivial s hnamed).1.named hnamed
  · exact hreach.named hnamed
  · rw [hlinkage]
    exact hnamed

/-- The cache of a reachable session is named. -/
theorem Reachable.named {host : H} {settings : Settings} {s : Session H}
    (h : Reachable touch host settings s) : s.linkage.Named := by
  induction h with
  | refl =>
      intro key entry hget
      cases hget
  | tail _ hstep ih => exact hstep.named ih

end TsoBridge.Session
