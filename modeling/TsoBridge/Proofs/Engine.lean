/-
The engine read once, operation by operation. Each operation meets a
contract (`Op.Meets`) as soon as what it calls the host with does, so a
question that is put as a contract has its answer for the whole engine
when it is answered for the calls: `Linkage.Served` lists these answers.
No operation of the engine is gone through again for such a question after
this file.

# What is known of a module

A contract may look at what was found under which name and at what a
service is handed. `Linkage.Terms` says what that is: the entry points a
name may stand for, the modules that may be branched to, and the tokens,
call blocks and requests that may be sent. Each lemma names the modules its
operation branches to, so one reading serves every set of modules that
holds them.

The first contract is that of the moves, at the end of the file: which
moves an operation makes, and which modules it branches to.
-/
import TsoBridge.Proofs.Exchange
import TsoBridge.Proofs.Linkage

namespace TsoBridge

open Op (Contract Meets Tried)

variable {H H' : Type} {ρ κ α β : Type}

-- ================================================================ the terms

namespace Linkage

/-- The modules the engine looks for. -/
abbrev soughtModules : List String :=
  ["IKJTSOEV", "TSODALC", "TSODFRE", "IRXEXEC", "IKJEFTSR", "TSOEFTR"]
    ++ Invocation.prepareModules

/-- Each is looked for under its own name. -/
theorem upper_sought {module : String} (h : module ∈ soughtModules) :
    Text.upper module = module := by
  have hall : ∀ module ∈ soughtModules, Text.upper module = module := by decide +kernel
  exact hall module h

end Linkage

/-- The module of a route is one of them. -/
theorem Route.module_sought (route : Route) : route.module ∈ Linkage.soughtModules := by
  cases route
  · simp [Route.module]
  · simp [Route.module]

/-- The modules a command is prepared with are not the one that is asked
about the environment. -/
theorem Invocation.prepare_ne_environment : ∀ module ∈ prepareModules, module ≠ "IKJTSOEV" := by
  decide

/-- Nor is the module it runs with. -/
theorem Route.ne_environment (route : Route) : route.module ≠ "IKJTSOEV" := by
  cases route <;> decide

namespace Linkage

/-- What the services are called with. -/
structure Terms where
  /-- The entry points a module that was found may have. -/
  known : String → EntryPoint → Prop
  /-- The modules that may be branched to. -/
  called : String → Prop
  /-- The tokens a prepare service may leave. -/
  token : Bytes → Prop
  /-- The call blocks that may be sent by a route. -/
  block : Route → CallBlock → Prop
  /-- The requests that may be sent to the interpreter. -/
  request : ExecRequest → Prop

namespace Terms

/-- Modules go by their names, and some may be branched to. -/
def byName (branches : String → Prop) : Terms where
  known module entry := entry.module = module
  called := branches
  token _ := True
  block _ _ := True
  request _ := True

/-- Nothing is known, and everything may be done. -/
def any : Terms where
  known _ _ := True
  called _ := True
  token _ := True
  block _ _ := True
  request _ := True

/-- A module may be branched to once it was found. -/
def Allows (terms : Terms) (module : String) : Prop :=
  ∀ entry, terms.known module entry → terms.called entry.module

/-- A block for the command, whatever the token and the output DD, may be
sent. -/
def Sends (terms : Terms) (route : Route) (command : String) : Prop :=
  ∀ (output : Option String) token bare, terms.token token →
    CallBlock.make route.flags (route.textOf (Text.trim command)) token = .ok bare →
    terms.block route { bare with output }

/-- The command may be sent to the interpreter, whatever the names it is
called with. -/
def Asks (terms : Terms) (command : String) : Prop :=
  ∀ capture : ExecCapture, terms.request (capture.requestOf (Text.trim command))

/-- A module that goes by its name may be branched to if its name may. -/
theorem allows_byName {branches : String → Prop} {module : String} (h : branches module) :
    (byName branches).Allows module :=
  fun _ hentry => hentry ▸ h

end Terms

variable [Host H] [Host H']

/-- The engine keeps the contract wherever it turns to the host, on the
terms; and all of it is the same on both sides of a map of hosts. -/
structure Served (C : Contract (Linkage H)) (g : H → H') (terms : Terms) : Prop where
  maps : Host.Maps g terms.called
  fetch : ∀ module ∈ soughtModules, (fetch module).Fulfils C id (terms.known module)
  question : ∀ entry, terms.known "IKJTSOEV" entry → terms.called entry.module →
    (Environment.question entry).Fulfils C id fun _ => True
  allocate : ∀ entry capability ddname wanted, terms.known "TSODALC" entry →
    terms.called entry.module →
    (Bindings.requestAllocate entry capability ddname wanted).Fulfils C id fun _ => True
  free : ∀ entry capability ddname, terms.known "TSODFRE" entry → terms.called entry.module →
    (Bindings.request entry capability ddname
      (fun area => WorkArea.prepareFree Bindings.blankArea area ddname)
      WorkArea.decodeFree).Fulfils C id fun _ => True
  prepare : ∀ entry, (∃ module ∈ Invocation.prepareModules, terms.known module entry) →
    terms.called entry.module →
    (Invocation.sendPrepare entry).Fulfils C id fun answer => terms.token answer.2.token
  execute : ∀ entry route capability block, terms.known route.module entry →
    terms.called entry.module → terms.block route block →
    (Invocation.sendBlock entry capability block).Fulfils C id fun _ => True
  interpret : ∀ entry capability request, terms.known "IRXEXEC" entry →
    terms.called entry.module → terms.request request →
    (ExecCapture.callExec entry capability request).Fulfils C id fun _ => True
  openRecords : ∀ ddname, (Output.openRecords ddname).Fulfils C id fun _ => True
  openStream : ∀ ddname, (Output.openStream ddname).Fulfils C id fun _ => True

/-- A relation that the moves stay in is kept wherever the engine turns to
the host. -/
theorem served_keeping {given : Linkage H → Prop} {R : Linkage H → Linkage H → Prop}
    [IsPreorder (Linkage H) R] {g : H → H'} {terms : Terms} (maps : Host.Maps g terms.called)
    (hgiven : ∀ link after, R link after → given link → given after)
    (hfetch : ∀ module ∈ soughtModules,
      (Linkage.fetch module).Fulfils (.keeping given R) id (terms.known module))
    (hposted : ∀ (entry : EntryPoint) {α : Type} {x y : Op (Linkage H) α},
      terms.called entry.module → Posted entry x y → x.Within R)
    (htoken : ∀ token, terms.token token)
    (hrecords : ∀ ddname, (Output.openRecords ddname).Within R)
    (hstream : ∀ ddname, (Output.openStream ddname).Within R) :
    Served (.keeping given R) g terms where
  maps := maps
  fetch := hfetch
  question entry _ hcalled :=
    (hposted entry hcalled (Environment.posted_question entry)).fulfils hgiven
  allocate entry capability ddname wanted _ hcalled :=
    (hposted entry hcalled (Bindings.posted_allocate entry capability ddname wanted)).fulfils hgiven
  free entry capability ddname _ hcalled :=
    (hposted entry hcalled (Bindings.posted_free entry capability ddname)).fulfils hgiven
  prepare entry _ hcalled :=
    ((hposted entry hcalled (Invocation.posted_sendPrepare entry)).fulfils hgiven).knowing
      fun _ _ _ _ => htoken _
  execute entry _ capability block _ hcalled _ :=
    (hposted entry hcalled (Invocation.posted_sendBlock entry capability block)).fulfils hgiven
  interpret entry capability request _ hcalled _ :=
    (hposted entry hcalled (ExecCapture.posted_callExec entry capability request)).fulfils hgiven
  openRecords ddname := (hrecords ddname).fulfils hgiven
  openStream ddname := (hstream ddname).fulfils hgiven

/-- The contract that asks nothing is always kept. -/
theorem served_free {g : H → H'} (maps : Host.Maps g fun _ => True) : Served .free g .any where
  maps := maps
  fetch _ _ := Op.fulfils_free _ _
  question _ _ _ := Op.fulfils_free _ _
  allocate _ _ _ _ _ _ := Op.fulfils_free _ _
  free _ _ _ _ _ := Op.fulfils_free _ _
  prepare _ _ _ := Op.fulfils_free _ _
  execute _ _ _ _ _ _ _ := Op.fulfils_free _ _
  interpret _ _ _ _ _ _ := Op.fulfils_free _ _
  openRecords _ := Op.fulfils_free _ _
  openStream _ := Op.fulfils_free _ _

end Linkage

-- ============================================================ invocations

namespace Invocation

variable [Host H]

/-- A command that was taken on: it is not empty and not too long. -/
theorem make_ok {route : Route} {command : String} {output : Option DdName}
    {invocation : Invocation} (h : make route command output = .ok invocation) :
    invocation = { route, text := route.textOf (Text.trim command), output }
      ∧ Text.trim command ≠ ""
      ∧ (route.textOf (Text.trim command)).utf8ByteSize ≤ CallBlock.maxCommand := by
  unfold make at h
  simp only at h
  split at h
  · cases h
  · next hempty =>
    split at h
    · cases h
    · next hsize =>
      cases h
      exact ⟨rfl, hempty, Nat.not_lt.mp hsize⟩

/-- Prepare from idle: the call and the progress it leaves. -/
theorem prepare_run (link : Linkage H) (route : Route) (text : String) (output : Option DdName) :
    prepare (link, { route, text, output }) =
      match obtainToken route link with
      | (.ok token, after) =>
        (.ok (), after, { route, text, output, progress := .prepared, token := some token })
      | (.error (.error cause), after) =>
        (.error (.error cause), after, { route, text, output, progress := .failed })
      | (.error .trap, after) =>
        (.error .trap, after, { route, text, output, progress := .preparing }) := by
  show (Op.onFirst (obtainToken route)).attempt.andThen _ _ = _
  unfold Op.andThen Op.attempt Op.onFirst Op.on
  simp only
  rcases hcalled : obtainToken route link with ⟨(_ | _) | token, after⟩ <;> rfl

/-- Execute once prepared: the call and the progress it leaves. -/
theorem execute_run (capability : Capability) (link : Linkage H) {invocation : Invocation}
    (h : invocation.progress = .prepared) :
    execute capability (link, invocation) =
      match callExecute capability { invocation with progress := .executing } link with
      | (.ok report, after) => (.ok report, after, { invocation with progress := .succeeded })
      | (.error (.error cause), after) =>
        (.error (.error cause), after, { invocation with progress := .failed })
      | (.error .trap, after) =>
        (.error .trap, after, { invocation with progress := .executing }) := by
  obtain ⟨route, text, output, progress, token⟩ := invocation
  cases h
  show (Op.onFirst (callExecute capability _)).attempt.andThen _ _ = _
  unfold Op.andThen Op.attempt Op.onFirst Op.on
  simp only
  rcases hcalled : callExecute capability
    { route, text, output, progress := .executing, token } link with ⟨(_ | _) | report, after⟩
    <;> rfl

/-- An invocation that starts idle is never refused a move, so its
progress can be left out of a run. -/
theorem run_eq (capability : Capability) (route : Route) (command : String)
    (output : Option DdName) :
    (run capability route command output : Op (Linkage H) CommandReport) = (do
      let invocation ← liftM (make route command output)
      let token ← obtainToken route
      callExecute capability { invocation with progress := .executing, token := some token }) := by
  funext link
  unfold run
  cases hmake : make route command output with
  | error cause => rfl
  | ok invocation =>
      obtain ⟨rfl, -, -⟩ := make_ok hmake
      show (Op.beside _ (prepare >>= fun _ => execute capability)) link =
        (obtainToken route).andThen _ link
      unfold Op.beside
      show (let (result, (t, _)) := (prepare.andThen fun _ => execute capability) (link, _)
        (result, t)) = _
      unfold Op.andThen
      rw [prepare_run]
      rcases obtainToken route link with ⟨(_ | _) | token, after⟩
      · rfl
      · rfl
      · simp only
        rw [execute_run]
        · rcases callExecute capability _ after with ⟨(_ | _) | report, last⟩ <;> rfl
        · rfl

end Invocation

-- ======================================================== turning to the host

/-- Meeting a contract on the linkages of two hosts. -/
abbrev Linkage.Meets (C : Contract (Linkage H)) (g : H → H') (causes : Error → Prop)
    (value : α → Prop) (x : Op (Linkage H) α) (y : Op (Linkage H') α) : Prop :=
  Op.Meets C id (mapHost g) causes value x y

/-- Meeting it on linkages beside something that is the same on both
sides. -/
abbrev Linkage.MeetsBeside (C : Contract (Linkage H)) (g : H → H') (causes : Error → Prop)
    (value : α → Prop) (x : Op (Linkage H × ρ) α) (y : Op (Linkage H' × ρ) α) : Prop :=
  Op.Meets C Prod.fst (Prod.map (mapHost g) id) causes value x y

section Walk

variable {C : Contract (Linkage H)} {g : H → H'} {causes : Error → Prop} {value : α → Prop}

namespace Linkage

/-- What is beside the linkage does not matter to its contract. -/
theorem Meets.onFirst {x : Op (Linkage H) α} {y : Op (Linkage H') α}
    (h : Meets C g causes value x y) :
    MeetsBeside C g causes value (Op.onFirst x : Op (Linkage H × ρ) α) (Op.onFirst y) :=
  h.on (fun _ => rfl) (fun _ _ => rfl) (fun _ => rfl) fun _ _ => rfl

/-- A change beside the linkage. -/
theorem meets_put (f : ρ → ρ) : MeetsBeside C g causes (fun _ => True)
    (Op.onSecond (Op.modify f) : Op (Linkage H × ρ) Unit) (Op.onSecond (Op.modify f)) :=
  Op.meets_still (fun _ => rfl) (fun _ => rfl) (fun _ => nofun) (Op.raises_modify f).on
    fun _ _ _ => trivial

end Linkage

variable [Host H] [Host H'] {terms : Linkage.Terms} (K : Linkage.Served C g terms)
include K

open Linkage (Meets MeetsBeside)

namespace Linkage

/-- A module that is found is known under its name. -/
theorem meets_fetch (hservice : ∀ module, causes (.serviceUnavailable module)) {module : String}
    (h : module ∈ soughtModules) :
    Meets C g causes (terms.known module) (fetch module) (fetch module) :=
  (K.fetch module h).meets (matches_fetch K.maps module) (raises_fetch hservice module)

/-- The first module that is there is one of those asked for. -/
theorem meets_fetchFirst (hservice : ∀ module, causes (.serviceUnavailable module))
    {modules : List String} (h : ∀ module ∈ modules, module ∈ soughtModules) :
    Meets C g causes (fun entry => ∃ module ∈ modules, terms.known module entry)
      (fetchFirst modules) (fetchFirst modules) := by
  have hsearch : ∀ rest, (∀ module ∈ rest, module ∈ modules) →
      Meets C g causes (fun entry => ∃ module ∈ modules, terms.known module entry)
        (fetchFirst.search modules rest) (fetchFirst.search modules rest) := by
    intro rest hrest
    induction rest with
    | nil => exact Op.meets_fail (hservice _)
    | cons module rest ih =>
        have hmem := hrest module List.mem_cons_self
        refine (meets_fetch K hservice (h module hmem)).attempt.bind fun result hresult => ?_
        cases result with
        | ok entry => exact Op.meets_pure ⟨module, hmem, hresult⟩
        | error cause => exact ih fun other hother => hrest other (List.mem_cons_of_mem _ hother)
  exact hsearch modules fun _ hmodule => hmodule

end Linkage

-- ========================================================== environment

namespace Environment

variable (hask : Error.Asking causes) (h : terms.Allows "IKJTSOEV")
include hask h

/-- Asking about the environment is one question to one module. -/
theorem meets_probe : Meets C g causes (fun _ => True) probe probe := by
  refine (Linkage.meets_fetch K hask.service (by simp)).bind fun entry hentry => ?_
  exact (K.question entry hentry (h entry hentry)).meets
    ((posted_question entry).matches K.maps (h entry hentry))
    ((posted_question entry).raises hask.mechanical)

/-- What was found out is kept beside the linkage; a service that is missing
is an answer too. -/
theorem meets_discover : MeetsBeside C g causes (fun _ => True) discover discover := by
  refine (meets_probe K hask h).onFirst.attempt.bind fun result hresult => ?_
  simp only
  split
  · exact (Op.meets_return _).andThen fun _ => Linkage.meets_put _
  · exact (Op.meets_return _).andThen fun _ => Linkage.meets_put _
  · exact (Op.meets_fail hresult).bind fun _ (_ : True) => Linkage.meets_put _

/-- Establishing tells what is known, and discovers what is not. -/
theorem meets_establish : MeetsBeside C g causes (fun _ => True) establish establish := by
  refine (Op.meets_gets _ _ fun _ => rfl).andThen fun state => ?_
  refine (Op.meets_lift (raises_answer hask state)).andThen fun known => ?_
  split
  · exact Op.meets_return _
  · refine (meets_discover K hask h).andThen fun _ => ?_
    refine (Op.meets_gets _ _ fun _ => rfl).andThen fun state => ?_
    refine (Op.meets_lift (raises_answer hask state)).andThen fun answer => ?_
    split
    · exact Op.meets_return _
    · exact Op.meets_fail (hask.environment _ _ _)

end Environment

-- ============================================================== bindings

namespace Bindings

variable (hgrant : Error.Granting causes)
include hgrant

omit K [Host H] [Host H'] in
/-- The name of an allocation is the one asked for, or a generated one. -/
theorem meets_requestedName (wanted : AllocationRequest) :
    MeetsBeside C g causes (fun _ => True)
      (requestedName wanted : Op (Linkage H × Bindings) DdName)
      (requestedName wanted : Op (Linkage H' × Bindings) DdName) := by
  unfold requestedName
  split
  · exact (Op.meets_lift (DdName.raises_ofString hgrant _)).any
  · exact Op.meets_still (fun _ => rfl) (fun _ => rfl) (fun _ => nofun)
      (Op.Raises.on fun _ => Outcome.raises_ok _) fun _ _ _ => trivial

/-- A request to free goes to the free service. -/
theorem meets_requestFree (h : terms.Allows "TSODFRE") (capability : Capability)
    (ddname : String) :
    Meets C g causes (fun _ => True) (requestFree capability ddname)
      (requestFree capability ddname) := by
  refine (Linkage.meets_fetch K hgrant.service (by simp)).bind fun entry hentry => ?_
  exact (K.free entry capability ddname hentry (h entry hentry)).meets
    ((posted_free entry capability ddname).matches K.maps (h entry hentry))
    ((posted_free entry capability ddname).raises hgrant.mechanical)

omit hgrant in
/-- Taking back fails with no cause: it tries, and leaves it at that. -/
theorem meets_takeBack (h : terms.Allows "TSODFRE") (capability : Capability)
    (names : List String) :
    Meets C g causes (fun _ => True) (takeBack capability names) (takeBack capability names) := by
  induction names with
  | nil => exact Op.meets_return _
  | cons ddname rest ih =>
      refine (meets_requestFree K .any h capability ddname).attempt.andThen fun result => ?_
      cases result with
      | ok result =>
          show Meets C g causes _ (if _ then _ else _) (if _ then _ else _)
          split
          · exact Op.meets_return _
          · exact ih
      | error cause => exact ih

/-- Where the name assigned can be bound, nothing is taken back. -/
theorem meets_settle {result : AllocationResult}
    (h : result.succeeded = true →
      (∃ assigned, DdName.ofString result.assignedName = .ok assigned) ∨ terms.Allows "TSODFRE")
    (capability : Capability) (requested : DdName) :
    MeetsBeside C g causes (fun _ => True) (settle capability requested result)
      (settle capability requested result) := by
  unfold settle
  split
  · exact Op.meets_fail (hgrant.refused _ _ _ _ _)
  · next hnot =>
    split
    · exact (Linkage.meets_put _).andThen fun _ => Op.meets_return _
    · next cause hname =>
      rcases h (by simpa using hnot) with ⟨assigned, hassigned⟩ | hfree
      · rw [hname] at hassigned
        cases hassigned
      · refine (meets_takeBack K hfree capability _).onFirst.andThen fun _ => ?_
        exact Op.meets_fail (hgrant.unusable _ _ _ _ _)

/-- An allocation asks the allocation service, and takes back what it cannot
bind. -/
theorem meets_allocate (halloc : terms.Allows "TSODALC") (hfree : terms.Allows "TSODFRE")
    (capability : Capability) (wanted : AllocationRequest) :
    MeetsBeside C g causes (fun _ => True) (allocate capability wanted)
      (allocate capability wanted) := by
  refine (meets_requestedName hgrant wanted).andThen fun requested => ?_
  refine (Linkage.meets_fetch K hgrant.service (by simp)).onFirst.bind fun entry hentry => ?_
  have hrequest : Meets C g causes (fun _ => True)
      (requestAllocate entry capability requested wanted)
      (requestAllocate entry capability requested wanted) :=
    (K.allocate entry capability requested wanted hentry (halloc entry hentry)).meets
      ((posted_allocate entry capability requested wanted).matches K.maps (halloc entry hentry))
      ((posted_allocate entry capability requested wanted).raises hgrant.mechanical)
  refine hrequest.onFirst.andThen fun result => ?_
  exact meets_settle K hgrant (fun _ => .inr hfree) capability requested

/-- A free forgets the name before it asks. -/
theorem meets_free (h : terms.Allows "TSODFRE") (capability : Capability) (name : DdName) :
    MeetsBeside C g causes (fun _ => True) (free capability name) (free capability name) := by
  refine (Op.meets_gets _ _ fun _ => rfl).andThen fun live => ?_
  split
  · exact Op.meets_fail (hgrant.unknown _)
  · refine (Linkage.meets_fetch K hgrant.service (by simp)).onFirst.andThen fun _ => ?_
    refine (Linkage.meets_put _).andThen fun _ => ?_
    refine (meets_requestFree K hgrant h capability _).onFirst.andThen fun result => ?_
    split
    · exact Op.meets_return _
    · exact Op.meets_fail (hgrant.refused _ _ _ _ _)

end Bindings

-- ================================================================ output

namespace Output

variable (hreads : Host.ReadsWith H causes)
include hreads

/-- Opening a stream is left to the host. -/
theorem meets_openStream (ddname : String) :
    Meets C g causes (fun _ => True) (openStream ddname) (openStream ddname) :=
  (K.openStream ddname).meets (matches_openStream K.maps ddname)
    fun link => hreads.openStream link.host ddname

/-- A record source that was opened fails with one of the causes. -/
theorem meets_openRecords (ddname : String) :
    Meets C g causes (fun found => ∀ source cause, found = some source →
      source.failure = some cause → causes cause) (openRecords ddname) (openRecords ddname) := by
  refine Op.Fulfils.meets ((K.openRecords ddname).knowing fun link after found hopen => ?_)
    (matches_openRecords K.maps ddname) fun link => hreads.openRecords link.host ddname
  rintro source cause rfl hcause
  refine hreads.nextRecord link.host ddname source cause ?_ hcause
  have hopened : Outcome.ofExcept (Host.openRecords link.host ddname).1 = .ok (some source) :=
    congrArg Prod.fst hopen
  cases hfound : (Host.openRecords link.host ddname).1 with
  | ok found =>
      rw [hfound] at hopened
      exact congrArg Except.ok (Except.ok.inj hopened)
  | error cause =>
      rw [hfound] at hopened
      cases hopened

variable (hmechanical : Error.Mechanical causes)
include hmechanical

/-- The output of a DD is read by record, or else as a stream. -/
theorem meets_readLines (ddname : String) :
    Meets C g causes (fun _ => True) (readLines ddname) (readLines ddname) := by
  refine (meets_openRecords K hreads ddname).bind fun found hfound => ?_
  split
  · next source =>
    split
    · next cause hcause => exact Op.meets_fail (hfound source cause rfl hcause)
    · exact Op.meets_return _
  · refine (meets_openStream K hreads ddname).andThen fun source => ?_
    exact (Op.meets_lift (raises_drain hmechanical _ _ _)).andThen fun _ => Op.meets_return _

end Output

namespace Cursor

variable (hreads : Host.ReadsWith H causes) (hmechanical : Error.Mechanical causes)
include hreads hmechanical

/-- Skipping what is there reads the stream to its end. -/
theorem meets_syncToEnd (ddname : String) :
    MeetsBeside C g causes (fun _ => True) (syncToEnd ddname) (syncToEnd ddname) := by
  refine (Output.meets_openStream K hreads ddname).onFirst.andThen fun source => ?_
  refine (Op.meets_lift (Output.raises_drain hmechanical _ _ _)).andThen fun _ => ?_
  exact Linkage.meets_put _

/-- Reading from an offset reads the stream, and says whether it is that
long. -/
theorem meets_readFrom (ddname : String) (skip : Nat) :
    Meets C g causes (fun _ => True) (readFrom ddname skip) (readFrom ddname skip) := by
  refine (Output.meets_openStream K hreads ddname).andThen fun source => ?_
  split
  · refine (Op.meets_lift (Output.raises_drain hmechanical _ _ _)).andThen fun _ => ?_
    exact Op.meets_return _
  · split
    · exact Op.meets_fail (hmechanical _ rfl)
    · exact Op.meets_return _

/-- A stream that got shorter is read once more from its start. -/
theorem meets_readNewLines (ddname : String) :
    MeetsBeside C g causes (fun _ => True) (readNewLines ddname) (readNewLines ddname) := by
  refine (Op.meets_gets _ _ fun _ => rfl).andThen fun offset => ?_
  refine (meets_readFrom K hreads hmechanical ddname offset).onFirst.andThen fun found => ?_
  cases found with
  | some fresh =>
      refine (Op.meets_return _).andThen fun fresh => ?_
      exact (Linkage.meets_put _).andThen fun _ => Op.meets_return _
  | none =>
      refine (Linkage.meets_put _).andThen fun _ => ?_
      refine (meets_readFrom K hreads hmechanical ddname 0).onFirst.andThen fun again => ?_
      refine (Op.meets_return _).andThen fun fresh => ?_
      exact (Linkage.meets_put _).andThen fun _ => Op.meets_return _

end Cursor

-- ============================================================== commands

namespace Invocation

/-- The modules of a route: one of the prepare modules, and its own. -/
theorem meets_resolve (hservice : ∀ module, causes (.serviceUnavailable module)) (route : Route) :
    Meets C g causes (fun entries => (∃ module ∈ prepareModules, terms.known module entries.1)
      ∧ terms.known route.module entries.2) (resolve route) (resolve route) := by
  have hsought : ∀ module ∈ prepareModules, module ∈ Linkage.soughtModules :=
    fun _ => List.mem_append_right _
  refine (Linkage.meets_fetchFirst K hservice hsought).bind fun prepare hprepare => ?_
  refine (Linkage.meets_fetch K hservice route.module_sought).bind fun execute hexecute => ?_
  exact Op.meets_pure ⟨hprepare, hexecute⟩

variable (hrun : Error.Running causes)

include hrun in
/-- A prepare call that went wrong has a cause; otherwise its value is a
token on the terms. -/
theorem meets_callPrepare {entry : EntryPoint}
    (hentry : ∃ module ∈ prepareModules, terms.known module entry)
    (h : terms.called entry.module) :
    Meets C g causes terms.token (callPrepare entry) (callPrepare entry) := by
  have hsend : Meets C g causes (fun answer => terms.token answer.2.token) (sendPrepare entry)
      (sendPrepare entry) :=
    (K.prepare entry hentry h).meets ((posted_sendPrepare entry).matches K.maps h)
      ((posted_sendPrepare entry).raises hrun.mechanical)
  refine hsend.bind fun answer htoken => ?_
  simp only
  split
  · exact Op.meets_fail (hrun.prepare _ _ _)
  · exact Op.meets_pure htoken

include hrun in
/-- A token is obtained from the prepare module that resolves first. -/
theorem meets_obtainToken (hservice : ∀ module, causes (.serviceUnavailable module))
    (h : ∀ module ∈ prepareModules, terms.Allows module) (route : Route) :
    Meets C g causes terms.token (obtainToken route) (obtainToken route) := by
  refine (meets_resolve K hservice route).bind fun entries hentries => ?_
  obtain ⟨module, hmem, hknown⟩ := hentries.1
  exact meets_callPrepare K hrun hentries.1 (h module hmem _ hknown)

/-- What a call block is made of is on the terms if the block is. -/
theorem meets_callExecute (hexecute : Error.Executing causes)
    (hservice : ∀ module, causes (.serviceUnavailable module)) {invocation : Invocation}
    (h : terms.Allows invocation.route.module)
    (hblock : ∀ token bare, invocation.token = some token →
      CallBlock.make invocation.route.flags invocation.text token = .ok bare →
      terms.block invocation.route { bare with output := invocation.output.map DdName.text })
    (capability : Capability) :
    Meets C g causes (fun _ => True) (callExecute capability invocation)
      (callExecute capability invocation) := by
  refine (Op.meets_lift (raises_heldToken hexecute invocation)).bind fun token htoken => ?_
  refine (Linkage.meets_fetch K hservice invocation.route.module_sought).bind
    fun entry hentry => ?_
  refine (Op.meets_lift (CallBlock.raises_make hexecute _ _ _)).bind fun bare hbare => ?_
  have hheld : invocation.token = some token := by
    unfold heldToken at htoken
    split at htoken
    · next held heq => rw [heq, Except.ok.inj htoken]
    · cases htoken
  have hsend : Meets C g causes (fun _ => True) (sendBlock entry capability _)
      (sendBlock entry capability _) :=
    (K.execute entry invocation.route capability _ hentry (h entry hentry)
      (hblock token bare hheld hbare)).meets
      ((posted_sendBlock entry capability _).matches K.maps (h entry hentry))
      ((posted_sendBlock entry capability _).raises hexecute.mechanical)
  refine hsend.andThen fun answer => ?_
  exact (Op.meets_lift (raises_reportOf hexecute _ _)).any

/-- A command: the token comes from the prepare call, the call block from the
command text. -/
theorem meets_run (hrun : Error.Running causes)
    (hservice : ∀ module, causes (.serviceUnavailable module))
    (hprepare : ∀ module ∈ prepareModules, terms.Allows module) {route : Route}
    (hexecute : terms.Allows route.module) (capability : Capability) (command : String)
    (output : Option DdName) (hsend : terms.Sends route command) :
    Meets C g causes (fun _ => True) (run capability route command output)
      (run capability route command output) := by
  rw [run_eq, run_eq]
  refine (Op.meets_lift (raises_make hrun.toExecuting route command output)).bind
    fun invocation hmake => ?_
  obtain ⟨rfl, -, -⟩ := make_ok hmake
  refine (meets_obtainToken K hrun hservice hprepare route).bind fun token htoken => ?_
  refine meets_callExecute K hrun.toExecuting hservice hexecute (fun held bare hheld hbare => ?_)
    capability
  cases hheld
  exact hsend _ token bare htoken hbare

end Invocation

namespace ExecCapture

omit K [Host H] [Host H'] in
/-- The cursor stands beside the linkage. -/
theorem meets_onCursor {x : Op (Linkage H × Cursor) α} {y : Op (Linkage H' × Cursor) α}
    (h : MeetsBeside C g causes value x y) :
    MeetsBeside C g causes value (onCursor x) (onCursor y) :=
  h.on (fun _ => rfl) (fun _ _ => rfl) (fun _ => rfl) fun _ _ => rfl

variable (hreads : Host.ReadsWith H causes) (hexecute : Error.Executing causes)
include hreads hexecute

/-- Catching up skips what is there, the first time. -/
theorem meets_catchUp (capture : ExecCapture) :
    MeetsBeside C g causes (fun _ => True) (catchUp capture) (catchUp capture) := by
  unfold catchUp
  split
  · exact Op.meets_return _
  · exact meets_onCursor (Cursor.meets_syncToEnd K hreads hexecute.mechanical _)

/-- What an exec said is an answer, or the lines it wrote. -/
theorem meets_collect (outDd : String) (r15 : Int32) (eval : EvalResult) (rexxRc : Int32) :
    MeetsBeside C g causes (fun _ => True) (collect outDd r15 eval rexxRc)
      (collect outDd r15 eval rexxRc) := by
  unfold collect
  split
  · exact Op.meets_fail (hexecute.refused _ _ _)
  · split
    · exact Op.meets_fail (hexecute.answer _)
    · refine Op.Meets.andThen (meets_onCursor
        (Cursor.meets_readNewLines K hreads hexecute.mechanical outDd)) fun lines => ?_
      exact Op.meets_return _

/-- An exec catches up, calls the interpreter and collects. -/
theorem meets_run (hservice : ∀ module, causes (.serviceUnavailable module))
    (h : terms.Allows "IRXEXEC") (capability : Capability) (command : String)
    (hrequest : terms.Asks command) :
    MeetsBeside C g causes (fun _ => True) (run capability command) (run capability command) := by
  unfold run
  simp only
  split
  · exact Op.meets_fail (hexecute.command _)
  · refine (Linkage.meets_fetch K hservice (by simp)).onFirst.bind fun entry hentry => ?_
    refine (Op.meets_gets _ _ fun _ => rfl).andThen fun capture => ?_
    refine (meets_catchUp K hreads hexecute capture).andThen fun _ => ?_
    have hcall : Meets C g causes (fun _ => True)
        (callExec entry capability (capture.requestOf (Text.trim command)))
        (callExec entry capability (capture.requestOf (Text.trim command))) :=
      (K.interpret entry capability _ hentry (h entry hentry) (hrequest capture)).meets
        ((posted_callExec entry capability _).matches K.maps (h entry hentry))
        ((posted_callExec entry capability _).raises hexecute.mechanical)
    refine hcall.onFirst.andThen fun answer => ?_
    exact meets_collect K hreads hexecute _ _ _ _

end ExecCapture
end Walk

-- =============================================================== cleaning up

-- Here the contract may be about the bindings too. What is asked is that an
-- allocation, a free and the work between them meet it.
section Cleanup

variable [Host H] [Host H'] {C : Contract κ} {link : Linkage H × Bindings → κ} {g : H → H'}
  {causes tried : Error → Prop} {value : α → Prop} {capability : Capability}

namespace Bindings

/-- Meeting a contract beside bindings that are the same on both sides. -/
abbrev Meets (C : Contract κ) (link : Linkage H × Bindings → κ) (g : H → H')
    (causes : Error → Prop) (value : α → Prop) (x : Op (Linkage H × Bindings) α)
    (y : Op (Linkage H' × Bindings) α) : Prop :=
  Op.Meets C link (Prod.map (Linkage.mapHost g) id) causes value x y

omit [Host H] [Host H'] in
/-- On one host, and whatever the causes, there is only the contract. -/
theorem meets_self {x : Op (Linkage H × Bindings) α} (h : x.Fulfils C link value) :
    Meets C link (id : H → H) (fun _ => True) value x x :=
  h.meets (fun _ => rfl) fun _ _ _ => trivial

/-- A release fails with nothing: what went wrong is its value. -/
theorem meets_release {name : DdName}
    (h : Meets C link g tried (fun _ => True) (free capability name) (free capability name)) :
    Meets C link g causes (fun _ => True) (release capability name) (release capability name) := by
  refine h.attempt.andThen fun result => ?_
  split
  · exact Op.meets_return _
  · exact Op.meets_return _

/-- Releases are tried one after the other, and none stops the next. -/
theorem meets_releaseEach {names : List DdName}
    (h : ∀ name, Meets C link g tried (fun _ => True) (free capability name)
      (free capability name)) :
    Meets C link g causes (fun _ => True) (releaseEach capability names)
      (releaseEach capability names) := by
  induction names with
  | nil => exact Op.meets_return _
  | cons name rest ih =>
      refine (meets_release (h name)).andThen fun failure => ?_
      exact ih.andThen fun _ => Op.meets_return _

/-- All bindings that are live are released. -/
theorem meets_releaseAll
    (h : ∀ name, Meets C link g tried (fun _ => True) (free capability name)
      (free capability name)) :
    Meets C link g causes (fun _ => True) (releaseAll capability) (releaseAll capability) :=
  (Op.meets_gets _ _ fun _ => rfl).andThen fun _ => meets_releaseEach h

/-- Work with a binding does the work between an allocation and a free. The
cause the work ended with is in the result. -/
theorem meets_withBinding {hint : Option String} {work : DdName → Op (Linkage H) α}
    {work' : DdName → Op (Linkage H') α}
    (hallocate : Meets C link g causes (fun _ => True)
      (allocate capability (AllocationRequest.temporary hint))
      (allocate capability (AllocationRequest.temporary hint)))
    (hwork : ∀ name, Meets C link g tried value (Op.onFirst (work name))
      (Op.onFirst (work' name)))
    (hfree : ∀ name, Meets C link g (fun _ => True) (fun _ => True) (free capability name)
      (free capability name)) :
    Meets C link g causes (fun released => Tried tried value released.result)
      (withBinding capability hint work) (withBinding capability hint work') := by
  refine hallocate.andThen fun bound => ?_
  refine (hwork bound.1).attempt.bind fun result hresult => ?_
  exact (meets_release (hfree bound.1)).andThen fun _ => Op.meets_pure hresult

end Bindings
end Cleanup

-- ============================================================== the moves

section Moves

variable [Host H] {branches : String → Prop}

/-- Moves that branch to `branches` only. -/
abbrev Op.Contract.moves (branches : String → Prop) : Contract (Linkage H) :=
  .keeping Linkage.Named (Linkage.Reach branches)

/-- An operation that meets the contract makes such moves. -/
theorem Op.Meets.uses {σ σ' : Type} {link : σ → Linkage H} {image : σ → σ'} {value : α → Prop}
    {x : Op σ α} {y : Op σ' α} (h : Meets (.moves branches) link image (fun _ => True) value x y) :
    x.Uses link branches value :=
  fun s hs => (h s hs).2.mono fun _ _ ht => ⟨ht.1.stays, ht.1.value⟩

/-- What an operation moves, it keeps. -/
theorem Op.Uses.fulfils {σ : Type} {link : σ → Linkage H} {value : α → Prop} {x : Op σ α}
    (h : x.Uses link branches value) : x.Fulfils (.moves branches) link value :=
  fun s hs => (h s hs).mono fun _ _ ht => Contract.kept_keeping (ht.1.named hs) ht.1 ht.2

variable [Host.LoadsByName H]

namespace Linkage

/-- Fetching a module under its name. -/
theorem uses_fetch_named {module : String} (h : Text.upper module = module) :
    (fetch module : Op (Linkage H) EntryPoint).Uses id branches
      fun entry => entry.module = module := by
  have hfetch : (fetch module : Op (Linkage H) EntryPoint).Uses id branches
      fun entry => entry.module = Text.upper module := uses_fetch module
  rwa [h] at hfetch

omit [Host.LoadsByName H] in
/-- A posted service is a run of moves. -/
theorem Posted.reach {entry : EntryPoint} {x y : Op (Linkage H) α} (h : Posted entry x y) (hentry : branches entry.module) :
    x.Within (Reach branches) := by
  cases h with
  | framed h =>
      refine reach_framed (h.within ?_ (reach_call hentry))
      exact ⟨reach_obtain, reach_obtainWith, reach_write⟩

/-- Turning to the host is a matter of moves, and a module goes by its
name. -/
theorem served_moves [Host H'] {g : H → H'} (maps : Host.Maps g branches) :
    Served (.moves branches) g (.byName branches) := by
  refine served_keeping maps (fun _ _ => Reach.named) (fun module hmem => ?_)
    (fun entry _ _ _ hcalled hposted => ?_) (fun _ => trivial) (fun ddname link => ?_)
    fun ddname link => ?_
  · exact (uses_fetch_named (upper_sought hmem)).fulfils
  · exact hposted.reach hcalled
  · show Reach branches link _
    exact (Move.openRecords link ddname).reach
  · show Reach branches link _
    exact (Move.openStream link ddname).reach

/-- On one host, that is all there is to say. -/
theorem served : Served (.moves branches) (id : H → H) (.byName branches) :=
  served_moves (Host.maps_id branches)

end Linkage

open Linkage.Terms (allows_byName)

namespace Environment

/-- Establishing branches to the environment service at most. -/
theorem uses_establish (h : branches "IKJTSOEV") :
    (establish : Op (Linkage H × Environment) Capability).Uses Prod.fst branches
      fun _ => True :=
  (meets_establish Linkage.served .any (allows_byName h)).uses

end Environment

namespace Bindings

/-- A request to free branches to the free service. -/
theorem uses_requestFree (h : branches "TSODFRE") (capability : Capability) (ddname : String) :
    (requestFree capability ddname : Op (Linkage H) AllocationResult).Uses id branches
      fun _ => True :=
  (meets_requestFree Linkage.served .any (allows_byName h) capability ddname).uses

/-- An allocation branches to the allocation service, and to the free
service where it takes back. -/
theorem uses_allocate (halloc : branches "TSODALC") (hfree : branches "TSODFRE")
    (capability : Capability) (wanted : AllocationRequest) :
    (allocate capability wanted : Op (Linkage H × Bindings) (DdName × AllocationResult)).Uses
      Prod.fst branches fun _ => True :=
  (meets_allocate Linkage.served .any (allows_byName halloc) (allows_byName hfree) capability
    wanted).uses

/-- A free branches to the free service. -/
theorem uses_free (h : branches "TSODFRE") (capability : Capability) (name : DdName) :
    (free capability name : Op (Linkage H × Bindings) AllocationResult).Uses Prod.fst branches
      fun _ => True :=
  (meets_free Linkage.served .any (allows_byName h) capability name).uses

theorem uses_release (h : branches "TSODFRE") (capability : Capability) (name : DdName) :
    (release capability name : Op (Linkage H × Bindings) (Option Error)).Uses Prod.fst branches
      fun _ => True :=
  (meets_release (meets_free Linkage.served .any (allows_byName h) capability name)).uses

theorem uses_releaseEach (h : branches "TSODFRE") (capability : Capability)
    (names : List DdName) :
    (releaseEach capability names : Op (Linkage H × Bindings) (List Error)).Uses Prod.fst
      branches fun _ => True :=
  (meets_releaseEach fun name => meets_free Linkage.served .any (allows_byName h) capability name).uses

end Bindings

/-- Reading a DD branches nowhere. -/
theorem Output.uses_readLines (ddname : String) :
    (readLines ddname : Op (Linkage H) (List String)).Uses id branches fun _ => True :=
  (meets_readLines Linkage.served .any .any ddname).uses

namespace Invocation

/-- The modules of a route: one of the prepare modules, and its own. -/
theorem uses_resolve (route : Route) :
    (resolve route : Op (Linkage H) (EntryPoint × EntryPoint)).Uses id branches
      fun entries => entries.1.module ∈ prepareModules ∧ entries.2.module = route.module := by
  have hresolve : (resolve route : Op (Linkage H) (EntryPoint × EntryPoint)).Uses id branches _ :=
    (meets_resolve Linkage.served (fun _ => trivial) route).uses
  refine hresolve.mono (fun _ hmodule => hmodule) fun entries hentries => ?_
  obtain ⟨⟨module, hmem, hmodule⟩, hroute⟩ := hentries
  exact ⟨hmodule ▸ hmem, hroute⟩

/-- A token comes from one of the prepare modules. -/
theorem uses_obtainToken (h : ∀ module ∈ prepareModules, branches module) (route : Route) :
    (obtainToken route : Op (Linkage H) Bytes).Uses id branches fun _ => True :=
  (meets_obtainToken Linkage.served .any (fun _ => trivial)
    (fun module hmem => allows_byName (h module hmem)) route).uses.any

/-- A command branches to a prepare module and to that of its route. -/
theorem uses_run (hprepare : ∀ module ∈ prepareModules, branches module) {route : Route}
    (hexecute : branches route.module) (capability : Capability) (command : String)
    (output : Option DdName) :
    (run capability route command output : Op (Linkage H) CommandReport).Uses id branches
      fun _ => True :=
  (meets_run Linkage.served .any (fun _ => trivial)
    (fun module hmem => allows_byName (hprepare module hmem)) (allows_byName hexecute) capability
    command output fun _ _ _ _ _ => trivial).uses

end Invocation

/-- A command run by an exec branches to the interpreter. -/
theorem ExecCapture.uses_run (h : branches "IRXEXEC") (capability : Capability) (text : String) :
    (run capability text : Op (Linkage H × ExecCapture) CommandReport).Uses Prod.fst branches
      fun _ => True :=
  (meets_run Linkage.served .any Error.Running.any.toExecuting (fun _ => trivial)
    (allows_byName h) capability text fun _ => trivial).uses

end Moves
end TsoBridge
