/-
Storage between the operations of a session. Every block the engine
obtains is obtained in a frame and goes with it, so between operations
storage is empty, or it is the storage of the command processor list, byte
for byte (`Resting`), and a request of the allocation services can always
be posted (`Resting.room`).

Calls in their frames were settled before. So the engine meets the
contract that goes with it (`restful`): from a linkage at rest an
operation keeps storage (`Conserved`) however it ends, and it traps only
where a counter is spent. The one exception is an exec whose texts are too
long to be handed over; a session may trap there too (`resting`).
-/
import TsoBridge.Proofs.Sim.FramedCall
import TsoBridge.Proofs.Verb

namespace TsoBridge

namespace Storage

/-- Whether blocks of these lengths can be obtained. -/
def roomy : List Nat → Storage → Bool
  | [], _ => true
  | length :: rest, storage =>
    match storage.obtain engineSubpool length with
    | .ok (_, after) => roomy rest after
    | .error _ => false

/-- Room can be decided by obtaining the blocks. -/
theorem roomy_iff (lengths : List Nat) (storage : Storage) :
    roomy lengths storage = true ↔ Room lengths storage := by
  induction lengths generalizing storage with
  | nil => exact ⟨fun _ => trivial, fun _ => rfl⟩
  | cons length rest ih =>
      unfold roomy
      cases hobtain : storage.obtain engineSubpool length with
      | ok pair => rw [room_cons hobtain, ih]
      | error fault =>
          refine ⟨fun h => (by cases h), ?_⟩
          rintro ⟨address, after, h, -⟩
          rw [hobtain] at h
          cases h

instance (lengths : List Nat) (storage : Storage) : Decidable (Room lengths storage) :=
  decidable_of_iff _ (roomy_iff lengths storage)

end Storage

/-- At rest there is room for a request. -/
theorem Sim.Resting.room {link : Linkage Sim.SimHost} (h : Sim.Resting link) :
    Storage.Room Bindings.requestLengths link.storage.openFrame := by
  rcases h.storage with hempty | ⟨hestablished, -⟩
  · rw [hempty]
    decide +kernel
  · rw [hestablished]
    decide +kernel

namespace Sim

open Op (Contract)

-- =========================================================== the contract

/-- From rest to rest, with storage kept; a trap is a matter of a spent
counter. -/
def restful : Contract (Linkage SimHost) where
  given := Resting
  keeps := Conserved
  traps before after := Conserved before after ∧ SpentFrom before after
  keeps_refl := Conserved.refl
  keeps_trans := Conserved.trans
  traps_trans h h' := ⟨h.trans h'.1, fun horderly => h'.2 (h.orderly horderly)⟩

section Restful

variable {σ α : Type} {link : σ → Linkage SimHost} {value : α → Prop} {x : Op σ α} {s : σ}

/-- An operation that keeps storage and traps with a spent counter only. -/
theorem restful_of_guarded
    (h : ∀ s, Resting (link s) → x.Guarded (fun t => Conserved (link s) (link t))
      (fun t => SpentFrom (link s) (link t)) s fun a _ => value a) :
    x.Fulfils restful link value :=
  fun s hrest => Op.Ends.mono (h s hrest) fun _ _ ht =>
    ⟨hrest.kept ht.1, fun _ => ht.1, fun htrap => ⟨ht.1, ht.2.1 htrap⟩, ht.2.2⟩

/-- That is all that the contract says. -/
theorem guarded_of_restful (h : x.Fulfils restful link value) (hrest : Resting (link s)) :
    x.Guarded (fun t => Conserved (link s) (link t)) (fun t => SpentFrom (link s) (link t)) s
      fun a _ => value a := by
  refine (h s hrest).mono fun r t hkept => ⟨?_, fun htrap => (hkept.traps htrap).2, hkept.value⟩
  by_cases htrap : r = .error .trap
  · exact (hkept.traps htrap).1
  · exact hkept.keeps htrap

/-- Storage is kept, also where the operation traps. -/
theorem conserved_of_restful (h : x.Fulfils restful link value) (hrest : Resting (link s)) :
    Conserved (link s) (link (x s).2) :=
  (guarded_of_restful h hrest).1

/-- An operation that keeps storage whatever the state, and does not
trap. -/
theorem restful_of_conserved (hkept : ∀ s, Conserved (link s) (link (x s).2))
    (hsafe : ∀ s, (x s).1 ≠ .error .trap) : x.Fulfils restful link fun _ => True :=
  restful_of_guarded fun s _ => ⟨hkept s, fun htrap => absurd htrap (hsafe s), fun _ _ => trivial⟩

end Restful

-- ============================================================== the engine

/-- What the services can be called with: modules under their names, and
texts there is room for. -/
def fitting : Linkage.Terms where
  known module entry := entry.module = module
  called _ := True
  token token := token.length ≤ tokenSize
  block _ block := block.token.length ≤ tokenSize ∧ block.command.length ≤ CallBlock.maxCommand
  request request := ExecArea.size request ≤ Word.runLimit

/-- A command that was taken on fits into its block. -/
theorem fitting_sends (route : Route) (command : String) : fitting.Sends route command := by
  intro output token bare htoken hbare
  obtain ⟨heq, hcommand⟩ := CallBlock.make_fits hbare
  exact ⟨heq ▸ htoken, hcommand⟩

/-- Looking for a module touches no storage. -/
theorem restful_fetch {module : String} (h : Text.upper module = module) :
    (Linkage.fetch module : Op (Linkage SimHost) EntryPoint).Fulfils restful id
      fun entry => entry.module = module := by
  refine restful_of_guarded fun link hrest => ?_
  have huses : (Linkage.fetch module : Op (Linkage SimHost) EntryPoint).Uses id (fun _ => True)
      fun entry => entry.module = module := Linkage.uses_fetch_named h
  obtain ⟨hreach, hvalue⟩ := huses link hrest.named
  refine ⟨⟨hreach.named, ?_, .inl ?_⟩, fun htrap => ?_, hvalue⟩
  · exact fun horderly => (fetch_host module link).symm ▸ horderly
  · exact ⟨(Linkage.fetch_ends module link).2.1, congrArg SimHost.cppl (fetch_host module link)⟩
  · obtain ⟨after, hfetch⟩ := Op.ends_of_fst htrap
    exact absurd (Linkage.fetch_fault hfetch) nofun

/-- The engine keeps storage. -/
theorem served_restful : Linkage.Served restful (id : SimHost → SimHost) fitting where
  maps := Host.maps_id _
  fetch module hmem := restful_fetch (Linkage.upper_sought hmem)
  question entry hentry _ := restful_of_guarded fun _ hrest => guarded_question hentry hrest
  allocate entry capability ddname wanted hentry _ := restful_of_guarded fun _ hrest =>
    guarded_request (.inl hentry) hrest.wellFormed capability _
      (WorkArea.fills_prepareAllocate _ _ _) fun bytes => decode_untrapped bytes (by decide)
  free entry capability ddname hentry _ := restful_of_guarded fun _ hrest =>
    guarded_request (.inr hentry) hrest.wellFormed capability _ (WorkArea.fills_prepareFree _)
      fun bytes => decode_untrapped bytes (by decide)
  prepare entry hknown _ := by
    obtain ⟨module, hmem, hentry⟩ := hknown
    have hmodule : entry.module = module := hentry
    exact restful_of_guarded fun _ hrest => guarded_sendPrepare (hmodule ▸ hmem) hrest.wellFormed
  execute entry route capability block hentry _ hblock := restful_of_guarded fun _ hrest =>
    guarded_sendBlock hentry hrest.wellFormed capability hblock.1 hblock.2
  interpret entry capability request hentry _ hsize := restful_of_guarded fun _ hrest =>
    (guarded_callExec hentry hrest.wellFormed capability request).weaken fun _ hspent =>
      hspent.resolve_right (Nat.not_lt.mpr hsize)
  openRecords ddname := restful_of_conserved (fun link => Conserved.refl link)
    fun _ => Outcome.ofExcept_untrapped _
  openStream ddname := restful_of_conserved (fun link => Conserved.refl link)
    fun _ => Outcome.ofExcept_untrapped _

-- ================================================================= execs

/-- A command and the DD for its output are too long for an area. -/
def Overlong (capture : ExecCapture) (command : String) : Prop :=
  Word.runLimit < ExecArea.size (capture.requestOf (Text.trim command))

/-- Catching up moves the cursor only. -/
theorem catchUp_names (capture : ExecCapture) (s : Linkage SimHost × ExecCapture) :
    (ExecCapture.catchUp capture).Ends s fun _ t => ∃ cursor, t.2 = { s.2 with cursor } := by
  unfold ExecCapture.catchUp
  split
  · exact ⟨s.2.cursor, rfl⟩
  · exact ⟨_, rfl⟩

section Execs

variable {α ρ : Type} {large : Linkage SimHost × ρ → Prop} {s t : Linkage SimHost × ρ}
  {x : Op (Linkage SimHost × ρ) α} {value : α → Prop}

/-- What was kept since `t` was kept since `s`. -/
theorem guarded_since (hkept : Conserved s.1 t.1)
    (h : x.Guarded (fun u => Conserved t.1 u.1) (fun u => SpentFrom t.1 u.1 ∨ large u) t
      fun a _ => value a) :
    x.Guarded (fun u => Conserved s.1 u.1) (fun u => SpentFrom s.1 u.1 ∨ large u) t
      fun a _ => value a := by
  refine (h.weaken fun u hu => ?_).mono (fun u hu => hkept.trans hu) fun _ _ hvalue => hvalue
  exact hu.imp_left fun hspent horderly => hspent (hkept.orderly horderly)

end Execs

/-- The one thing that can be too large is the area for a command. -/
theorem guarded_exec (capability : Capability) (command : String)
    {s : Linkage SimHost × ExecCapture} (hrest : Resting s.1) :
    (ExecCapture.run capability command).Guarded (fun t => Conserved s.1 t.1)
      (fun t => SpentFrom s.1 t.1 ∨ Overlong t.2 command) s fun _ _ => True := by
  unfold ExecCapture.run
  simp only
  split
  · refine Op.guarded_fail _ ?_ _
    exact Conserved.refl s.1
  have hfetch : Linkage.MeetsBeside restful (id : SimHost → SimHost) (fun _ => True) _
      (Op.onFirst (Linkage.fetch "IRXEXEC") : Op (Linkage SimHost × ExecCapture) EntryPoint)
      (Op.onFirst (Linkage.fetch "IRXEXEC")) :=
    (Linkage.meets_fetch served_restful (fun _ => trivial) (by simp)).onFirst
  refine ((guarded_of_restful hfetch.fulfils hrest).weaken fun _ => .inl).bind
    fun entry t hkept hentry => guarded_since hkept ?_
  have hrest : Resting t.1 := hrest.kept hkept
  refine Op.ends_gets_bind ?_
  -- the names stay those of `t`, so the area keeps its size
  have hfulfils : (ExecCapture.catchUp t.2 : Op (Linkage SimHost × ExecCapture) Unit).Fulfils
      restful Prod.fst fun _ => True :=
    (ExecCapture.meets_catchUp served_restful .any Error.Running.any.toExecuting t.2).fulfils
  have hguarded := guarded_of_restful hfulfils hrest
  have hcatch : (ExecCapture.catchUp t.2).Guarded (fun u => Conserved t.1 u.1)
      (fun u => SpentFrom t.1 u.1 ∨ Overlong u.2 command) t
      fun _ u => ∃ cursor, u.2 = { t.2 with cursor } :=
    ⟨hguarded.1, fun htrap => .inl (hguarded.2.1 htrap), fun _ _ => catchUp_names t.2 t⟩
  refine hcatch.bind fun _ u hkept hnames => guarded_since hkept ?_
  obtain ⟨cursor, hnames⟩ := hnames
  have hrest : Resting u.1 := hrest.kept hkept
  have hcall : (Op.onFirst (ExecCapture.callExec entry capability
      (t.2.requestOf (Text.trim command))) : Op (Linkage SimHost × ExecCapture) _).Guarded
      (fun v => Conserved u.1 v.1) (fun v => SpentFrom u.1 v.1 ∨ Overlong v.2 command) u
      fun _ _ => True := by
    refine (guarded_callExec hentry hrest.wellFormed capability _).on (fun _ hv => hv)
      (fun v hv => ?_) fun _ _ _ => trivial
    refine hv.imp_right fun hlarge => ?_
    show Word.runLimit < ExecArea.size (u.2.requestOf (Text.trim command))
    rw [hnames]
    exact hlarge
  refine hcall.bind fun answer v hkept _ => guarded_since hkept ?_
  have hcollect : (ExecCapture.collect t.2.outDd answer.1 answer.2.1 answer.2.2 :
      Op (Linkage SimHost × ExecCapture) CommandReport).Fulfils restful Prod.fst fun _ => True :=
    (ExecCapture.meets_collect served_restful .any Error.Running.any.toExecuting _ _ _ _).fulfils
  exact (guarded_of_restful hcollect (hrest.kept hkept)).weaken fun _ => .inl

-- ============================================================== sessions

open Session

/-- The contract of a session: it may also trap where it is `large`. -/
def resting (large : Session SimHost → Prop) : Contract (Session SimHost) where
  given s := Resting s.linkage
  keeps s t := Conserved s.linkage t.linkage
  traps s t := Conserved s.linkage t.linkage ∧ (SpentFrom s.linkage t.linkage ∨ large t)
  keeps_refl s := Conserved.refl s.linkage
  keeps_trans h h' := h.trans h'
  traps_trans h h' := ⟨h.trans h'.1,
    h'.2.imp_left fun hspent horderly => hspent (h.orderly horderly)⟩

section Sessions

variable {α : Type} {large : Session SimHost → Prop} {value : α → Prop}
  {x : Op (Session SimHost) α}

/-- From a session at rest, `x` keeps storage, and it traps with a spent
counter or where it is `large`. -/
abbrev Tame (large : Session SimHost → Prop) (value : α → Prop) (x : Op (Session SimHost) α) :
    Prop :=
  Session.Meets (resting large) id (id : SimHost → SimHost) (fun _ => True) value x x

/-- What keeps storage without exception is tame. -/
theorem tame_of_restful (h : x.Fulfils restful Session.linkage value) : Tame large value x :=
  (meets_self h).via (fun _ => Iff.rfl) (fun _ hkept => hkept)
    fun _ hkept => ⟨hkept.1, .inl hkept.2⟩

/-- What may be too large may be more. -/
theorem Tame.enlarge {larger : Session SimHost → Prop} (h : Tame large value x)
    (hlarge : ∀ t, large t → larger t) : Tame larger value x :=
  h.via (fun _ => Iff.rfl) (fun _ hkept => hkept)
    fun _ hkept => ⟨hkept.1, hkept.2.imp_right (hlarge _)⟩

/-- What it means to be tame. -/
theorem Tame.guarded (h : Tame large value x) {s : Session SimHost} (hrest : Resting s.linkage) :
    x.Guarded (fun t => Conserved s.linkage t.linkage)
      (fun t => SpentFrom s.linkage t.linkage ∨ large t) s fun a _ => value a := by
  refine (h.fulfils s hrest).mono fun r t hkept =>
    ⟨?_, fun htrap => (hkept.traps htrap).2, hkept.value⟩
  by_cases htrap : r = .error .trap
  · exact (hkept.traps htrap).1
  · exact hkept.keeps htrap

/-- Failures are noted beside storage. -/
theorem restful_note (failures : List Error) :
    (note failures : Op (Session SimHost) Unit).Fulfils restful Session.linkage fun _ => True :=
  restful_of_conserved (fun s => Conserved.refl s.linkage) fun _ => nofun

/-- A message touches the terminal only. -/
theorem tame_message (text : String) (level : MessageLevel) :
    Tame large (fun _ => True) (message text level) :=
  tame_of_restful (restful_of_conserved
    (fun _ => ⟨id, fun horderly => horderly.same rfl rfl, .inl ⟨rfl, rfl⟩⟩) fun _ => nofun)

/-- The area for the command may be too large. -/
def Heavy (text : String) (s : Session SimHost) : Prop :=
  Overlong s.capture text

/-- The operations beside commands keep storage. -/
theorem tended_restful :
    Tended restful Session.linkage (id : SimHost → SimHost) fun _ => True :=
  tended_served served_restful (fun _ _ _ _ => trivial) .any .any

/-- The operations of a caller, one by one. -/
theorem tame_establish : Tame large (fun _ => True) establish :=
  tame_of_restful tended_restful.establish.fulfils

theorem tame_allocate (request : AllocationRequest) :
    Tame large (fun _ => True) (allocate request) :=
  tame_of_restful (meets_allocate tended_restful request).fulfils

theorem tame_free (name : DdName) : Tame large (fun _ => True) (free name) :=
  tame_of_restful (meets_free tended_restful name).fulfils

theorem tame_releaseAll : Tame large (fun _ => True) releaseAll :=
  tame_of_restful (meets_releaseAll tended_restful).fulfils

theorem tame_resolve (route : Route) :
    Tame large (fun _ => True) (onLinkage (Invocation.resolve route)) := by
  have hresolve : Session.Meets restful Session.linkage (id : SimHost → SimHost)
      (fun _ => True) _ (onLinkage (Invocation.resolve route))
      (onLinkage (Invocation.resolve route)) :=
    (meets_onLinkage (Invocation.meets_resolve served_restful (fun _ => trivial) route)).any
  exact tame_of_restful hresolve.fulfils

/-- The private DD of a command is allocated and freed in frames. -/
theorem tame_bound (capability : Capability) (route : Route) (text : String) :
    Tame large (fun released => Op.Tried (fun _ => True) (fun _ => True) released.result)
      (onBindings (Bindings.withBinding capability none (captured capability route text))) := by
  have hbound : Session.Meets restful Session.linkage (id : SimHost → SimHost)
      (fun _ => True) _
      (onBindings (Bindings.withBinding capability none (captured capability route text)))
      (onBindings (Bindings.withBinding capability none (captured capability route text))) :=
    meets_bound served_restful (fun _ _ _ _ => trivial) .any .any .any (fun _ _ => trivial)
      (fitting_sends route text) capability
  exact tame_of_restful hbound.fulfils

/-- Without capture there is the invocation alone. -/
theorem tame_uncaptured (capability : Capability) (route : Route) (text : String) :
    Tame large (fun _ => True) (onLinkage (Invocation.run capability route text none)) := by
  have hrun : Session.Meets restful Session.linkage (id : SimHost → SimHost)
      (fun _ => True) _ (onLinkage (Invocation.run capability route text none))
      (onLinkage (Invocation.run capability route text none)) :=
    meets_onLinkage (Invocation.meets_run served_restful .any (fun _ => trivial)
      (fun _ _ _ _ => trivial) (fun _ _ => trivial) capability text none
      (fitting_sends route text))
  exact tame_of_restful hrun.fulfils

/-- An exec is the one operation that may be too large. -/
theorem tame_exec (capability : Capability) (text : String) :
    Tame (Heavy text) (fun _ => True) (onCapture (ExecCapture.run capability text)) := by
  have hfulfils : (onCapture (ExecCapture.run capability text)).Fulfils (resting (Heavy text)) id
      fun _ => True := by
    intro s hrest
    have hexec := guarded_exec capability text (s := (s.linkage, s.capture)) hrest
    refine Op.Ends.on (x := ExecCapture.run capability text) hexec fun r t ht => ?_
    exact ⟨hrest.kept ht.1, fun _ => ht.1, fun htrap => ⟨ht.1, ht.2.1 htrap⟩, fun _ _ => trivial⟩
  exact meets_self hfulfils

/-- A command keeps storage; it may be too large for the interpreter. -/
theorem commanded_resting (route : Route) (text : String) :
    Commanded (resting (Heavy text)) id (id : SimHost → SimHost) (fun _ => True) route text where
  resolve := tame_resolve route
  bound capability := tame_bound capability route text
  note failures := tame_of_restful (restful_note failures)
  uncaptured capability := tame_uncaptured capability route text
  exec capability := tame_exec capability text
  command _ := trivial

/-- So a command is tame, up to the size of its texts. -/
theorem tame_run (text : String) (options : CommandOptions) :
    Tame (Heavy text) (fun _ => True) (run text options) := by
  have hheavy : Heavy (Text.trim text) = Heavy text := by
    unfold Heavy Overlong
    rw [Text.trim_trim]
  have hrun : Tame (Heavy (Text.trim text)) (fun _ => True) (run text options) :=
    meets_run (commanded_resting _ _) tame_establish fun _ => trivial
  rwa [hheavy] at hrun

end Sessions

variable {host : SimHost} {settings : Settings} {s t : Session SimHost}

/-- Every step of a session keeps storage. -/
theorem step_conserved (h : Step Touched s t) (hs : Resting s.linkage) :
    Conserved s.linkage t.linkage := by
  cases h with
  | run text options => exact ((tame_run text options).guarded hs).1
  | allocate request => exact conserved_of_restful (meets_allocate tended_restful request).fulfils hs
  | free name => exact conserved_of_restful (meets_free tended_restful name).fulfils hs
  | releaseAll => exact conserved_of_restful (meets_releaseAll tended_restful).fulfils hs
  | message text level => exact (((tame_message text level : Tame (fun _ => False) _ _)).guarded hs).1
  | takeFailures => exact Conserved.refl _
  | establish => exact conserved_of_restful tended_restful.establish.fulfils hs
  | adopt cppl => exact Conserved.refl _
  | @touch host h =>
      refine ⟨id, fun horderly => horderly.touched h, .inl ⟨rfl, ?_⟩⟩
      show host.cppl = s.host.cppl
      rw [← Touched.scope h]
      rfl

/-- Between the operations of a session storage is at rest. -/
theorem reachable_resting (h : Reachable Touched host settings s) : Resting s.linkage := by
  induction h with
  | refl =>
      refine ⟨fun key entry hget => ?_, .inl rfl⟩
      cases hget
  | tail _ hstep ih => exact ih.kept (step_conserved hstep ih)

/-- A host that is orderly at the start stays so. -/
theorem reachable_orderly (h : Reachable Touched host settings s) (horderly : host.Orderly) :
    s.host.Orderly := by
  induction h with
  | refl => exact horderly
  | tail hreach hstep ih => exact (step_conserved hstep (reachable_resting hreach)).orderly ih

end Sim
end TsoBridge
