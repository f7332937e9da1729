/-
What an operation can fail with. `Raises causes` bounds the causes of an
outcome; a trap has no cause, so it is never counted.

Storage, control blocks and DDs fail with mechanical causes only. The
lemmas about them hold for every `causes` that has these
(`Error.Mechanical`), so each is stated once and serves every analysis
above it. The causes that the parts of the engine add to these are grouped
in the same way: `Error.Executing` and `Error.Running` for a command,
`Error.Serving`, `Error.Asking` and `Error.Granting` for the other
services.
-/
import TsoBridge.Proofs.Op
import TsoBridge.Session

namespace TsoBridge

variable {H : Type} {σ τ α β : Type} {causes : Error → Prop}

-- =============================================================== outcomes

/-- The cause of an outcome, if it has one, is among `causes`. -/
def Outcome.Raises (causes : Error → Prop) (r : Outcome α) : Prop :=
  ∀ cause, r = .error (.error cause) → causes cause

namespace Outcome

/-- Only a fault has a cause. -/
theorem raises_ok (a : α) : Raises causes (.ok a) :=
  fun _ h => by cases h

/-- A trap has none. -/
theorem raises_trap : Raises causes (.error .trap : Outcome α) :=
  fun _ h => by cases h

/-- An error has the cause it is. -/
theorem raises_error {cause : Error} (h : causes cause) :
    Raises causes (.error (.error cause) : Outcome α) :=
  fun _ heq => by
    cases heq
    exact h

/-- A computation that does not trap. -/
theorem raises_ofExcept {result : Except Error α} (h : ∀ cause, result = .error cause → causes cause) :
    (Outcome.ofExcept result).Raises causes := by
  cases result with
  | ok a => exact raises_ok a
  | error cause => exact raises_error (h cause rfl)

/-- More causes may be allowed. -/
theorem Raises.mono {causes' : Error → Prop} {r : Outcome α} (h : r.Raises causes)
    (hcauses : ∀ cause, causes cause → causes' cause) : r.Raises causes' :=
  fun cause hcause => hcauses cause (h cause hcause)

/-- A fault is the same for every type of values. -/
theorem Raises.fault {fault : Fault} (h : Raises causes (.error fault : Outcome α)) :
    Raises causes (.error fault : Outcome β) :=
  fun cause heq => by
    cases heq
    exact h cause rfl

/-- What a sequence fails with, one of its parts fails with. -/
theorem Raises.bind {x : Outcome α} {f : α → Outcome β} (hx : x.Raises causes)
    (hf : ∀ a, (f a).Raises causes) : (x >>= f).Raises causes := by
  cases x with
  | ok a => exact hf a
  | error fault => exact hx.fault

/-- What a list of computations fails with, one of them fails with. -/
theorem raises_mapM {f : α → Outcome β} (h : ∀ a, (f a).Raises causes) (as : List α) :
    (as.mapM f).Raises causes := by
  induction as with
  | nil => exact raises_ok _
  | cons a rest ih =>
      rw [List.mapM_cons]
      exact (h a).bind fun b => ih.bind fun bs => raises_ok _

end Outcome

-- ============================================================= operations

namespace Op

/-- However `x` ends, its cause is among `causes`. -/
def Raises (causes : Error → Prop) (x : Op σ α) : Prop :=
  ∀ s, x.Ends s fun r _ => r.Raises causes

/-- Operations that touch only the state fail with nothing. -/
theorem raises_pure (a : α) : (pure a : Op σ α).Raises causes :=
  fun _ => Outcome.raises_ok a

theorem raises_fail {cause : Error} (h : causes cause) : (fail cause : Op σ α).Raises causes :=
  fun _ => Outcome.raises_error h

theorem raises_gets (f : σ → α) : (gets f).Raises causes :=
  fun _ => Outcome.raises_ok _

theorem raises_modify (f : σ → σ) : (modify f).Raises causes :=
  fun _ => Outcome.raises_ok _

/-- A computation among operations has its own causes. -/
theorem raises_lift {result : Outcome α} (h : result.Raises causes) :
    (liftM result : Op σ α).Raises causes :=
  fun _ => h

/-- So has one on the state. -/
theorem raises_update {f : σ → Outcome (α × σ)} (h : ∀ s, (f s).Raises causes) :
    (update f).Raises causes := by
  intro s
  show (update f s).1.Raises causes
  unfold update
  cases hf : f s with
  | ok pair => exact Outcome.raises_ok _
  | error fault =>
      have hs := h s
      rw [hf] at hs
      exact hs.fault

/-- What a sequence of operations fails with, one of them fails with. -/
theorem Raises.bind {x : Op σ α} {f : α → Op σ β} (hx : x.Raises causes)
    (hf : ∀ a, (f a).Raises causes) : (x >>= f).Raises causes := by
  intro s
  exact (hx s).bind (fun a t _ => hf a t) fun fault t hfault => hfault.fault

/-- Work on a part of the state has the causes of the work. -/
theorem Raises.on {part : σ → τ} {put : σ → τ → σ} {x : Op τ α} (h : x.Raises causes) :
    (x.on part put).Raises causes :=
  fun s => (h (part s)).on fun _ _ hr => hr

/-- An attempt has no cause left to fail with. -/
theorem raises_attempt (x : Op σ α) : x.attempt.Raises causes := by
  intro s
  have hx : x.Ends s fun _ _ => True := trivial
  exact hx.attempt (fun a _ _ => Outcome.raises_ok _) (fun e _ _ => Outcome.raises_ok _)
    fun _ _ => Outcome.raises_trap

/-- An operation that fails with nothing but a trap. -/
theorem Raises.completes {x : Op σ α} (h : x.Raises fun _ => False) (s : σ) :
    x.Completes s fun a t => x s = (.ok a, t) := by
  unfold Completes Ends
  rcases hx : x s with ⟨(cause | _) | a, t⟩
  · exact absurd (congrArg Prod.fst hx) (h s cause)
  · exact .inl rfl
  · exact .inr ⟨a, rfl, rfl⟩

end Op

-- ====================================================== mechanical causes

/-- The causes that come from storage, control blocks and DDs. -/
def Error.isMechanical : Error → Bool
  | .obtainFailed _ _ => true
  | .addressFault _ _ => true
  | .bufferOverrun _ _ _ => true
  | .invalidParmList _ => true
  | .readFailed _ _ => true
  | _ => false

/-- The mechanical causes are among `causes`. -/
def Error.Mechanical (causes : Error → Prop) : Prop :=
  ∀ cause : Error, cause.isMechanical = true → causes cause

/-- The mechanical causes are among themselves. -/
theorem Error.mechanical_self : Error.Mechanical fun cause => cause.isMechanical = true :=
  fun _ h => h

/-- An address that runs over is no cause but a trap. -/
theorem Word.raises_addIndex (a b : Nat) : (Word.addIndex a b).Raises causes := by
  unfold Word.addIndex
  split
  · exact Outcome.raises_ok _
  · exact Outcome.raises_trap

/-- So is an offset that does. -/
theorem Address.raises_plus (address : Address) (offset : Nat) :
    (address.plus offset).Raises causes := by
  unfold Address.plus
  split
  · exact Outcome.raises_ok _
  · exact Outcome.raises_trap

/-- The parameters of a prepare call are addresses. -/
theorem PrepareBlock.raises_parms (base : Address) :
    (PrepareBlock.parms base).Raises causes := by
  refine (Outcome.raises_mapM (fun offset => base.raises_plus offset) _).bind fun leading => ?_
  exact (base.raises_plus _).bind fun _ => Outcome.raises_ok _

/-- So are those of an execute call. -/
theorem CallBlock.raises_parms (base cppl : Address) :
    (CallBlock.parms base cppl).Raises causes := by
  have hrest : ∀ cppl : Address, (do
      let before ← [flagsAt, commandAt, lengthAt, rcAt, reasonAt, abendAt, programAt].mapM
        base.plus
      let token ← base.plus tokenAt
      return { leading := before ++ [cppl, token], last := ← base.plus outputAt } :
      Outcome ParmList).Raises causes := by
    intro cppl
    refine (Outcome.raises_mapM (fun offset => base.raises_plus offset) _).bind fun before => ?_
    refine (base.raises_plus _).bind fun token => ?_
    exact (base.raises_plus _).bind fun _ => Outcome.raises_ok _
  unfold parms
  split
  · exact (Outcome.raises_ok _).bind hrest
  · exact (base.raises_plus _).bind hrest

/-- So are those of a call of the interpreter. -/
theorem ExecArea.raises_parms (base cppl : Address) :
    (ExecArea.parms base cppl).Raises causes := by
  refine (base.raises_plus _).bind fun exec => (base.raises_plus _).bind fun table => ?_
  refine (base.raises_plus _).bind fun flags => (base.raises_plus _).bind fun eval => ?_
  exact (base.raises_plus _).bind fun rc => Outcome.raises_ok _

/-- A refusal to obtain names the length that was asked for. -/
theorem Storage.obtain_raises (storage : Storage) (subpool : UInt8) (length : Nat) :
    (storage.obtain subpool length).Raises
      fun cause => ∃ reason, cause = .obtainFailed length reason := by
  unfold obtain
  simp only
  split
  · exact Outcome.raises_error ⟨_, rfl⟩
  · refine (Word.raises_addIndex _ _).bind fun _ => ?_
    refine (Word.raises_addIndex _ _).bind fun stop => ?_
    split
    · exact Outcome.raises_error ⟨_, rfl⟩
    · exact Outcome.raises_ok _

section

variable (h : Error.Mechanical causes)
include h

namespace Storage

/-- A place in storage is refused with a mechanical cause. -/
theorem raises_locate (storage : Storage) (address : Address) (length : Nat) :
    (storage.locate address length).Raises causes := by
  unfold locate
  split
  · exact Outcome.raises_error (h _ rfl)
  · refine (Word.raises_addIndex _ _).bind fun stop => ?_
    split
    · exact Outcome.raises_ok _
    · exact Outcome.raises_error (h _ rfl)

/-- Reading fails only where the place cannot be found. -/
theorem raises_read (storage : Storage) (address : Address) (length : Nat) :
    (storage.read address length).Raises causes :=
  (raises_locate h storage address length).bind fun _ => Outcome.raises_ok _

/-- So does writing. -/
theorem raises_write (storage : Storage) (address : Address) (data : Bytes) :
    (storage.write address data).Raises causes :=
  (raises_locate h storage address data.length).bind fun _ => Outcome.raises_ok _

/-- Storage that cannot be obtained is a mechanical cause. -/
theorem raises_obtain (storage : Storage) (subpool : UInt8) (length : Nat) :
    (storage.obtain subpool length).Raises causes := by
  intro cause hcause
  obtain ⟨reason, rfl⟩ := storage.obtain_raises subpool length cause hcause
  exact h _ rfl

/-- Obtaining and filling fails as either of the two. -/
theorem raises_obtainWith (storage : Storage) (subpool : UInt8) (data : Bytes) :
    (storage.obtainWith subpool data).Raises causes := by
  refine (raises_obtain h storage subpool data.length).bind fun block => ?_
  exact (raises_write h block.2 block.1 data).bind fun _ => Outcome.raises_ok _

end Storage

namespace Field

/-- A field that does not fit into its area is a mechanical cause. -/
theorem raises_check (buffer : Bytes) (offset width : Nat) :
    (check buffer offset width).Raises causes := by
  refine (Word.raises_addIndex _ _).bind fun stop => ?_
  split
  · exact Outcome.raises_ok _
  · exact Outcome.raises_error (h _ rfl)

/-- A field is read where it fits; the words below are fields of fixed
width. -/
theorem raises_read (buffer : Bytes) (offset width : Nat) :
    (read buffer offset width).Raises causes :=
  (raises_check h buffer offset width).bind fun _ => Outcome.raises_ok _

theorem raises_readHalf (buffer : Bytes) (offset : Nat) :
    (readHalf buffer offset).Raises causes :=
  (raises_read h buffer offset 2).bind fun _ => Outcome.raises_ok _

theorem raises_readFull (buffer : Bytes) (offset : Nat) :
    (readFull buffer offset).Raises causes :=
  (raises_read h buffer offset 4).bind fun _ => Outcome.raises_ok _

theorem raises_readSigned (buffer : Bytes) (offset : Nat) :
    (readSigned buffer offset).Raises causes :=
  (raises_read h buffer offset 4).bind fun _ => Outcome.raises_ok _

/-- A field is written where it fits. -/
theorem raises_write (buffer : Bytes) (offset : Nat) (data : Bytes) :
    (write buffer offset data).Raises causes :=
  (raises_check h buffer offset data.length).bind fun _ => Outcome.raises_ok _

/-- So are several, one after the other. -/
theorem raises_writeAll (buffer : Bytes) (fields : List (Nat × Bytes)) :
    (writeAll buffer fields).Raises causes := by
  induction fields generalizing buffer with
  | nil => exact Outcome.raises_ok _
  | cons field rest ih => exact (raises_write h buffer _ _).bind fun next => ih next

end Field

-- ========================================================= control blocks

/-- A parameter that carries the end mark is refused mechanically. -/
theorem ParmList.raises_encodeLeading (leading : List Address) :
    (ParmList.encodeLeading leading).Raises causes := by
  induction leading with
  | nil => exact Outcome.raises_ok _
  | cons first rest ih =>
      unfold ParmList.encodeLeading
      split
      · exact Outcome.raises_error (h _ rfl)
      · exact ih.bind fun _ => Outcome.raises_ok _

/-- So is a list that is too long. -/
theorem ParmList.raises_encode (parms : ParmList) : parms.encode.Raises causes := by
  refine (raises_encodeLeading h parms.leading).bind fun leading => ?_
  split
  · exact Outcome.raises_error (h _ rfl)
  · exact Outcome.raises_ok _

/-- What a prepare call left is read field by field. -/
theorem PrepareBlock.raises_decode (block : Bytes) :
    (PrepareBlock.decode block).Raises causes := by
  refine (Field.raises_read h _ _ _).bind fun token => ?_
  refine (Field.raises_readSigned h _ _).bind fun error => ?_
  refine (Field.raises_readFull h _ _).bind fun abend => ?_
  exact (Field.raises_readFull h _ _).bind fun reason => Outcome.raises_ok _

/-- So is what an execute call left. -/
theorem CallBlock.raises_decode (block : Bytes) : (CallBlock.decode block).Raises causes := by
  refine (Field.raises_readSigned h _ _).bind fun commandRc => ?_
  refine (Field.raises_readFull h _ _).bind fun reason => ?_
  exact (Field.raises_readFull h _ _).bind fun abend => Outcome.raises_ok _

/-- The arguments of an exec are laid out one behind the other. -/
theorem ExecArea.raises_writeArguments (base : Address) (area : Bytes) (entry text : Nat)
    (arguments : List String) :
    (ExecArea.writeArguments base area entry text arguments).Raises causes := by
  induction arguments generalizing area entry text with
  | nil => exact Field.raises_writeAll h _ _
  | cons argument rest ih =>
      refine (base.raises_plus _).bind fun target => ?_
      exact (Field.raises_writeAll h _ _).bind fun area => ih area _ _

/-- So the area of an exec fails to be encoded for mechanical causes only.
-/
theorem ExecArea.raises_encode (request : ExecRequest) (base : Address) :
    (ExecArea.encode request base).Raises causes := by
  refine (base.raises_plus _).bind fun exec => (base.raises_plus _).bind fun table => ?_
  refine (base.raises_plus _).bind fun eval => ?_
  exact (Field.raises_writeAll h _ _).bind fun area => raises_writeArguments h _ _ _ _ _

/-- The evaluation block is read like any other fields. -/
theorem ExecArea.raises_decodeEval (area : Bytes) :
    (ExecArea.decodeEval area).Raises causes := by
  refine (Field.raises_readSigned h _ _).bind fun length => ?_
  exact (Field.raises_read h _ _ _).bind fun data => Outcome.raises_ok _

/-- A request to allocate fills the fields of its work area. -/
theorem WorkArea.raises_prepareAllocate (area : Bytes) (address : Address) (ddname : String)
    (dsname : Option String) (status : DatasetStatus) :
    (WorkArea.prepareAllocate area address ddname dsname status).Raises causes := by
  refine (Field.raises_write h _ _ _).bind fun area => (address.raises_plus _).bind fun name => ?_
  exact Field.raises_writeAll h _ _

/-- So does a request to free. -/
theorem WorkArea.raises_prepareFree (area : Bytes) (address : Address) (ddname : String) :
    (WorkArea.prepareFree area address ddname).Raises causes := by
  refine (Field.raises_write h _ _ _).bind fun area => (address.raises_plus _).bind fun name => ?_
  exact Field.raises_writeAll h _ _

/-- The answer is read from the fields of the same area. -/
theorem WorkArea.raises_decode (area : Bytes) (block : Nat) :
    (WorkArea.decode area block).Raises causes := by
  refine (Field.raises_readSigned h _ _).bind fun rc => ?_
  refine (Field.raises_readHalf h _ _).bind fun reason => ?_
  refine (Field.raises_readHalf h _ _).bind fun catalogRc => ?_
  refine ((Field.raises_read h _ _ _).bind fun _ => Outcome.raises_ok _).bind fun flags => ?_
  exact (Field.raises_read h _ _ _).bind fun name => Outcome.raises_ok _

/-- A source that ends too early is a read failure, and that is mechanical.
-/
theorem Output.raises_drain (ddname : String) (source : ByteSource) (skip : Nat) :
    (Outcome.ofExcept (Output.drain ddname source skip)).Raises causes := by
  unfold Output.drain
  split
  · exact Outcome.raises_error (h _ rfl)
  · exact Outcome.raises_ok _

end

-- ============================================================= the linkage

namespace Linkage

/-- Closing the frame adds no cause. -/
theorem raises_framed {x : Op (Linkage H) α} (h : x.Raises causes) : (framed x).Raises causes :=
  fun link => h { link with storage := link.storage.openFrame }

/-- Nor does the linkage around a machine. -/
theorem raises_onMachine {x : Op (Machine H) α} (h : x.Raises causes) :
    (onMachine x).Raises causes :=
  h.on

section

variable (h : Error.Mechanical causes)
include h

/-- The work on storage, seen from the linkage. -/
theorem raises_obtain (length : Nat) :
    (obtain length : Op (Linkage H) Address).Raises causes :=
  raises_onMachine (Op.raises_update fun storage => storage.raises_obtain h _ _).on

theorem raises_obtainWith (data : Bytes) :
    (obtainWith data : Op (Linkage H) Address).Raises causes :=
  raises_onMachine (Op.raises_update fun storage => storage.raises_obtainWith h _ _).on

theorem raises_write (address : Address) (data : Bytes) :
    (write address data : Op (Linkage H) Unit).Raises causes :=
  raises_onMachine (Op.raises_update fun storage =>
    (storage.raises_write h _ _).bind fun _ => Outcome.raises_ok _).on

end

variable [Host H]

/-- A service answers with a register or traps; it has no cause of its own.
-/
theorem raises_branch (entry : EntryPoint) (r1 : Address) :
    (branch entry r1 : Op (Linkage H) Int32).Raises causes := by
  intro link
  show (branch entry r1 link).1.Raises causes
  unfold branch
  rcases Host.call link.toMachine entry r1 with ⟨_ | r15, machine⟩
  · exact Outcome.raises_trap
  · exact Outcome.raises_ok r15

/-- So a call fails where its parameter list cannot be placed. -/
theorem raises_call (h : Error.Mechanical causes) (entry : EntryPoint) (parms : ParmList) :
    (call entry parms : Op (Linkage H) Int32).Raises causes := by
  refine Op.Raises.bind ?_ fun r1 => raises_branch entry r1
  refine raises_onMachine (Op.raises_update fun storage => ?_).on
  exact (parms.raises_encode h).bind fun bytes => storage.raises_obtainWith h _ bytes

/-- A module that is not there is unavailable. -/
theorem raises_fetch (hservice : ∀ module, causes (.serviceUnavailable module))
    (module : String) : (fetch module : Op (Linkage H) EntryPoint).Raises causes := by
  intro link
  show (fetch module link).1.Raises causes
  unfold fetch
  simp only
  split
  · exact Outcome.raises_ok _
  · exact Outcome.raises_error (hservice _)

end Linkage

-- ============================================================ reading a DD

/-- A host that fails with one of the causes, when a DD is opened and when
it is read. -/
structure Host.ReadsWith (H : Type) [Host H] (causes : Error → Prop) : Prop where
  openRecords : ∀ (host : H) (ddname : String), (Outcome.ofExcept
    (Host.openRecords host ddname).1).Raises causes
  nextRecord : ∀ (host : H) (ddname : String) (source : RecordSource) (cause : Error),
    (Host.openRecords host ddname).1 = .ok (some source) → source.failure = some cause →
    causes cause
  openStream : ∀ (host : H) (ddname : String), (Outcome.ofExcept
    (Host.openStream host ddname).1).Raises causes

/-- A host that fails with a read failure only, when a DD is opened and
when it is read. -/
structure Host.ReadsPlainly (H : Type) [Host H] : Prop where
  openRecords : ∀ (host : H) (ddname : String) (cause : Error),
    (Host.openRecords host ddname).1 = .error cause → ∃ name flaw, cause = .readFailed name flaw
  nextRecord : ∀ (host : H) (ddname : String) (source : RecordSource) (cause : Error),
    (Host.openRecords host ddname).1 = .ok (some source) → source.failure = some cause →
    ∃ name flaw, cause = .readFailed name flaw
  openStream : ∀ (host : H) (ddname : String) (cause : Error),
    (Host.openStream host ddname).1 = .error cause → ∃ name flaw, cause = .readFailed name flaw

/-- A read failure is mechanical. -/
theorem Host.ReadsPlainly.readsWith [Host H] (hreads : Host.ReadsPlainly H)
    (h : Error.Mechanical causes) : Host.ReadsWith H causes where
  openRecords host ddname := by
    refine Outcome.raises_ofExcept fun cause hcause => ?_
    obtain ⟨name, flaw, rfl⟩ := hreads.openRecords host ddname cause hcause
    exact h _ rfl
  nextRecord host ddname source cause hopen hcause := by
    obtain ⟨name, flaw, rfl⟩ := hreads.nextRecord host ddname source cause hopen hcause
    exact h _ rfl
  openStream host ddname := by
    refine Outcome.raises_ofExcept fun cause hcause => ?_
    obtain ⟨name, flaw, rfl⟩ := hreads.openStream host ddname cause hcause
    exact h _ rfl

-- ======================================================= calls for a command

/-- The causes that a command can end with once it is to be executed, its
module aside, are among `causes`. -/
structure Error.Executing (causes : Error → Prop) : Prop where
  mechanical : Error.Mechanical causes
  refused : ∀ rc reason abend, causes (.invocationFailed .execute rc reason abend)
  command : ∀ flaw, causes (.invalidCommand flaw)
  order : ∀ source target, causes (.invalidState source target)
  answer : ∀ flaw, causes (.evalParseFailed flaw)

/-- The causes that a call for a command can end with once its modules are
found are among `causes`. -/
structure Error.Running (causes : Error → Prop) : Prop extends Error.Executing causes where
  prepare : ∀ rc reason abend, causes (.invocationFailed .prepare rc reason abend)

section

variable (hexecute : Error.Executing causes)
include hexecute

/-- A command is refused for what it is. -/
theorem Invocation.raises_make (route : Route) (command : String) (output : Option DdName) :
    (Outcome.ofExcept (make route command output)).Raises causes := by
  unfold make
  simp only
  split
  · exact Outcome.raises_error (hexecute.command _)
  · split
    · exact Outcome.raises_error (hexecute.command _)
    · exact Outcome.raises_ok _

/-- An invocation without a token is in the wrong state. -/
theorem Invocation.raises_heldToken (invocation : Invocation) :
    (Outcome.ofExcept invocation.heldToken).Raises causes := by
  unfold heldToken
  split
  · exact Outcome.raises_ok _
  · exact Outcome.raises_error (hexecute.order _ _)

/-- A command that is too long for its block is refused. -/
theorem CallBlock.raises_make (flags : CallFlags) (text : String) (token : Bytes) :
    (Outcome.ofExcept (CallBlock.make flags text token)).Raises causes := by
  unfold CallBlock.make
  split
  · exact Outcome.raises_error (hexecute.command _)
  · split
    · exact Outcome.raises_error (hexecute.command _)
    · exact Outcome.raises_ok _

/-- An execute service that refuses is reported as that. -/
theorem Invocation.raises_reportOf (r15 : Int32) (result : ExecuteResult) :
    (Outcome.ofExcept (reportOf r15 result)).Raises causes := by
  unfold reportOf
  split
  · exact Outcome.raises_error (hexecute.refused _ _ _)
  · exact Outcome.raises_ok _

end

-- ==================================================== asking the services

/-- The causes that calling a service other than those for commands can end
with are among `causes`. -/
structure Error.Serving (causes : Error → Prop) : Prop where
  mechanical : Error.Mechanical causes
  service : ∀ module, causes (.serviceUnavailable module)

/-- The causes that asking about the environment can end with are among
`causes`. -/
structure Error.Asking (causes : Error → Prop) : Prop extends Error.Serving causes where
  environment : ∀ rc reason abend, causes (.environmentUnavailable rc reason abend)

/-- The causes that allocating and freeing can end with are among
`causes`. -/
structure Error.Granting (causes : Error → Prop) : Prop extends Error.Serving causes where
  name : ∀ name flaw, causes (.invalidName name flaw)
  refused : ∀ ddname rc reason catalogRc flags,
    causes (.allocationFailed ddname rc reason catalogRc flags)
  unusable : ∀ requested assigned rc reason catalogRc,
    causes (.unusableDdname requested assigned rc reason catalogRc)
  unknown : ∀ ddname, causes (.notAllocated ddname)

/-- A text that is no DD name. -/
theorem DdName.raises_ofString (hgrant : Error.Granting causes) (name : String) :
    (Outcome.ofExcept (DdName.ofString name)).Raises causes := by
  refine Outcome.raises_ofExcept fun cause hcause => ?_
  obtain ⟨flaw, rfl⟩ := DdName.ofString_error hcause
  exact hgrant.name name flaw

/-- What an environment is known to be is usable, or the reason why not. -/
theorem Environment.raises_answer (hask : Error.Asking causes) (state : EnvironmentState) :
    (Outcome.ofExcept (answer state)).Raises causes := by
  cases state with
  | unknown => exact Outcome.raises_ok _
  | ready => exact Outcome.raises_ok _
  | failed => exact Outcome.raises_error (hask.environment _ _ _)

-- =============================================================== all causes

/-- All causes are mechanical ones, and any others. -/
theorem Error.Mechanical.any : Error.Mechanical fun _ => True :=
  fun _ _ => trivial

/-- To have any cause at all is no restriction: every class of causes is
contained in it. -/
theorem Error.Running.any : Error.Running fun _ => True where
  mechanical := .any
  refused _ _ _ := trivial
  command _ := trivial
  order _ _ := trivial
  answer _ := trivial
  prepare _ _ _ := trivial

theorem Error.Asking.any : Error.Asking fun _ => True where
  mechanical := .any
  service _ := trivial
  environment _ _ _ := trivial

theorem Error.Granting.any : Error.Granting fun _ => True where
  mechanical := .any
  service _ := trivial
  name _ _ := trivial
  refused _ _ _ _ _ := trivial
  unusable _ _ _ _ _ := trivial
  unknown _ := trivial

/-- A host may fail with any cause. -/
theorem Host.ReadsWith.any [Host H] : Host.ReadsWith H fun _ => True where
  openRecords _ _ := fun _ _ => trivial
  nextRecord _ _ _ _ _ _ := trivial
  openStream _ _ := fun _ _ => trivial

end TsoBridge
