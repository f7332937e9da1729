/-
What is done in a frame. The engine calls a service in one way: it obtains
storage and fills it, branches once with a parameter list, and reads what
the service left, all inside a frame. `Local` is work on storage alone,
`Exchange` such work around one call, and `Posted` an exchange in its
frame. Each relates the work on the linkage of one host to the same work
on that of another.

# What is asked about a frame

That both sides match, what the work can fail with, and which relation it
stays in (`Exchange.within`): these are answered by induction on how the
work is built, so never by looking at a service. The five services are
shown to be posted at the end of the file, step by step, and nowhere else
are their steps gone through for a question of this kind.
-/
import TsoBridge.Proofs.Contract

namespace TsoBridge

variable {H H' : Type} {α β : Type}

namespace Linkage

-- ============================================================ the relations

/-- The same work on storage alone. It fails with mechanical causes
only. -/
inductive Local : {α : Type} → Op (Linkage H) α → Op (Linkage H') α → Prop where
  | pure {α : Type} (a : α) : Local (pure a) (pure a)
  | lift {α : Type} {result : Outcome α} (h : result.Raises fun cause => cause.isMechanical = true) :
      Local (liftM result) (liftM result)
  | obtain (length : Nat) : Local (obtain length) (obtain length)
  | obtainWith (data : Bytes) : Local (obtainWith data) (obtainWith data)
  | write (address : Address) (data : Bytes) : Local (write address data) (write address data)
  | look {α : Type} (f : Storage → Outcome α)
      (h : ∀ storage, (f storage).Raises fun cause => cause.isMechanical = true) :
      Local (onMachine (Op.examine fun machine => f machine.storage))
        (onMachine (Op.examine fun machine => f machine.storage))
  | bind {α β : Type} {x : Op (Linkage H) α} {y : Op (Linkage H') α} {f : α → Op (Linkage H) β}
      {f' : α → Op (Linkage H') β} (hx : Local x y) (hf : ∀ a, Local (f a) (f' a)) :
      Local (x >>= f) (y >>= f')

/-- Work on storage around one call of a module. -/
inductive Exchange [Host H] [Host H'] (entry : EntryPoint) :
    {α : Type} → Op (Linkage H) α → Op (Linkage H') α → Prop where
  | call {α : Type} (parms : ParmList) {f : Int32 → Op (Linkage H) α}
      {f' : Int32 → Op (Linkage H') α} (h : ∀ r15, Local (f r15) (f' r15)) :
      Exchange entry (call entry parms >>= f) (call entry parms >>= f')
  | before {α β : Type} {x : Op (Linkage H) α} {y : Op (Linkage H') α}
      {f : α → Op (Linkage H) β} {f' : α → Op (Linkage H') β} (hx : Local x y)
      (hf : ∀ a, Exchange entry (f a) (f' a)) : Exchange entry (x >>= f) (y >>= f')

/-- An exchange in its frame. -/
inductive Posted [Host H] [Host H'] (entry : EntryPoint) :
    {α : Type} → Op (Linkage H) α → Op (Linkage H') α → Prop where
  | framed {α : Type} {x : Op (Linkage H) α} {y : Op (Linkage H') α} (h : Exchange entry x y) :
      Posted entry (framed x) (framed y)

-- =========================================================== storage alone

variable {g : H → H'} {branches : String → Prop} {causes : Error → Prop}
  {x : Op (Linkage H) α} {y : Op (Linkage H') α}

/-- Work on storage does not tell hosts apart. -/
theorem Local.matches (h : Local x y) (link : Linkage H) : Op.Matches (mapHost g) x y link := by
  induction h generalizing link with
  | bind _ _ ihx ihf => exact (ihx link).bind fun a after _ => ihf a after
  | _ => rfl

/-- What can fail on storage alone is mechanical. -/
theorem Local.raises (h : Local x y) (hmechanical : Error.Mechanical causes) :
    x.Raises causes := by
  induction h with
  | pure a => exact Op.raises_pure a
  | lift h => exact Op.raises_lift (h.mono hmechanical)
  | obtain length => exact raises_obtain hmechanical length
  | obtainWith data => exact raises_obtainWith hmechanical data
  | write address data => exact raises_write hmechanical address data
  | look f h => exact fun link => (h link.storage).mono hmechanical
  | bind _ _ ihx ihf => exact ihx.bind ihf

/-- Obtaining and writing stay in a relation. -/
structure Storing (R : Linkage H → Linkage H → Prop) : Prop where
  obtain : ∀ length, (obtain length).Within R
  obtainWith : ∀ data, (obtainWith data).Within R
  write : ∀ address data, (write address data).Within R

variable {R : Linkage H → Linkage H → Prop} [IsPreorder (Linkage H) R]

/-- Work on storage stays in a relation that obtaining and writing stay
in. -/
theorem Local.within (h : Local x y) (hstore : Storing R) : x.Within R := by
  induction h with
  | pure a => exact Op.within_pure a
  | lift _ => exact Op.within_lift _
  | obtain length => exact hstore.obtain length
  | obtainWith data => exact hstore.obtainWith data
  | write address data => exact hstore.write address data
  | look f _ => exact Op.within_still fun _ => rfl
  | bind _ _ ihx ihf => exact ihx.bind ihf

/-- What is read from storage. -/
theorem Local.read (address : Address) (length : Nat) :
    Local (read address length : Op (Linkage H) Bytes)
      (read address length : Op (Linkage H') Bytes) :=
  .look (fun storage => storage.read address length)
    fun storage => storage.raises_read Error.mechanical_self address length

/-- A fullword is four bytes that are read. -/
theorem Local.readFull (address : Address) :
    Local (readFull address : Op (Linkage H) UInt32)
      (readFull address : Op (Linkage H') UInt32) :=
  .look (fun storage => storage.readFull address) fun storage =>
    (storage.raises_read Error.mechanical_self address 4).bind fun _ => Outcome.raises_ok _

theorem Local.readSigned (address : Address) :
    Local (readSigned address : Op (Linkage H) Int32)
      (readSigned address : Op (Linkage H') Int32) :=
  .look (fun storage => storage.readSigned address) fun storage =>
    (storage.raises_read Error.mechanical_self address 4).bind fun _ => Outcome.raises_ok _

-- ================================================================ one call

variable [Host H] [Host H'] {entry : EntryPoint}

/-- An exchange does not tell hosts apart that its module is the same
on. -/
theorem Exchange.matches (h : Exchange entry x y) (hmaps : Host.Maps g branches)
    (hentry : branches entry.module) (link : Linkage H) : Op.Matches (mapHost g) x y link := by
  induction h generalizing link with
  | call parms h =>
      have hcall : ∀ link, Op.Matches (mapHost g) (Linkage.call entry parms)
          (Linkage.call entry parms) link := fun link =>
        Op.Matches.bind (show Op.Matches _ _ _ _ from rfl) fun r1 after _ =>
          matches_branch hmaps hentry r1 after
      exact (hcall link).bind fun r15 after _ => (h r15).matches after
  | before hx _ ih => exact (hx.matches link).bind fun a after _ => ih a after

/-- A call adds no cause: the service answers, or it traps. -/
theorem Exchange.raises (h : Exchange entry x y) (hmechanical : Error.Mechanical causes) :
    x.Raises causes := by
  induction h with
  | call parms h =>
      exact (raises_call hmechanical entry parms).bind fun r15 => (h r15).raises hmechanical
  | before hx _ ih => exact (hx.raises hmechanical).bind ih

/-- An exchange stays in a relation that its parts stay in. -/
theorem Exchange.within (h : Exchange entry x y) (hstore : Storing R)
    (hcall : ∀ parms, (Linkage.call entry parms).Within R) : x.Within R := by
  induction h with
  | call parms h => exact (hcall parms).bind fun r15 => (h r15).within hstore
  | before hx _ ih => exact (hx.within hstore).bind ih

/-- Nor does a frame around it tell them apart. -/
theorem Posted.matches (h : Posted entry x y) (hmaps : Host.Maps g branches)
    (hentry : branches entry.module) (link : Linkage H) : Op.Matches (mapHost g) x y link := by
  cases h with
  | framed h => exact matches_framed (h.matches hmaps hentry _)

/-- So every posted service fails with mechanical causes only. -/
theorem Posted.raises {x y : Op (Linkage H) α} (h : Posted entry x y) (hmechanical : Error.Mechanical causes) :
    x.Raises causes := by
  cases h with
  | framed h => exact raises_framed (h.raises hmechanical)

end Linkage

-- ============================================================ the services

open Linkage (Local Exchange Posted)

variable [Host H] [Host H'] (entry : EntryPoint) (capability : Capability)

/-- The question about the environment. -/
theorem Environment.posted_question :
    Posted entry (question entry : Op (Linkage H) ProbeReport)
      (question entry : Op (Linkage H') ProbeReport) := by
  refine .framed ?_
  refine .before (.obtain 4) fun parm => .before (.obtain 4) fun rc => ?_
  refine .before (.obtain 4) fun reason => .before (.obtain 4) fun abend => ?_
  refine .before (.obtain 4) fun cppl => .call _ fun _ => ?_
  refine .bind (.readSigned rc) fun _ => .bind (.readFull reason) fun _ => ?_
  exact .bind (.readFull abend) fun _ => .bind (.readFull cppl) fun _ => .pure _

/-- A request of the allocation services. -/
theorem Bindings.posted_request (ddname : String) {prepare : Address → Outcome Bytes}
    {decode : Bytes → Outcome AllocationResult}
    (hprepare : ∀ area, (prepare area).Raises fun cause => cause.isMechanical = true)
    (hdecode : ∀ bytes, (decode bytes).Raises fun cause => cause.isMechanical = true) :
    Posted entry
      (request entry capability ddname prepare decode : Op (Linkage H) AllocationResult)
      (request entry capability ddname prepare decode : Op (Linkage H') AllocationResult) := by
  refine .framed ?_
  refine .before (.obtain _) fun area => .before (.obtainWith _) fun name => ?_
  refine .before (.obtain 4) fun rc => .before (.obtain 4) fun catalogRc => ?_
  refine .before (.lift (hprepare area)) fun bytes => .before (.write area bytes) fun _ => ?_
  refine .call _ fun r15 => .bind (.read area _) fun answer => ?_
  exact .bind (.lift (hdecode answer)) fun result => .pure _

/-- A request to allocate. -/
theorem Bindings.posted_allocate (ddname : DdName) (wanted : AllocationRequest) :
    Posted entry
      (requestAllocate entry capability ddname wanted : Op (Linkage H) AllocationResult)
      (requestAllocate entry capability ddname wanted : Op (Linkage H') AllocationResult) :=
  posted_request entry capability _
    (fun _ => WorkArea.raises_prepareAllocate Error.mechanical_self _ _ _ _ _)
    fun _ => WorkArea.raises_decode Error.mechanical_self _ _

/-- A request to free. -/
theorem Bindings.posted_free (ddname : String) :
    Posted entry
      (request entry capability ddname
        (fun area => WorkArea.prepareFree blankArea area ddname) WorkArea.decodeFree :
        Op (Linkage H) AllocationResult)
      (request entry capability ddname
        (fun area => WorkArea.prepareFree blankArea area ddname) WorkArea.decodeFree :
        Op (Linkage H') AllocationResult) :=
  posted_request entry capability _
    (fun _ => WorkArea.raises_prepareFree Error.mechanical_self _ _ _)
    fun _ => WorkArea.raises_decode Error.mechanical_self _ _

/-- A prepare call. -/
theorem Invocation.posted_sendPrepare :
    Posted entry (sendPrepare entry : Op (Linkage H) (Int32 × PrepareResult))
      (sendPrepare entry : Op (Linkage H') (Int32 × PrepareResult)) := by
  refine .framed ?_
  refine .before (.obtain _) fun base => ?_
  refine .before (.lift (PrepareBlock.raises_parms base)) fun parms => ?_
  refine .call parms fun r15 => .bind (.read base _) fun block => ?_
  refine .bind (.lift (PrepareBlock.raises_decode Error.mechanical_self block)) fun result => ?_
  exact .pure _

/-- An execute call. -/
theorem Invocation.posted_sendBlock (block : CallBlock) :
    Posted entry (sendBlock entry capability block : Op (Linkage H) (Int32 × ExecuteResult))
      (sendBlock entry capability block : Op (Linkage H') (Int32 × ExecuteResult)) := by
  refine .framed ?_
  refine .before (.lift (Field.raises_writeAll Error.mechanical_self _ _)) fun bytes => ?_
  refine .before (.obtainWith bytes) fun base => ?_
  refine .before (.lift (CallBlock.raises_parms base _)) fun parms => ?_
  refine .call parms fun r15 => .bind (.read base _) fun found => ?_
  refine .bind (.lift (CallBlock.raises_decode Error.mechanical_self found)) fun result => ?_
  exact .pure _

/-- A call of the interpreter. -/
theorem ExecCapture.posted_callExec (request : ExecRequest) :
    Posted entry
      (callExec entry capability request : Op (Linkage H) (Int32 × EvalResult × Int32))
      (callExec entry capability request : Op (Linkage H') (Int32 × EvalResult × Int32)) := by
  refine .framed ?_
  refine .before (.obtain _) fun base => ?_
  refine .before (.lift (ExecArea.raises_encode Error.mechanical_self request base)) fun bytes => ?_
  refine .before (.write base bytes) fun _ => ?_
  refine .before (.lift (ExecArea.raises_parms base _)) fun parms => ?_
  refine .call parms fun r15 => .bind (.read base _) fun area => ?_
  refine .bind (.lift (ExecArea.raises_decodeEval Error.mechanical_self area)) fun eval => ?_
  exact .bind (.lift (Field.raises_readSigned Error.mechanical_self area _)) fun rc => .pure _

end TsoBridge
