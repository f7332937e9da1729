/-
The services write where they were told to, and nowhere else. Each writes
at the parameters of its list or at an offset of the work area; if those
lie in blocks of the open frame, closing the frame undoes all of it
(`Inside`). Two parameters of the engine's calls point elsewhere, the
command processor list and the dummies of an exec, and no service writes
there.

The interpreter follows a pointer of the caller before it writes. It reads
the pointer from the storage the caller left, for neither the command it
runs nor the output it sends on touches storage.
-/
import TsoBridge.Proofs.Frame
import TsoBridge.Proofs.Sim.Malformed

namespace TsoBridge

-- ================================================================== sums

namespace Op

variable {σ α : Type} {R : σ → σ → Prop} [IsPreorder σ R]

/-- What is done at a displacement from an address. -/
theorem within_plus {base : Address} {offset : Nat} {f : Address → Op σ α}
    (hf : ∀ place : Address, place.toNat = base.toNat + offset → (f place).Within R) :
    ((liftM (base.plus offset) : Op σ Address) >>= f).Within R := by
  intro s
  refine ends_lift_bind (fun _ => refl s) fun place hplace => ?_
  obtain ⟨hlt, rfl⟩ := Address.plus_ok hplace
  exact hf _ (Address.toNat_shift hlt) s

end Op

namespace Sim

open Storage (Opened)
open WorkArea

section Inside

variable {α : Type} {start : Storage} {spots : List (Address × Nat)} {m : Machine SimHost}
  {base : Address} {width : Nat}

/-- Storage that was opened at `start` still is. -/
def Inside (start : Storage) (spots : List (Address × Nat)) (m t : Machine SimHost) : Prop :=
  Opened start spots m.storage → Opened start spots t.storage

instance : IsPreorder (Machine SimHost) (Inside start spots) where
  refl _ := id
  trans _ _ _ h h' := h' ∘ h

/-- Deeds that are done beside storage. -/
abbrev Beside (deed : Deed) : Prop :=
  deed ≠ .obtain ∧ deed ≠ .write

/-- Storage is what it was. -/
theorem Acts.beside {m t : Machine SimHost} (h : Acts Beside m t) : t.storage = m.storage :=
  h.carries_storage (P := fun storage => storage = m.storage) (fun hdeed => absurd rfl hdeed.1)
    (fun hdeed => absurd rfl hdeed.2) rfl

/-- What is done beside storage stays inside. -/
theorem inside_of_beside {x : Op (Machine SimHost) α} (h : x.Within (Acts Beside)) :
    x.Within (Inside start spots) := by
  intro m hopened
  rwa [(h m).beside]

/-- A write that begins in one of the stretches. -/
theorem inside_write {target : Address} {data : Bytes} (hspot : (base, width) ∈ spots)
    (hlow : base.toNat ≤ target.toNat) (hhigh : target.toNat < base.toNat + width) :
    (Machine.write target data : Op (Machine SimHost) Unit).Within (Inside start spots) := by
  intro m hopened
  show Opened start spots (Machine.write target data m).2.storage
  unfold Machine.write Machine.onStorage
  cases hwrite : m.storage.write target data with
  | error fault =>
      rw [Op.run_on (Op.update_of_fault (by rw [hwrite]; rfl))]
      exact hopened
  | ok written =>
      rw [Op.run_on (Op.update_of_ok (by rw [hwrite]; rfl))]
      exact hopened.write hspot hlow hhigh hwrite

/-- A write where one of the stretches begins. -/
theorem inside_write_first {data : Bytes} (hspot : (base, width) ∈ spots) (hwidth : 0 < width) :
    (Machine.write base data : Op (Machine SimHost) Unit).Within (Inside start spots) :=
  inside_write hspot (Nat.le_refl _) (by omega)

/-- A write at a displacement within one of the stretches. -/
theorem inside_write_at {offset : Nat} {data : Bytes} {rest : Unit → Op (Machine SimHost) α}
    (hspot : (base, width) ∈ spots) (hoffset : offset < width)
    (hrest : (rest ()).Within (Inside start spots)) :
    ((liftM (base.plus offset) : Op (Machine SimHost) Address) >>= fun place =>
      Machine.write place data >>= rest).Within (Inside start spots) :=
  Op.within_plus fun _ hplace =>
    (inside_write hspot (by omega) (by omega)).bind fun _ => hrest

namespace Service

-- ============================================================ allocation

/-- The stretches an allocation service was given: the two words for codes
and the work area, with the request block at `offset` of it. -/
structure AllocationCall.Given (call : AllocationCall) (offset : Nat)
    (spots : List (Address × Nat)) : Prop where
  rc : (call.rc, 4) ∈ spots
  catalogRc : (call.catalogRc, 4) ∈ spots
  area : (call.area, WorkArea.size) ∈ spots
  block : call.block.toNat = call.area.toNat + offset

variable {r1 : Address}

/-- A call is taken in: its parameters are those of the list. -/
theorem receive_inside {offset : Nat} {cppl ddname rc catalogRc area : Address}
    (hdecode : ParmList.decode m.storage r1 = .ok [cppl, ddname, rc, catalogRc, area])
    (hrc : (rc, 4) ∈ spots) (hcatalogRc : (catalogRc, 4) ∈ spots)
    (harea : (area, WorkArea.size) ∈ spots) (hoffset : offset ≤ WorkArea.size)
    (hopened : Opened start spots m.storage) :
    (receive r1 offset).Ends m fun r t => Opened start spots t.storage
      ∧ ∀ call, r = .ok call → call.Given offset spots := by
  have hkept : (receive r1 offset).Ends m fun _ t => Opened start spots t.storage := by
    unfold receive
    refine (ends_fiveParms hdecode).bind (fun p t ht => ?_) fun _ _ ht => by cases ht.1
    obtain ⟨hp, rfl⟩ := ht
    cases hp
    refine Op.Within.bind (R := Inside start spots) (Op.within_examine _) (fun _ => ?_) t hopened
    refine (inside_of_beside (serves_callerAreas cppl).acts).bind fun areas => ?_
    obtain ⟨upt, pscb, ect⟩ := areas
    refine Op.within_plus fun list hlist => ?_
    unfold listOffset at hlist
    have hinside : ∀ {displacement : Nat} {value : UInt32}
        {rest : Unit → Op (Machine SimHost) AllocationCall}, displacement < WorkArea.size →
        (rest ()).Within (Inside start spots) →
        ((liftM (list.plus displacement) : Op (Machine SimHost) Address) >>= fun place =>
          Machine.writeFull place value >>= rest).Within (Inside start spots) := by
      intro displacement value rest hin hrest
      exact Op.within_plus fun place hplace =>
        (inside_write harea (by omega) (by omega)).bind fun _ => hrest
    refine (Op.within_lift _).bind fun block => ?_
    refine hinside (by decide) (hinside (by decide) ?_)
    refine Op.within_plus fun third hthird => (Op.within_lift _).bind fun ecb => ?_
    refine (inside_write harea (by omega) (by unfold WorkArea.size; omega)).bind fun _ => ?_
    refine hinside (by decide) (hinside (by decide) ?_)
    exact (Op.within_examine _).bind fun _ => Op.within_pure _
  have hsafe : (receive r1 offset).Safe (fun _ => True) m fun call t =>
      TakenIn r1 offset m.storage t.storage call ∧ t.host = m.host :=
    safe_receive hopened.wellFormed hoffset
  refine ⟨hkept, fun call hcall => ?_⟩
  obtain ⟨htaken, -⟩ := hsafe.2 call hcall
  obtain ⟨_, _, -, hlist⟩ := htaken.listed
  rw [hdecode] at hlist
  cases hlist
  refine ⟨hrc, hcatalogRc, harea, ?_⟩
  rw [htaken.block]
  exact Address.toNat_shift (area_at htaken.grown.wellFormed htaken.area (by omega))

/-- An answer is left in the request block and where the list points to. -/
theorem inside_finish {call : AllocationCall} {offset : Nat} (hcall : call.Given offset spots)
    (hoffset : offset + 20 ≤ WorkArea.size) (answer : AllocationAnswer) :
    (finish call answer).Within (Inside start spots) := by
  have hblock := hcall.block
  have hin : ∀ {displacement : Nat} {data : Bytes} {place : Address}, displacement < 20 →
      place.toNat = call.block.toNat + displacement →
      (Machine.write place data : Op (Machine SimHost) Unit).Within (Inside start spots) :=
    fun _ hplace => inside_write hcall.area (by omega) (by omega)
  unfold finish
  refine Op.within_plus fun _ hplace => (hin (by decide) hplace).bind fun _ => ?_
  refine Op.within_plus fun _ hplace => (hin (by decide) hplace).bind fun _ => ?_
  refine Op.within_plus fun _ hplace => (hin (by decide) hplace).bind fun _ => ?_
  have hname : (leaveName call answer.ddname).Within (Inside start spots) := by
    unfold leaveName
    cases answer.ddname with
    | none => exact Op.within_pure _
    | some name => exact Op.within_plus fun _ hplace => hin (by decide) hplace
  refine hname.bind fun _ => ?_
  refine inside_write_at hcall.area (by decide) (inside_write_at hcall.area (by decide) ?_)
  refine (inside_write_first hcall.rc (by decide)).bind fun _ => ?_
  exact (inside_write_first hcall.catalogRc (by decide)).bind fun _ => Op.within_pure _

/-- The allocation service writes into its work area and the two words for
codes. -/
theorem allocate_inside {cppl ddname rc catalogRc area : Address}
    (hdecode : ParmList.decode m.storage r1 = .ok [cppl, ddname, rc, catalogRc, area])
    (hrc : (rc, 4) ∈ spots) (hcatalogRc : (catalogRc, 4) ∈ spots)
    (harea : (area, WorkArea.size) ∈ spots) (hopened : Opened start spots m.storage) :
    (allocate r1).Ends m fun _ t => Opened start spots t.storage := by
  refine (receive_inside hdecode hrc hcatalogRc harea (by decide) hopened).bind
    (fun call t ht => ?_) fun _ _ ht => ht.1
  have hfinish : ∀ answer, (finish call answer).Within (Inside start spots) :=
    inside_finish (ht.2 call rfl) (by decide)
  refine Op.Within.bind (R := Inside start spots) (Op.within_lift _) (fun _ => ?_) t ht.1
  refine (Op.within_examine _).bind fun code => ?_
  split
  · exact hfinish _
  · refine (Op.within_lift _).bind fun _ => (Op.within_examine _).bind fun flag => ?_
    split
    · exact hfinish _
    · exact (inside_of_beside (serves_allocateAs (by decide) _ _).acts).bind fun _ => hfinish _

/-- The free service does the same. -/
theorem free_inside {cppl ddname rc catalogRc area : Address}
    (hdecode : ParmList.decode m.storage r1 = .ok [cppl, ddname, rc, catalogRc, area])
    (hrc : (rc, 4) ∈ spots) (hcatalogRc : (catalogRc, 4) ∈ spots)
    (harea : (area, WorkArea.size) ∈ spots) (hopened : Opened start spots m.storage) :
    (free r1).Ends m fun _ t => Opened start spots t.storage := by
  refine (receive_inside hdecode hrc hcatalogRc harea (by decide) hopened).bind
    (fun call t ht => ?_) fun _ _ ht => ht.1
  have hfinish : ∀ answer, (finish call answer).Within (Inside start spots) :=
    inside_finish (ht.2 call rfl) (by decide)
  refine Op.Within.bind (R := Inside start spots) (Op.within_lift _) (fun _ => ?_) t ht.1
  refine (Op.within_examine _).bind fun code => ?_
  split
  · exact hfinish _
  · refine (Op.within_gets _).bind fun host => ?_
    split
    · exact hfinish _
    · exact (inside_of_beside (acts_unbind (by decide) _)).bind fun _ => hfinish _

-- ============================================================== commands

/-- The prepare service writes its token and its codes. -/
theorem prepare_inside {first second token error abend reason : Address}
    (hdecode : ParmList.decodeExact m.storage r1 6
      = .ok ⟨#[first, second, token, error, abend, reason], rfl⟩)
    (htoken : (token, tokenSize) ∈ spots) (herror : (error, 4) ∈ spots)
    (habend : (abend, 4) ∈ spots) (hreason : (reason, 4) ∈ spots)
    (hopened : Opened start spots m.storage) :
    (prepare r1).Ends m fun _ t => Opened start spots t.storage := by
  refine Op.ends_examine_of_ok hdecode ?_
  have hleave : ∀ {data : Bytes} {code : Int32} {value : UInt32},
      (Machine.write token data >>= fun _ => Machine.writeSigned error code >>= fun _ =>
        Machine.writeFull abend 0 >>= fun _ => Machine.writeFull reason value >>= fun _ =>
          (pure code : Op (Machine SimHost) Int32)).Within (Inside start spots) := by
    intro data code value
    refine (inside_write_first htoken (by decide)).bind fun _ => ?_
    refine (inside_write_first herror (by decide)).bind fun _ => ?_
    refine (inside_write_first habend (by decide)).bind fun _ => ?_
    exact (inside_write_first hreason (by decide)).bind fun _ => Op.within_pure _
  refine Op.ends_gets_bind ?_
  split
  · exact hleave m hopened
  · refine Op.Within.bind (R := Inside start spots) (Op.within_lift _) (fun _ => ?_) m hopened
    exact Op.Within.bind (fun _ => id) fun _ => hleave

/-- The stretches an execute service was given for its codes. -/
structure ExecuteParms.Given (p : ExecuteParms) (spots : List (Address × Nat)) : Prop where
  rc : (p.rc, 4) ∈ spots
  reason : (p.reason, 4) ∈ spots
  abend : (p.abend, 4) ∈ spots

variable {p : ExecuteParms}

/-- The codes of an execute service go where they belong. -/
theorem inside_leave (hp : p.Given spots) (r15 rc : Int32) (reason : UInt32) :
    (leave p r15 rc reason).Within (Inside start spots) := by
  refine (inside_write_first hp.rc (by decide)).bind fun _ => ?_
  refine (inside_write_first hp.reason (by decide)).bind fun _ => ?_
  exact (inside_write_first hp.abend (by decide)).bind fun _ => Op.within_pure _

/-- Whether a text runs or not, nothing else is written. -/
theorem inside_runText (hp : p.Given spots) (viaProcessor : Bool) (flags : CallFlags)
    (text : String) : (runText viaProcessor p flags text).Within (Inside start spots) := by
  refine (Op.within_examine _).bind fun output => ?_
  split
  · exact inside_leave hp _ _ _
  · refine (Op.within_gets _).bind fun host => ?_
    split
    · exact inside_leave hp _ _ _
    · split
      · exact inside_leave hp _ _ _
      · -- the command and its output go beside storage
        refine (inside_of_beside (serves_runCommand (by decide) _).acts).bind fun result => ?_
        refine (inside_of_beside (serves_sendOutput (by decide) (by decide) _ _).acts).bind ?_
        exact fun _ => inside_leave hp _ _ _

/-- So the execute services write their codes and nothing more. -/
theorem execute_inside {words : List Address} (viaProcessor : Bool)
    (hdecode : ParmList.decode m.storage r1 = .ok words)
    (hp : ∀ p, ExecuteParms.ofList words = .ok p → p.Given spots)
    (hopened : Opened start spots m.storage) :
    (execute viaProcessor r1).Ends m fun _ t => Opened start spots t.storage := by
  refine Op.ends_examine_of_ok hdecode ?_
  refine Op.ends_lift_bind (fun _ => hopened) fun p hfound => ?_
  have hleave := @inside_leave start spots p (hp p hfound)
  refine Op.Within.bind (R := Inside start spots) (Op.within_examine _) (fun flags => ?_) m hopened
  dsimp only
  split
  · exact hleave _ _ _
  · refine (Op.within_examine _).bind fun length => ?_
    split
    · exact hleave _ _ _
    · refine (Op.within_examine _).bind fun text => (Op.within_examine _).bind fun token => ?_
      refine (Op.within_gets _).bind fun host => ?_
      split
      · exact inside_runText (hp p hfound) _ _ _
      · exact hleave _ _ _

-- =========================================================== interpreter

/-- The stretches an exec was given: the word for the interpreter's return
code, and the evaluation block its pointer leads to. -/
structure ExecGiven (storage : Storage) (p : Vector Address ExecArea.parmCount)
    (spots : List (Address × Nat)) : Prop where
  rc : (p[9], 4) ∈ spots
  eval : ∀ block, storage.readFull p[5] = .ok block →
    (block, ExecArea.EvalBlock.data + ExecArea.EvalBlock.dataSize) ∈ spots

variable {q : Vector Address ExecArea.parmCount}

/-- A refused exec writes its return code. -/
theorem inside_refuseExec (hrc : (q[9], 4) ∈ spots) :
    (refuseExec q).Within (Inside start spots) :=
  (inside_write_first hrc (by decide)).bind fun _ => Op.within_pure _

/-- An exec that ran fills the evaluation block it was given. -/
theorem performExec_inside (hq : ExecGiven m.storage q spots) (command ddname : String)
    (hopened : Opened start spots m.storage) :
    (performExec q command ddname).Ends m fun _ t => Opened start spots t.storage := by
  have hrun : (runForExec command).Within (Acts Beside) :=
    (serves_runForExec (by decide) command).acts
  refine (hrun m).bind (fun result t ht => ?_) fun _ t ht => ?_
  · refine Op.ends_gets_bind ?_
    have hsend : ∀ ddname lines, (sendOutput ddname lines).Within (Acts Beside) :=
      fun ddname lines => (serves_sendOutput (by decide) (by decide) ddname lines).acts
    refine (hsend _ _ t).bind (fun _ u hu => ?_) fun _ u hu => ?_
    · -- the storage is still the one the caller left
      have hsame : u.storage = m.storage := hu.beside.trans ht.beside
      rw [← hsame] at hq hopened
      have hresult : (leaveResult q[5] result.rc).Ends u fun _ v => Opened start spots v.storage := by
        refine Op.ends_gets_bind ?_
        refine Op.ends_examine_bind (fun _ => hopened) fun block hblock => ?_
        refine (inside_write_at (hq.eval block hblock) (by decide) ?_) u hopened
        exact Op.within_plus fun _ hplace =>
          inside_write (hq.eval block hblock) (by omega)
            (by rw [hplace]; exact Nat.add_lt_add_left (by decide) _)
      refine hresult.bind (fun _ v hv => ?_) fun _ _ hv => hv
      exact ((inside_write_first hq.rc (by decide)).bind fun _ => Op.within_pure _) v hv
    · rwa [hu.beside, ht.beside]
  · rwa [ht.beside]

/-- So the interpreter writes there and into its return code. -/
theorem interpret_inside
    (hdecode : ParmList.decodeExact m.storage r1 ExecArea.parmCount = .ok q)
    (hq : ExecGiven m.storage q spots) (hopened : Opened start spots m.storage) :
    (interpret r1).Ends m fun _ t => Opened start spots t.storage := by
  have hrefuse : (refuseExec q).Ends m fun _ t => Opened start spots t.storage :=
    inside_refuseExec hq.rc m hopened
  refine Op.ends_examine_of_ok hdecode ?_
  refine Op.ends_examine_bind (fun _ => hopened) fun pointer _ => ?_
  refine Op.ends_examine_bind (fun _ => hopened) fun block _ => ?_
  refine Op.ends_gets_bind ?_
  split
  · split
    · refine Op.ends_examine_bind (fun _ => hopened) fun table _ => ?_
      refine Op.ends_examine_bind (fun _ => hopened) fun arguments _ => ?_
      split
      · split
        · exact performExec_inside hq _ _ hopened
        · exact hrefuse
      · exact hrefuse
    · exact hrefuse
  · exact hrefuse

end Service
end Inside
end Sim
end TsoBridge
