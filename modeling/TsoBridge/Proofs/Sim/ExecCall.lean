/-
The interpreter service of the simulated host on an area the engine has
sent. The call is refused, or the exec runs its command: then nothing that
follows can fail. The output stands in the stream, and the area holds the
answer, the result of the exec in front of the zeros it was sent with
(`performExec_ends`). So a call that appended to the stream always returns
zero, and the engine reads the answer that was left (`callExec_streamed`).

Whether the engine can make a number of the answer does not depend on the
command (`Readable`): without an override it always can, and an override
stands for every answer.
-/
import TsoBridge.Proofs.ExecResult
import TsoBridge.Proofs.Sim.Binding
import TsoBridge.Proofs.Sim.Stream

namespace TsoBridge

open Storage (HasBlock Stands Changed)
open CodePage (carried)

-- ============================================================== the area

namespace ExecArea.Sent

variable {storage : Storage} {request : ExecRequest} {cppl base r1 : Address}
  (h : Sent storage request cppl base r1)
include h

theorem hasBlock : HasBlock storage base (size request) := by
  obtain ⟨bytes, hencode, hcontents⟩ := h.area
  exact ⟨bytes, hcontents, length_encode hencode⟩

/-- The room for the result is zero. -/
theorem blank :
    Stands storage base (evalBlock + EvalBlock.data) (List.replicate EvalBlock.dataSize 0) := by
  obtain ⟨bytes, hencode, hcontents⟩ := h.area
  have hsize : evalBlock + EvalBlock.data + EvalBlock.dataSize ≤ size request := by
    unfold size tableSize evalBlock EvalBlock.data EvalBlock.dataSize arguments
    omega
  refine ⟨bytes, hcontents, ?_, ?_⟩
  · rw [List.length_replicate, length_encode hencode]
    exact hsize
  · obtain ⟨area, harea, hbytes⟩ := encode_parts hencode
    rw [List.length_replicate, (writeArguments_apart hbytes).2 _ _ (.inl (by decide))
      (Nat.le_trans (show _ ≤ arguments by decide) (Nat.le_add_right _ _)),
      (Field.writeAll_apart harea).2]
    · unfold Field.slice
      rw [List.drop_replicate, List.take_replicate, Nat.min_eq_left (by omega)]
    · intro field hfield
      exact .inr (Nat.le_trans (header_within request base field hfield) (by decide))

end ExecArea.Sent

namespace Sim

open ExecArea
open Output (streamOf)

-- ============================================================ the answer

/-- The parameters of the interpreter service with its area at `base`. -/
def execParmsAt (base cppl : Address) : Vector Address parmCount :=
  ⟨#[base.shift execPointer, base.shift argumentPointer, base.shift flags, 0, cppl,
    base.shift evalPointer, 0, 0, 0, base.shift rexxRc], rfl⟩

/-- The answer of an exec stands in the area at `base`. -/
structure AnswerStands (storage : Storage) (base : Address) (left : Int32 × Bytes) : Prop where
  length : Stands storage base (evalBlock + EvalBlock.length) (Word.ofSigned left.1)
  data : Stands storage base (evalBlock + EvalBlock.data) (leftBy left).data
  rc : Stands storage base rexxRc (Word.ofSigned 0)

theorem length_leftBy (left : Int32 × Bytes) : (leftBy left).data.length = EvalBlock.dataSize := by
  unfold leftBy
  simp only [List.length_append, List.length_replicate, List.length_take]
  omega

/-- The answer that stands in an area is the one the engine decodes. -/
theorem AnswerStands.decode {storage : Storage} {base : Address} {size : Nat}
    {left : Int32 × Bytes} (h : AnswerStands storage base left) (hwf : storage.WellFormed)
    (hblock : HasBlock storage base size) :
    ∃ area, storage.read base size = .ok area ∧ decodeEval area = .ok (leftBy left)
      ∧ decodeRc area = .ok 0 := by
  obtain ⟨area, hcontents, rfl⟩ := hblock
  have hread : storage.read base area.length = .ok area := by
    have hwhole := Storage.read_contents hwf hcontents (Nat.le_of_eq (Nat.zero_add area.length))
    rwa [Address.shift_zero, Field.slice_full] at hwhole
  have hlimit : area.length < Word.indexLimit := by
    have := hwf.contents_le hcontents
    unfold Storage.addressLimit at this
    unfold Word.indexLimit
    omega
  have hfield : ∀ {offset : Nat} {data : Bytes}, Stands storage base offset data →
      Field.read area offset data.length = .ok data := by
    intro offset data hstands
    have hslice := hstands.slice hwf ⟨area, hcontents, rfl⟩ hread
    obtain ⟨held, hheld, hfit, -⟩ := hstands
    rw [hcontents] at hheld
    cases hheld
    rw [Field.read_within hfit hlimit, hslice]
  have hsigned : ∀ {offset : Nat} {value : Int32}, Stands storage base offset (Word.ofSigned value) →
      Field.readSigned area offset = .ok value := by
    intro offset value hstands
    have hvalue := hfield hstands
    rw [Word.length_ofSigned] at hvalue
    unfold Field.readSigned
    rw [hvalue]
    show Except.ok (Word.toSigned (Word.ofSigned value)) = _
    rw [Word.toSigned_ofSigned]
  refine ⟨area, hread, ?_, hsigned h.rc⟩
  have hdata := hfield h.data
  rw [length_leftBy] at hdata
  unfold decodeEval
  rw [hsigned h.length]
  show (Field.read area (evalBlock + EvalBlock.data) EvalBlock.dataSize >>= _) = _
  rw [hdata]
  rfl

-- ============================================================ performing

/-- What an exec makes of its command: a verb that has to run authorized
is refused in its output. -/
def execResult (host : SimHost) (command : String) : CommandResult :=
  if host.authcmd.contains (Command.parse command).name then
    .error ("IKJ56503I COMMAND " ++ (Command.parse command).name
      ++ " NOT SUPPORTED IN AN UNAUTHORIZED ENVIRONMENT")
  else Processor.execute host.view (Command.parse command)

variable {m : Machine SimHost} {base : Address} {size : Nat} {ddname : String} {bytes : Bytes}

theorem runForExec_run (command : String) (m : Machine SimHost) :
    ∃ host, Service.runForExec command m = (.ok (execResult m.host command), { m with host })
      ∧ host.dds = m.host.dds ∧ host.catalog = m.host.catalog
      ∧ host.evalOverride = m.host.evalOverride := by
  by_cases hverb : m.host.authcmd.contains (Command.parse command).name = true
  · refine ⟨m.host, ?_, rfl, rfl, rfl⟩
    unfold Service.runForExec execResult
    show (if m.host.authcmd.contains _ = true then _ else _ : Op _ _) m = _
    rw [if_pos hverb, if_pos hverb]
    rfl
  · refine ⟨(m.host.execute command).2, ?_, rfl, rfl, rfl⟩
    unfold Service.runForExec execResult
    show (if m.host.authcmd.contains _ = true then _ else _ : Op _ _) m = _
    rw [if_neg hverb, if_neg hverb]
    rfl

/-- The output of an exec reaches the stream behind the DD. -/
theorem sendOutput_run (lines : List String) (hname : ddname ≠ "")
    (h : HoldsStream m.host ddname bytes) :
    ∃ host, Service.sendOutput ddname lines m = (.ok (), { m with host })
      ∧ HoldsStream host ddname (bytes ++ streamOf lines)
      ∧ host.evalOverride = m.host.evalOverride := by
  obtain ⟨t, hrun, hstorage, hholds⟩ := appendLines_run lines h
  have hscope : Scope.output.Holds m t := by
    have hwithin := (Service.serves_appendLines Scope.output_append ddname lines).holds m
    rw [Op.Ends, hrun] at hwithin
    exact hwithin
  refine ⟨t.host, ?_, hholds, ?_⟩
  · unfold Service.sendOutput
    rw [if_neg hname, hrun, ← hstorage]
  · rw [← hscope.1]
    rfl

/-- The result of an exec is left in front of the zeros of its block. -/
theorem leaveResult_run (rc : Int32) (hwf : m.storage.WellFormed)
    (hblock : HasBlock m.storage base size) (hsize : arguments ≤ size)
    (heval : m.storage.readFull (base.shift evalPointer) = .ok (base.shift evalBlock))
    (hblank : Stands m.storage base (evalBlock + EvalBlock.data)
      (List.replicate EvalBlock.dataSize 0)) :
    ∃ storage, Service.leaveResult (base.shift evalPointer) rc m = (.ok (), { m with storage })
      ∧ storage.WellFormed ∧ HasBlock storage base size
      ∧ Stands storage base (evalBlock + EvalBlock.length)
        (Word.ofSigned (Service.resultOf m.host.evalOverride rc).1)
      ∧ Stands storage base (evalBlock + EvalBlock.data)
        (leftBy (Service.resultOf m.host.evalOverride rc)).data := by
  obtain ⟨left, hleft⟩ : ∃ left, Service.resultOf m.host.evalOverride rc = left := ⟨_, rfl⟩
  have hend : evalBlock + EvalBlock.data + EvalBlock.dataSize ≤ size :=
    Nat.le_trans (by decide) hsize
  have hshort : (left.2.take EvalBlock.dataSize).length ≤ EvalBlock.dataSize := List.length_take_le _ _
  have hlengthAt : (base.shift evalBlock).plus EvalBlock.length
      = .ok (base.shift (evalBlock + EvalBlock.length)) :=
    Machine.field_address hwf hblock rfl (Nat.le_trans (by decide) hend)
  have hdataAt : (base.shift evalBlock).plus EvalBlock.data
      = .ok (base.shift (evalBlock + EvalBlock.data)) :=
    Machine.field_address hwf hblock rfl (Nat.le_trans (by decide) hend)
  -- the length
  obtain ⟨first, hfirst, hchanged, hlength⟩ := Machine.run_write (m := m)
    (evalBlock + EvalBlock.length) (Word.ofSigned left.1) hwf hblock
    (Nat.lt_of_lt_of_le (by decide) hend)
    (by rw [Word.length_ofSigned]; exact Nat.le_trans (by decide) hend)
  have hblock' := hblock.changed hchanged
  have hzeros := hblank.changed hchanged
    (.inr (.inr (by rw [Word.length_ofSigned]; decide)))
  -- the bytes, in front of what is left of the zeros
  obtain ⟨second, hsecond, hchanged', hdata⟩ := Machine.run_write
    (m := { m with storage := first }) (evalBlock + EvalBlock.data)
    (left.2.take EvalBlock.dataSize) hchanged.wellFormed hblock'
    (Nat.lt_of_lt_of_le (by decide) hend) (by omega)
  have hrest : Stands second base
      (evalBlock + EvalBlock.data + (left.2.take EvalBlock.dataSize).length)
      (List.replicate (EvalBlock.dataSize - (left.2.take EvalBlock.dataSize).length) 0) := by
    have hsplit : List.replicate EvalBlock.dataSize (0 : UInt8)
        = List.replicate (left.2.take EvalBlock.dataSize).length 0
          ++ List.replicate (EvalBlock.dataSize - (left.2.take EvalBlock.dataSize).length) 0 := by
      rw [List.replicate_append_replicate, Nat.add_sub_cancel' hshort]
    rw [hsplit] at hzeros
    have hbehind := hzeros.behind
    rw [List.length_replicate] at hbehind
    exact hbehind.changed hchanged' (.inr (.inr (Nat.le_refl _)))
  rw [hleft]
  refine ⟨second, ?_, hchanged'.wellFormed, hblock'.changed hchanged', ?_, hdata.append hrest⟩
  · unfold Service.leaveResult
    have hpointer : Machine.readFull (base.shift evalPointer) m = (.ok (base.shift evalBlock), m) :=
      Prod.ext heval rfl
    show ((Machine.readFull (base.shift evalPointer) : Op (Machine SimHost) UInt32) >>= _) m = _
    rw [hleft, Op.run_bind_of_ok hpointer]
    simp only [hlengthAt, hdataAt]
    show (Machine.write (base.shift (evalBlock + EvalBlock.length)) (Word.ofSigned left.1) >>= _) m
      = _
    rw [Op.run_bind_of_ok hfirst]
    exact hsecond
  · exact hlength.changed hchanged'
      (.inr (.inl (by rw [Word.length_ofSigned]; decide)))

/-- An exec that runs its command goes through to its end. -/
theorem performExec_run (command : String) (cppl : Address) (hwf : m.storage.WellFormed)
    (hblock : HasBlock m.storage base size) (hsize : arguments ≤ size)
    (heval : m.storage.readFull (base.shift evalPointer) = .ok (base.shift evalBlock))
    (hblank : Stands m.storage base (evalBlock + EvalBlock.data)
      (List.replicate EvalBlock.dataSize 0))
    (hname : ddname ≠ "") (hholds : HoldsStream m.host ddname bytes) :
    ∃ t, Service.performExec (execParmsAt base cppl) command ddname m = (.ok 0, t)
      ∧ HoldsStream t.host ddname (bytes ++ streamOf (execResult m.host command).output)
      ∧ t.storage.WellFormed ∧ HasBlock t.storage base size
      ∧ AnswerStands t.storage base
        (Service.resultOf m.host.evalOverride (execResult m.host command).rc) := by
  obtain ⟨result, hresult⟩ : ∃ result, execResult m.host command = result := ⟨_, rfl⟩
  obtain ⟨ran, hran, hdds, hcatalog, hoverride⟩ := runForExec_run command m
  have hbefore : HoldsStream ran ddname bytes := hholds.of_same hdds hcatalog
  obtain ⟨sent, hsent, hstream, hoverride'⟩ :=
    sendOutput_run (m := { m with host := ran }) result.output hname hbefore
  obtain ⟨answered, hanswered, hwf', hblock', hlength, hdata⟩ :=
    leaveResult_run (m := { m with host := sent }) result.rc hwf hblock hsize heval hblank
  have hsame : sent.evalOverride = m.host.evalOverride := hoverride'.trans hoverride
  rw [hresult] at hran ⊢
  -- the return code of the interpreter comes last
  obtain ⟨storage, hstorage, hchanged, hrc⟩ := Machine.run_write
    (m := { host := sent, storage := answered }) rexxRc (Word.ofSigned 0) hwf' hblock'
    (Nat.lt_of_lt_of_le (by decide) hsize)
    (by rw [Word.length_ofSigned]; exact Nat.le_trans (by decide) hsize)
  have hafter : rexxRc + (Word.ofSigned 0).length ≤ evalBlock + EvalBlock.length := by
    rw [Word.length_ofSigned]
    decide
  refine ⟨{ host := sent, storage }, ?_, hstream, hchanged.wellFormed, hblock'.changed hchanged,
    ?_, ?_, hrc⟩
  · unfold Service.performExec
    rw [Op.run_bind_of_ok hran]
    show (Service.sendOutput (if (ran.dds.lookup ddname).isSome then ddname else "") result.output
      >>= _) { m with host := ran } = _
    rw [if_pos hbefore.lookup_isSome, Op.run_bind_of_ok hsent]
    show (Service.leaveResult (base.shift evalPointer) result.rc >>= _) { m with host := sent } = _
    rw [Op.run_bind_of_ok hanswered]
    show (Machine.write (base.shift rexxRc) (Word.ofSigned 0) >>= _) _ = _
    rw [Op.run_bind_of_ok hstorage]
    rfl
  · rw [← hsame]
    exact hlength.changed hchanged (.inr (.inr hafter))
  · rw [← hsame]
    exact hdata.changed hchanged (.inr (.inr (Nat.le_trans hafter (by decide))))

-- =============================================================== calling

open Service (Refused)

theorem refuseExec_refused (p : Vector Address parmCount) (m : Machine SimHost) :
    (Service.refuseExec p).Ends m (Refused m) := by
  have hreturns : (Service.refuseExec p).Returns Service.notRun :=
    Op.returns_bind fun _ => Op.returns_pure _
  have hvalue : ∀ r15, (Service.refuseExec p m).1 = .ok r15 → r15 = Service.notRun :=
    fun r15 h => hreturns m _ r15 (Prod.ext h rfl)
  refine ⟨(Service.serves_refuseExec Scope.nothing.admits_write p).holds m, fun h => ?_,
    fun h => ?_⟩
  · exact absurd (hvalue _ h) (by decide)
  · exact absurd (hvalue _ h) (by decide)

theorem decodeExact_sent {request : ExecRequest} {cppl r1 : Address} {storage : Storage}
    (hsent : ExecArea.Sent storage request cppl base r1) :
    ParmList.decodeExact storage r1 parmCount = .ok (execParmsAt base cppl) := by
  unfold ParmList.decodeExact
  rw [hsent.decode]
  rfl

variable {request : ExecRequest} {cppl r1 : Address} {text : String}

/-- How a call with a command is decided: it is refused, or the exec runs
the command. -/
def ExecDecided (m : Machine SimHost) (p : Vector Address parmCount) (command ddname : String)
    (r : Outcome Int32) (t : Machine SimHost) : Prop :=
  Refused m r t ∨ Service.performExec p command ddname m = (r, t)

theorem interpret_decided (hsent : ExecArea.Sent m.storage request cppl base r1)
    (harguments : request.arguments = ["CMD", text, ddname]) :
    (Service.interpret r1).Ends m
      (ExecDecided m (execParmsAt base cppl) (carried text) (carried ddname)) := by
  have hfault : ∀ fault, ExecDecided m (execParmsAt base cppl) (carried text) (carried ddname)
      (.error fault) m := fun fault => .inl (Service.refused_fault m fault)
  have hrefuse : ∀ p, (Service.refuseExec p).Ends m
      (ExecDecided m (execParmsAt base cppl) (carried text) (carried ddname)) :=
    fun p => (refuseExec_refused p m).mono fun _ _ h => .inl h
  refine Op.ends_examine_of_ok (decodeExact_sent hsent) ?_
  refine Op.ends_examine_bind hfault fun pointer _ => ?_
  refine Op.ends_examine_bind hfault fun block _ => ?_
  refine Op.ends_gets_bind ?_
  split
  · split
    · refine Op.ends_examine_bind hfault fun table htable => ?_
      refine Op.ends_examine_bind hfault fun found hfound => ?_
      have hhanded : HandedExec m.storage r1 found :=
        ⟨_, table, decodeExact_sent hsent, htable, hfound⟩
      rw [hhanded.of_sent hsent (by simp [harguments, Service.maxArguments]), harguments]
      have hfunction : Text.sameLetters (carried "CMD") "CMD" = true := by decide +kernel
      show (if Text.sameLetters (carried "CMD") "CMD" = true then _ else _ :
        Op (Machine SimHost) Int32).Ends m _
      rw [if_pos hfunction]
      exact .inr rfl
    · exact hrefuse _
  · exact hrefuse _

/-- How a call of the interpreter ends: the stream is as it was and the
interpreter did not return zero, or the exec ran its command, the stream
holds its output, and the engine has its answer. -/
def ExecStreamed (host : SimHost) (command ddname : String) (bytes : Bytes)
    (r : Outcome (Int32 × EvalResult × Int32)) (after : SimHost) : Prop :=
  HoldsStream after ddname bytes ∧ (∀ eval rc, r ≠ .ok (0, eval, rc))
    ∨ HoldsStream after ddname (bytes ++ streamOf (execResult host command).output)
      ∧ r = .ok (0, leftBy (Service.resultOf host.evalOverride (execResult host command).rc), 0)

variable {link : Linkage SimHost} {entry : EntryPoint}

/-- A branch to the interpreter with an area that stands. -/
theorem callWith_streamed (link : Linkage SimHost) (hentry : entry.module = "IRXEXEC")
    (hsent : ExecArea.Sent link.storage request cppl base r1)
    (harguments : request.arguments = ["CMD", text, ddname]) (hcarried : carried ddname = ddname)
    (hname : ddname ≠ "") (hholds : HoldsStream link.host ddname bytes) :
    ExecStreamed link.host (carried text) ddname bytes
      (ExecCapture.callWith entry request (base, r1) link).1
      (Linkage.branch entry r1 link).2.host := by
  let m := counted link.toMachine "IRXEXEC"
  have hservice : SimHost.service entry.module = (Service.interpret, 20) := by
    rw [hentry]
    rfl
  have hmachine : (Linkage.branch entry r1 link).2.toMachine = (Service.interpret r1 m).2 := by
    rw [branch_machine, hservice, hentry]
  have hbefore : HoldsStream m.host ddname bytes := hholds.of_same rfl rfl
  rcases interpret_decided (m := m) hsent harguments with hrefused | hperformed
  · refine .inl ⟨?_, fun eval rc hanswer => ?_⟩
    · rw [hmachine, ← hrefused.1.1]
      exact hbefore
    · obtain ⟨after, hcall⟩ := Op.ends_of_fst hanswer
      obtain ⟨r15, called, hbranch, h1⟩ := Op.bind_ok hcall
      obtain ⟨area, u, -, h2⟩ := Op.bind_ok h1
      obtain ⟨found, -, h3⟩ := Op.lift_bind_ok h2
      obtain ⟨code, -, h4⟩ := Op.lift_bind_ok h3
      cases (Op.pure_ok h4).1
      have hran := branch_ok hbranch (by rw [hservice]; decide)
      rw [hservice, hentry] at hran
      exact hrefused.2.1 (congrArg Prod.fst hran)
  · rw [hcarried] at hperformed
    obtain ⟨t, hrun, hstream, hwf, hblock, hanswer⟩ := performExec_run (m := m) (carried text) cppl
      hsent.wellFormed hsent.hasBlock (Nat.le_trans (Nat.le_add_right _ _) (Nat.le_add_right _ _))
      hsent.evalAddress hsent.blank hname hbefore
    rw [hrun] at hperformed
    have hvalue : (Linkage.branch entry r1 link).1 = .ok 0 := by
      refine branch_returns ?_
      rw [hservice, hentry]
      exact (congrArg Prod.fst hperformed).symm
    have hleft : (Linkage.branch entry r1 link).2.toMachine = t := by
      rw [hmachine]
      exact (congrArg Prod.snd hperformed).symm
    refine .inr ⟨by rw [hleft]; exact hstream, ?_⟩
    obtain ⟨area, hread, heval, hrc⟩ := hanswer.decode hwf hblock
    have hbranch : Linkage.branch entry r1 link = (.ok 0, (Linkage.branch entry r1 link).2) :=
      Prod.ext hvalue rfl
    have hlook : Linkage.read base (size request) (Linkage.branch entry r1 link).2
        = (.ok area, (Linkage.branch entry r1 link).2) := by
      refine Prod.ext ?_ rfl
      rw [← hread, ← hleft]
      rfl
    unfold ExecCapture.callWith
    rw [Op.run_bind_of_ok hbranch, Op.run_bind_of_ok hlook]
    simp only [heval, hrc]
    rfl

/-- Calling the interpreter with a command. -/
theorem callExec_streamed (capability : Capability) (hentry : entry.module = "IRXEXEC")
    (hwf : link.storage.WellFormed) (harguments : request.arguments = ["CMD", text, ddname])
    (hcarried : carried ddname = ddname) (hname : ddname ≠ "")
    (hholds : HoldsStream link.host ddname bytes) :
    (ExecCapture.callExec entry capability request).Ends link fun r t =>
      ExecStreamed link.host (carried text) ddname bytes r t.host := by
  refine (ExecCapture.callExec_ends entry capability request hwf).mono fun r t h => ?_
  rcases h with ⟨⟨fault, rfl⟩, hhost⟩ | ⟨storage, base, r1, hsent, rfl, hhost⟩
  · refine .inl ⟨?_, fun _ _ h => by cases h⟩
    rw [hhost]
    exact hholds
  · rw [hhost]
    exact callWith_streamed { link with storage } hentry hsent harguments hcarried hname hholds

-- =============================================================== answers

/-- The engine can make a number of what an exec leaves for any return
code. -/
def Readable (override : Option (Int32 × Bytes)) : Prop :=
  ∀ rc, ∃ code, evalNumber (leftBy (Service.resultOf override rc)).length
    (leftBy (Service.resultOf override rc)).data = .ok code

/-- One answer that is read shows that all are. -/
theorem readable_of_read {override : Option (Int32 × Bytes)} {rc code : Int32}
    (h : evalNumber (leftBy (Service.resultOf override rc)).length
      (leftBy (Service.resultOf override rc)).data = .ok code) : Readable override := by
  intro other
  cases override with
  | some left => exact ⟨code, h⟩
  | none => exact ⟨_, evalNumber_leftBy (Int32.le_toInt other) (Int32.toInt_lt other) rfl⟩

end Sim
end TsoBridge
