/-
The command processor list, from the call that makes it. The environment
service is called in the frame of the engine's question, whose six blocks
take the first places of an empty storage (`questioned`), so the list and
its four areas always come to stand behind them, and `established` is what
is there once the frame is closed: the list holds the addresses of the
areas, and the areas are zeros.

The list is made at most once: a host that has one hands it out again, and
the engine asks again only if it never got an answer.
-/
import TsoBridge.Proofs.Sim.Frame

namespace TsoBridge

namespace Storage

-- ================================================================ the list

/-- Where the command processor list stands. -/
def listAddress : Address := 0x10040

/-- Storage with the command processor list in it: the addresses of four
areas, and the areas. -/
def established : Storage where
  blocks := ⟨[
    (listAddress, { subpool := hostSubpool
                    runs := [0x10050, 0x100D8, 0x100F0, 0x10138].map fun area =>
                      .data (Word.ofFull area) }),
    (0x10050, .zeros hostSubpool 132),
    (0x100D8, .zeros hostSubpool 24),
    (0x100F0, .zeros hostSubpool 72),
    (0x10138, .zeros hostSubpool 56)]⟩

/-- The blocks of the engine's first question: five words, and the list of
their addresses. -/
def questioned : Storage where
  blocks := ⟨[0x10000, 0x10008, 0x10010, 0x10018, 0x10020].map (fun word =>
      (word, .zeros engineSubpool 4))
    ++ [(0x10028, { subpool := engineSubpool
                    runs := [.data (ParmList.words [0x10000, 0x10008, 0x10010, 0x10018]
                      0x10020)] })]⟩
  frames := [[0x10028, 0x10020, 0x10018, 0x10010, 0x10008, 0x10000]]

/-- The question with the list made beside it. -/
def answered : Storage where
  blocks := ⟨questioned.blocks.entries ++ established.blocks.entries⟩
  frames := questioned.frames

/-- Closing the frame of the first question leaves the list and its areas.
-/
theorem closeFrame_answered : answered.closeFrame = established := by
  decide +kernel

/-- Obtains areas and writes their addresses from the word with the given
index of a list on. -/
def enterAreas (storage : Storage) (list : Address) (index : Nat) : List Nat → Outcome Storage
  | [] => .ok storage
  | length :: rest => do
    let (area, larger) ← storage.obtain hostSubpool length
    let written ← larger.writeFull (← list.plus (index * 4)) area
    written.enterAreas list (index + 1) rest

/-- Beside the question the list comes to stand behind it. -/
theorem questioned_list :
    ∃ larger, questioned.obtain hostSubpool Sim.Service.cpplSize = .ok (listAddress, larger)
      ∧ larger.enterAreas listAddress 0 Sim.Service.cpplAreas = .ok answered :=
  ⟨{ answered with blocks := ⟨questioned.blocks.entries
    ++ [(listAddress, .zeros hostSubpool Sim.Service.cpplSize)]⟩ },
    by decide +kernel, by decide +kernel⟩

/-- That storage is well formed. -/
theorem established_wellFormed : established.WellFormed := by
  constructor
  · unfold Apart
    decide +kernel
  · unfold Placed
    decide +kernel

theorem answered_wellFormed : answered.WellFormed := by
  constructor
  · unfold Apart
    decide +kernel
  · unfold Placed
    decide +kernel

/-- What the question may write to is still there beside the list. -/
theorem opened_answered {start : Storage} {spots : List (Address × Nat)}
    (h : Opened start spots questioned) : Opened established spots answered := by
  refine ⟨answered_wellFormed, List.cons_ne_nil _ _, closeFrame_answered, fun spot hspot => ?_⟩
  refine (h.lent spot hspot).mono rfl rfl (List.Subset.refl _) fun entry hentry => ?_
  unfold shape answered
  rw [List.map_append]
  exact List.mem_append_left _ hentry

end Storage

-- =============================================================== machines

namespace Machine

variable {H : Type} {m : Machine H}

/-- Obtaining looks at storage only. -/
theorem run_obtain {subpool : UInt8} {length : Nat} {address : Address} {larger : Storage}
    (h : m.storage.obtain subpool length = .ok (address, larger)) :
    Machine.obtain subpool length m = (.ok address, { m with storage := larger }) := by
  unfold Machine.obtain Machine.onStorage
  exact Op.run_on (Op.update_of_ok h)

theorem run_writeFull {address : Address} {value : UInt32} {written : Storage}
    (h : m.storage.writeFull address value = .ok written) :
    Machine.writeFull address value m = (.ok (), { m with storage := written }) := by
  unfold Machine.writeFull Machine.write Machine.onStorage
  refine Op.run_on (Op.update_of_ok ?_)
  rw [show m.storage.write address (Word.ofFull value) = .ok written from h]
  rfl

end Machine

namespace Sim

open Storage (Opened established questioned answered listAddress)

namespace Service

variable {m : Machine SimHost}

/-- Filling the list looks at storage only. -/
theorem fillCppl_entered {list : Address} {index : Nat} {lengths : List Nat} {after : Storage}
    (h : m.storage.enterAreas list index lengths = .ok after) :
    fillCppl list index lengths m = (.ok (), { m with storage := after }) := by
  induction lengths generalizing index m with
  | nil =>
      cases h
      rfl
  | cons length rest ih =>
      obtain ⟨⟨area, larger⟩, hobtain, h⟩ := Outcome.bind_ok h
      obtain ⟨place, hplace, h⟩ := Outcome.bind_ok h
      obtain ⟨written, hwrite, h⟩ := Outcome.bind_ok h
      have hgot : Machine.obtain Storage.hostSubpool length m
          = (.ok area, { m with storage := larger }) := Machine.run_obtain hobtain
      have hfound : (liftM (list.plus (index * 4)) : Op (Machine SimHost) Address)
          { m with storage := larger } = (.ok place, { m with storage := larger }) :=
        Prod.ext hplace rfl
      have hentered : Machine.writeFull place area { m with storage := larger }
          = (.ok (), { m with storage := written }) :=
        Machine.run_writeFull (m := { m with storage := larger }) hwrite
      unfold fillCppl
      rw [Op.run_bind_of_ok hgot, Op.run_bind_of_ok hfound, Op.run_bind_of_ok hentered]
      exact ih (m := { m with storage := written }) h

/-- The list is made beside the first question. -/
theorem ensureCppl_first (hnone : m.host.cppl = none) (hfirst : m.storage = questioned) :
    ensureCppl m = (.ok listAddress,
      { host := { m.host with cppl := some listAddress }, storage := answered }) := by
  obtain ⟨larger, hobtain, hentered⟩ := Storage.questioned_list
  rw [← hfirst] at hobtain
  have hgot : Machine.obtain Storage.hostSubpool cpplSize m
      = (.ok listAddress, { m with storage := larger }) := Machine.run_obtain hobtain
  have hfilled := fillCppl_entered (m := { m with storage := larger }) hentered
  have hhost : theHost m = (.ok m.host, m) := rfl
  unfold ensureCppl
  rw [Op.run_bind_of_ok hhost, hnone]
  show (Machine.obtain Storage.hostSubpool cpplSize >>= _ : Op (Machine SimHost) Address) m = _
  rw [Op.run_bind_of_ok hgot, Op.run_bind_of_ok hfilled]
  rfl

/-- Where the engine may find the list after a call of the environment
service that was opened at `start`: where it was, or in the storage that
was made for the first question. -/
def Asks (start : Storage) (spots : List (Address × Nat)) (m t : Machine SimHost) : Prop :=
  Opened start spots t.storage ∧ t.host.cppl = m.host.cppl
    ∨ m.host.cppl = none ∧ m.storage = questioned ∧ Opened established spots t.storage
      ∧ t.host.cppl = some listAddress

variable {start : Storage} {spots : List (Address × Nat)} {r1 : Address}

/-- A list is offered from where it stands, or built in fresh storage. -/
theorem offeredCppl_asks (hfirst : m.host.cppl = none → m.storage = questioned)
    (hopened : Opened start spots m.storage) (rc : Int32) :
    (offeredCppl rc).Ends m fun _ t => Asks start spots m t := by
  unfold offeredCppl
  split
  · cases hcppl : m.host.cppl with
    | some cppl =>
        refine Op.ends_gets_bind ?_
        rw [hcppl]
        exact .inl ⟨hopened, rfl⟩
    | none =>
        have hquestioned := hfirst hcppl
        have hmade := ensureCppl_first hcppl hquestioned
        rw [hquestioned] at hopened
        refine .inr ⟨hcppl, hquestioned, ?_, by rw [hmade]⟩
        rw [hmade]
        exact Storage.opened_answered hopened
  · exact .inl ⟨hopened, rfl⟩

/-- The answers are written, whatever the storage was opened at. -/
def Answering (spots : List (Address × Nat)) (m t : Machine SimHost) : Prop :=
  t.host.cppl = m.host.cppl ∧ ∀ start, Inside start spots m t

instance : IsPreorder (Machine SimHost) (Answering spots) where
  refl _ := ⟨rfl, fun _ => id⟩
  trans _ _ _ h h' := ⟨h'.1.trans h.1, fun start => h'.2 start ∘ h.2 start⟩

/-- An answer is written where it was asked for. -/
theorem answering_write {word : Address} (hspot : (word, 4) ∈ spots) (data : Bytes) :
    (Machine.write word data : Op (Machine SimHost) Unit).Within (Answering spots) := by
  intro m
  have hholds : Scope.nothing.Holds m (Machine.write word data m).2 :=
    (serves_write Scope.nothing.admits_write word data).holds m
  exact ⟨congrArg SimHost.cppl hholds.1.symm, fun _ => inside_write_first hspot (by decide) m⟩

/-- So the environment service leaves one of two storages. -/
theorem environment_asks {parm rc reason abend cppl : Address}
    (hdecode : ParmList.decode m.storage r1 = .ok [parm, rc, reason, abend, cppl])
    (hspots : ∀ word ∈ [rc, reason, abend, cppl], (word, 4) ∈ spots)
    (hfirst : m.host.cppl = none → m.storage = questioned)
    (hopened : Opened start spots m.storage) :
    (Service.environment r1).Ends m fun _ t => Asks start spots m t := by
  refine (ends_fiveParms hdecode).bind (fun p t ht => ?_) fun _ _ ht => by cases ht.1
  obtain ⟨hp, rfl⟩ := ht
  cases hp
  -- the count of the questions is nothing to the list
  refine ends_modifyHost_bind (Op.ends_gets_bind ?_)
  have hoffered : ∀ rc, (offeredCppl rc).Ends
      { t with host := { t.host with probeCount := t.host.probeCount + 1 } }
      fun _ u => Asks start spots t u := fun rc =>
    offeredCppl_asks (m := { t with host := { t.host with probeCount := t.host.probeCount + 1 } })
      hfirst hopened rc
  refine (hoffered _).bind (fun offered u hu => ?_) fun _ _ hu => hu
  have hkept : ∀ v, Answering spots u v → Asks start spots t v := by
    intro v hv
    rcases hu with ⟨hopened', hsame⟩ | ⟨hnone, hquestioned, hopened', hlisted⟩
    · exact .inl ⟨hv.2 start hopened', hv.1.trans hsame⟩
    · exact .inr ⟨hnone, hquestioned, hv.2 established hopened', hv.1.trans hlisted⟩
  have hwrite : ∀ word ∈ [rc, reason, abend, cppl], ∀ data,
      (Machine.write word data : Op (Machine SimHost) Unit).Within (Answering spots) :=
    fun word hword => answering_write (hspots word hword)
  refine Op.Ends.mono (Op.Within.bind (hwrite rc (by simp) _) (fun _ => ?_) u) fun _ v => hkept v
  refine (hwrite reason (by simp) _).bind fun _ => (hwrite abend (by simp) _).bind fun _ => ?_
  exact (hwrite cppl (by simp) _).bind fun _ => Op.within_pure _

end Service
end Sim
end TsoBridge
