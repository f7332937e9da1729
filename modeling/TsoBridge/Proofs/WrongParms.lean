/-
A call answers whatever its parameters hold: with the code for wrong
parameters, 16 or 20, or after it has used a list of the right length at
addresses that lie in blocks (`Took`). The one call that does not answer is
an exec whose evaluation block is said to stand in the last eight bytes of
the fullwords (`Misplaced`): the address of the result's length is formed
before anything was read or written there, and is none.

The hosts are all there can be, and the storage is any that a history of
storage acts leaves; of the counters only the last value is excluded, for
there is none after it.
-/
import TsoBridge.Proofs.FirstFit
import TsoBridge.Proofs.Sim.Malformed

namespace TsoBridge.Sim

-- ================================================================= calls

/-- A call is answered: with the code for wrong parameters, or after the
service took its parameters. Only an exec whose result is out of place is
not. -/
theorem call_answered {host : SimHost} (hmade : host.Made) (hdataset : host.tempSeq < 0xFFFFFFFF)
    (htoken : host.nextToken < 0xFFFFFFFF) (hddname : host.dds.nextNumber < 0xFFFFFFFF)
    (acts : List Storage.Act) (entry : EntryPoint) (r1 : Address) :
    let m : Machine SimHost := { host, storage := Storage.Act.afterAll acts {} }
    let wrong := (SimHost.service entry.module).2
    (wrong = 16 ∨ wrong = 20)
      ∧ ((SimHost.call m entry r1).1 = none → entry.module = "IRXEXEC" ∧ Misplaced m r1)
      ∧ ∀ r15, (SimHost.call m entry r1).1 = some r15 →
        r15 = wrong ∨ Took entry.module m r1 (SimHost.call m entry r1).2.storage := by
  intro m wrong
  have hwf : m.storage.WellFormed := Storage.Act.wellFormed_afterAll acts Storage.wellFormed_empty
  have horderly : (counted m entry.module).host.Orderly := hmade.orderly.same rfl rfl
  have hcounted : (counted m entry.module).storage.WellFormed := hwf
  obtain ⟨hwrong, htrap, hvalue⟩ := service_safe entry.module r1 hcounted horderly
  -- none of the counters was at its last value
  have hnot : ∀ after, ¬Exhausted (counted m entry.module).host after := by
    have hbelow : ∀ {counter : UInt32}, counter < 0xFFFFFFFF →
        ¬UInt32.size ≤ counter.toNat + 1 := by
      intro counter hcounter
      have hlt := UInt32.lt_iff_toNat_lt.mp hcounter
      have hlast : (0xFFFFFFFF : UInt32).toNat + 1 = UInt32.size := rfl
      omega
    intro after hexhausted
    rcases hexhausted with ⟨h, -⟩ | ⟨h, -⟩ | ⟨h, -⟩
    · exact hbelow hdataset h
    · exact hbelow htoken h
    · exact hbelow hddname h
  rw [call_snd, call_fst]
  cases hresult : ((SimHost.service entry.module).1 r1 (counted m entry.module)).1 with
  | ok value =>
      refine ⟨hwrong, fun hnone => ?_, fun r15 hsome => ?_⟩
      · cases hnone
      · exact .inr (hvalue value hresult).of_counted
  | error fault =>
      cases fault with
      | error cause =>
          refine ⟨hwrong, fun hnone => ?_, fun r15 hsome => ?_⟩
          · cases hnone
          · cases hsome
            exact .inl rfl
      | trap =>
          refine ⟨hwrong, fun _ => ?_, fun r15 hsome => ?_⟩
          · exact ((htrap hresult).resolve_left (hnot _)).imp_right Misplaced.of_counted
          · cases hsome

/-- The work area of an allocate call lies in no block. -/
theorem call_answered_stray_area :
    let host := SimHost.build {} noon
    let acts : List Storage.Act := [.obtainWith Storage.engineSubpool
      (Word.ofFull 0 ++ Word.ofFull 0x10000 ++ Word.ofFull 0x10000 ++ Word.ofFull 0x10000
        ++ Word.ofFull 0x80020000)]
    let m : Machine SimHost := { host, storage := Storage.Act.afterAll acts {} }
    host.Made ∧ host.tempSeq < 0xFFFFFFFF ∧ host.nextToken < 0xFFFFFFFF
      ∧ host.dds.nextNumber < 0xFFFFFFFF
      ∧ (SimHost.call m ⟨"TSODALC", 0x801000⟩ 0x10000).1 = some 16 := by
  intro host acts m
  have hmade : host.Made := .build {} noon
  have hdataset : host.tempSeq < 0xFFFFFFFF := by decide
  have htoken : host.nextToken < 0xFFFFFFFF := by decide
  have hddname : host.dds.nextNumber < 0xFFFFFFFF := by decide +kernel
  obtain ⟨-, hnone, hsome⟩ :=
    call_answered hmade hdataset htoken hddname acts ⟨"TSODALC", 0x801000⟩ 0x10000
  refine ⟨hmade, hdataset, htoken, hddname, ?_⟩
  cases hcall : (SimHost.call m ⟨"TSODALC", 0x801000⟩ 0x10000).1 with
  | none => exact absurd (hnone hcall).1 (by decide)
  | some r15 =>
      rcases hsome r15 hcall with rfl | htook
      · rfl
      · -- the only block is that of the list
        have hshape : (SimHost.call m ⟨"TSODALC", 0x801000⟩ 0x10000).2.storage.shape
            = [(0x10000, 20)] := by decide +kernel
        have hwords : ParmList.decode m.storage 0x10000
            = .ok [0, 0x10000, 0x10000, 0x10000, 0x20000] := by decide +kernel
        obtain ⟨words, hdecode, husable⟩ := htook.answers
        rw [hwords] at hdecode
        cases hdecode
        obtain ⟨area, harea, entry, hentry, -, hend⟩ := husable.covered (4, WorkArea.size) (by decide)
        cases harea
        rw [hshape] at hentry
        rw [List.mem_singleton.mp hentry] at hend
        exact absurd hend (by decide)

/-- An exec whose evaluation block is said to stand at the end of the
fullwords: everything else about the call is in order, and it is not
answered. -/
theorem call_unanswered :
    let host := SimHost.build {} noon
    let acts : List Storage.Act := [
      .obtainWith Storage.engineSubpool
        (CodePage.encode "IRXEXECB" ++ Word.ofFull 48 ++ Word.ofFull 0
          ++ CodePage.encodeField 8 "LUTSO" ++ CodePage.encodeField 8 "SYSEXEC"
          ++ List.replicate 16 0 ++ CodePage.encode "CMD" ++ [0] ++ CodePage.encode "SEND 'A'"
          ++ Word.ofFull 0x10030 ++ Word.ofFull 3 ++ Word.ofFull 0x10034 ++ Word.ofFull 8
          ++ Word.ofFull ExecArea.argumentEnd ++ Word.ofFull ExecArea.argumentEnd
          ++ Word.ofFull 0x10000 ++ Word.ofFull 0x1003C ++ Word.ofFull 0xFFFFFFF8
          ++ Word.ofFull 0),
      .obtainWith Storage.engineSubpool
        (Word.ofFull 0x10054 ++ Word.ofFull 0x10058 ++ Word.ofFull 0 ++ Word.ofFull 0
          ++ Word.ofFull 0 ++ Word.ofFull 0x1005C ++ Word.ofFull 0 ++ Word.ofFull 0
          ++ Word.ofFull 0 ++ Word.ofFull 0x80010060)]
    let m : Machine SimHost := { host, storage := Storage.Act.afterAll acts {} }
    host.Made ∧ host.tempSeq < 0xFFFFFFFF ∧ host.nextToken < 0xFFFFFFFF
      ∧ host.dds.nextNumber < 0xFFFFFFFF
      ∧ (SimHost.call m ⟨"IRXEXEC", 0x806000⟩ 0x10068).1 = none := by
  intro host acts m
  exact ⟨.build {} noon, by decide, by decide, by decide +kernel, by decide +kernel⟩

end TsoBridge.Sim
