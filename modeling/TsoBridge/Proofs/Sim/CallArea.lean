/-
The call area of an exec, written and read back. Nobody has placed a
parameter list yet: the area alone stands where storage gave its room, and
whoever follows its first two words finds what the request says.

# Room

The room for the texts is counted in their bytes, and at least one byte is
kept; what is written is one byte for each character. So the texts end at
the end of the area or before it (`encode_within`), and an empty argument
that stands last may point at the very end. A stretch of no bytes lies
there, because the end of a block is still in it (`covers_of_contents`).

# Arguments

The table is read entry by entry up to the pair of end marks
(`argumentsFrom_written`). No text stands at the address that marks the
end, because storage ends below it.
-/
import TsoBridge.Proofs.Access
import TsoBridge.Proofs.Sim.Received

namespace TsoBridge
namespace ExecArea

open CodePage (carried)

variable {storage larger after : Storage} {request : ExecRequest} {subpool : UInt8}
  {base : Address} {bytes : Bytes}

-- ============================================================ exec blocks

/-- An exec block that says what a request asks for. -/
structure Names (block : Bytes) (request : ExecRequest) : Prop where
  acronym : CodePage.decode (Field.slice block 0 8) = "IRXEXECB"
  length : Word.toFull (Field.slice block ExecBlock.length 4) = 48
  member : Field.slice block ExecBlock.member 8 = CodePage.encodeField 8 request.member
  ddname : Field.slice block ExecBlock.ddname 8 = CodePage.encodeField 8 request.ddname
  subcommand :
    Field.slice block ExecBlock.subcommand 8 = CodePage.encodeField 8 request.subcommand

/-- A field of the exec block, found in it. -/
theorem block_found (h : encode request base = .ok bytes) {offset width : Nat} {data : Bytes}
    (hmem : (execBlock + offset, data) ∈ header request base) (hwidth : data.length = width)
    (hfit : offset + width ≤ ExecBlock.size) :
    Field.slice (Field.slice bytes execBlock ExecBlock.size) offset width = data := by
  rw [Field.slice_slice hfit, ← hwidth]
  exact header_found h hmem

/-- The exec block of an area. -/
theorem names_block (h : encode request base = .ok bytes) :
    Names (Field.slice bytes execBlock ExecBlock.size) request := by
  constructor
  · rw [block_found h (by simp [header]) length_acronym (by decide)]
    decide +kernel
  · have hlength : Field.slice (Field.slice bytes execBlock ExecBlock.size) ExecBlock.length 4
        = Word.ofFull (UInt32.ofNat ExecBlock.size) :=
      block_found h (by simp [header]) (Word.length_ofFull _) (by decide)
    rw [hlength, Word.toFull_ofFull]
    rfl
  · exact block_found h (by simp [header]) (CodePage.length_encodeField 8 _) (by decide)
  · exact block_found h (by simp [header]) (CodePage.length_encodeField 8 _) (by decide)
  · exact block_found h (by simp [header]) (CodePage.length_encodeField 8 _) (by decide)

-- ================================================================= writing

/-- An area is written into the room that storage gave for it. -/
theorem write_given (hwf : storage.WellFormed)
    (h : storage.obtain subpool (size request) = .ok (base, larger)) :
    ∃ bytes after, encode request base = .ok bytes ∧ larger.write base bytes = .ok after
      ∧ after.WellFormed ∧ after.contents base = some bytes := by
  have hlargerwf := Storage.obtain_wellFormed hwf h
  have hzeros := (Storage.obtain_contents hwf h).1
  have hlimit := hlargerwf.contents_le hzeros
  rw [List.length_replicate] at hlimit
  obtain ⟨bytes, hencode⟩ := encode_within hlimit
  have hlength := length_encode hencode
  have hcovers : larger.Covers base bytes.length := by
    refine Storage.covers_of_contents hzeros (Nat.add_zero _).symm ?_
    rw [List.length_replicate, hlength]
    omega
  obtain ⟨after, hwrite⟩ := Storage.write_of_covers hlargerwf hcovers
  rw [← hlength] at hzeros
  exact ⟨bytes, after, hencode, hwrite, Storage.write_wellFormed hlargerwf hwrite,
    (Storage.write_whole hlargerwf hzeros hwrite).1⟩

-- ================================================================= theorem

/-- The area of any request is written whole into the room that storage
gives for it, after any history, and read back from its first two words:
the exec block names what the request names, and a table of at most 64
entries holds the arguments as they arrive through the code page. -/
theorem area_read_back (acts : List Storage.Act) (request : ExecRequest) (subpool : UInt8)
    {base : Address} {larger : Storage}
    (h : (Storage.Act.afterAll acts {}).obtain subpool (size request) = .ok (base, larger)) :
    ∃ bytes after, encode request base = .ok bytes ∧ bytes.length = size request
      ∧ larger.write base bytes = .ok after
      ∧ (∃ exec block, after.readFull (base.shift execPointer) = .ok exec
        ∧ after.read exec ExecBlock.size = .ok block ∧ Names block request)
      ∧ (request.arguments.length ≤ 64 →
        ∃ table, after.readFull (base.shift argumentPointer) = .ok table
          ∧ Sim.Service.readArguments after table = .ok (request.arguments.map carried)) := by
  obtain ⟨bytes, after, hencode, hwrite, hwf, hcontents⟩ :=
    write_given (Storage.Act.wellFormed_afterAll acts Storage.wellFormed_empty) h
  have hlength := length_encode hencode
  refine ⟨bytes, after, hencode, hlength, hwrite, ?_, fun hcount => ?_⟩
  · refine ⟨_, _, read_execPointer hwf hencode hcontents, ?_, names_block hencode⟩
    refine Storage.read_contents hwf hcontents ?_
    rw [hlength]
    exact Nat.le_trans (show execBlock + ExecBlock.size ≤ arguments by decide)
      (Nat.le_trans (Nat.le_add_right _ _) (Nat.le_add_right _ _))
  · exact ⟨_, read_argumentPointer hwf hencode hcontents,
      Sim.readArguments_area hwf hencode hcontents hcount⟩

/-- A character beyond the code page, and an empty argument behind it. -/
theorem area_read_back_wide :
    let request : ExecRequest :=
      { member := "LUTSO", ddname := "SYSEXEC", subcommand := "TSO", arguments := ["CMD", "漢", ""] }
    ∃ larger bytes after,
      (Storage.Act.afterAll [.obtain 0 5] {}).obtain 0 (size request) = .ok (0x10008, larger)
      ∧ encode request 0x10008 = .ok bytes ∧ larger.write 0x10008 bytes = .ok after
      ∧ ∃ table, after.readFull (Address.shift 0x10008 argumentPointer) = .ok table
        ∧ Sim.Service.readArguments after table = .ok ["CMD", "\u001a", ""] := by
  intro request
  have hsize : size request = 382 := by decide +kernel
  have hgap : (Storage.Act.afterAll [.obtain 0 5] {}).gap (size request) = 0x10008 := by
    rw [hsize]
    decide +kernel
  have hwf := Storage.Act.wellFormed_afterAll [.obtain 0 5] Storage.wellFormed_empty
  have hgiven := Storage.obtain_eq hwf (show 0 < size request by omega)
    (show size request ≤ Word.runLimit by rw [hsize]; decide) 0
  rw [hgap, if_pos (by rw [hsize]; decide)] at hgiven
  obtain ⟨bytes, after, hencode, -, hwrite, -, hread⟩ := area_read_back _ request 0 hgiven
  obtain ⟨table, htable, harguments⟩ := hread (by decide)
  have hcarried : request.arguments.map carried = ["CMD", "\u001a", ""] := by decide +kernel
  rw [hcarried] at harguments
  exact ⟨_, bytes, after, hgiven, hencode, hwrite, table, htable, harguments⟩

end ExecArea
end TsoBridge
