/-
What stands in storage when the engine branches. A call block or a call
area is one block; the parameter list is another, and every word of the
list points into the first. `Sent` says so for the two kinds of calls that
run a command, and the lemmas about it are what the callee reads.

The engine does nothing between placing the list and branching, so the
host of a request that branched is what the branch left, and of one that
did not it is the old one (`sendBlock_branch`, `callExec_branch`).
-/
import TsoBridge.Proofs.CodePage
import TsoBridge.Proofs.Linkage
import TsoBridge.Proofs.ParmList
import TsoBridge.Capture

namespace TsoBridge

-- ============================================================== addresses

/-- Sums of one address with several displacements. -/
theorem Address.mapM_plus_ok {base : Address} {offsets : List Nat} {addresses : List Address}
    (h : offsets.mapM base.plus = .ok addresses) : addresses = offsets.map base.shift := by
  induction offsets generalizing addresses with
  | nil =>
      cases h
      rfl
  | cons offset rest ih =>
      rw [List.mapM_cons] at h
      obtain ⟨first, hfirst, h⟩ := Outcome.bind_ok h
      obtain ⟨others, hothers, h⟩ := Outcome.bind_ok h
      cases h
      rw [(Address.plus_ok hfirst).2, ih hothers, List.map_cons]

/-- A field of a block is read as it was written. -/
theorem Storage.read_field {storage : Storage} (hwf : storage.WellFormed) {base : Address}
    {bytes data : Bytes} {offset width : Nat} (h : storage.contents base = some bytes)
    (hwidth : data.length = width) (hfit : offset + width ≤ bytes.length)
    (hfound : Field.slice bytes offset data.length = data) :
    storage.read (base.shift offset) width = .ok data := by
  rw [Storage.read_contents hwf h hfit, ← hwidth, hfound]

/-- A word of a block is read from its bytes. -/
theorem Storage.readFull_field {storage : Storage} (hwf : storage.WellFormed) {base : Address}
    {bytes : Bytes} {word : UInt32} {offset : Nat} (h : storage.contents base = some bytes)
    (hfit : offset + 4 ≤ bytes.length)
    (hfound : Field.slice bytes offset (Word.ofFull word).length = Word.ofFull word) :
    storage.readFull (base.shift offset) = .ok word := by
  unfold Storage.readFull
  rw [Storage.read_field hwf h (Word.length_ofFull word) hfit hfound]
  show Except.ok (Word.toFull (Word.ofFull word)) = _
  rw [Word.toFull_ofFull]

/-- A parameter list that was placed. -/
structure ParmList.Placed (parms : ParmList) (storage : Storage) (r1 : Address) : Prop where
  unmarked : ∀ address ∈ parms.leading, ParmList.marked address = false
  last : ParmList.marked parms.last = false
  words : storage.contents r1 = some (ParmList.words parms.leading parms.last)

/-- A service reads the list that was placed for it. -/
theorem ParmList.Placed.decode {parms : ParmList} {storage : Storage} {r1 : Address}
    (h : parms.Placed storage r1) (hwf : storage.WellFormed)
    (hcount : parms.leading.length < ParmList.maxParms) :
    ParmList.decode storage r1 = .ok (parms.leading ++ [parms.last]) := by
  rw [ParmList.decode_words hwf h.unmarked h.last h.words, if_pos hcount]

/-- Placing a list next to a block. -/
theorem ParmList.place_ok {parms : ParmList} {storage after : Storage} {r1 : Address}
    (hwf : storage.WellFormed) (h : parms.place storage = .ok (r1, after)) :
    after.WellFormed ∧ parms.Placed after r1
      ∧ ∀ base bytes, storage.contents base = some bytes → after.contents base = some bytes := by
  obtain ⟨words, hwords, h⟩ := Outcome.bind_ok h
  obtain ⟨hunmarked, hlast, rfl⟩ := ParmList.encode_ok hwords
  obtain ⟨hnew, hnone, hothers⟩ := Storage.obtainWith_contents hwf h
  refine ⟨(Linkage.evolves_obtainWith h).wellFormed hwf, ⟨hunmarked, hlast, hnew⟩, ?_⟩
  intro base bytes hbase
  rw [← hbase]
  refine hothers base fun heq => ?_
  rw [heq, hnone] at hbase
  cases hbase

-- ============================================================ call blocks

namespace CallFlags

/-- Flags are read as they were written. -/
theorem ofBytes_toBytes (flags : CallFlags) : ofBytes flags.toBytes = flags := by
  cases flags with
  | mk authorized dump function => cases authorized <;> cases dump <;> rfl

end CallFlags

namespace CallBlock

/-- A call block stands at `base`, and the list at `r1` points into
it. -/
structure Sent (storage : Storage) (block : CallBlock) (cppl base r1 : Address) : Prop where
  wellFormed : storage.WellFormed
  block : ∃ bytes, block.encode = .ok bytes ∧ storage.contents base = some bytes
  list : ∃ parms, CallBlock.parms base cppl = .ok parms ∧ parms.Placed storage r1

/-- The command processor list a callee gets. -/
def cpplOf (base cppl : Address) : Address :=
  if cppl ≠ 0 then cppl else base.shift cpplAt

/-- The parameters of an execute call, in their order. -/
theorem parms_ok {base cppl : Address} {parms : ParmList}
    (h : CallBlock.parms base cppl = .ok parms) :
    parms.leading
        = [flagsAt, commandAt, lengthAt, rcAt, reasonAt, abendAt, programAt].map base.shift
          ++ [cpplOf base cppl, base.shift tokenAt]
      ∧ parms.last = base.shift outputAt := by
  have hrest : ∀ chosen, (do
      let before ← [flagsAt, commandAt, lengthAt, rcAt, reasonAt, abendAt, programAt].mapM
        base.plus
      let token ← base.plus tokenAt
      return { leading := before ++ [chosen, token], last := ← base.plus outputAt } :
      Outcome ParmList) = .ok parms →
      parms.leading
          = [flagsAt, commandAt, lengthAt, rcAt, reasonAt, abendAt, programAt].map base.shift
            ++ [chosen, base.shift tokenAt]
        ∧ parms.last = base.shift outputAt := by
    intro chosen h
    obtain ⟨before, hbefore, h⟩ := Outcome.bind_ok h
    obtain ⟨token, htoken, h⟩ := Outcome.bind_ok h
    obtain ⟨output, houtput, h⟩ := Outcome.bind_ok h
    cases h
    rw [Address.mapM_plus_ok hbefore, (Address.plus_ok htoken).2, (Address.plus_ok houtput).2]
    exact ⟨rfl, rfl⟩
  unfold CallBlock.parms at h
  unfold cpplOf
  split at h
  · next hne =>
    rw [if_pos hne]
    exact hrest cppl h
  · next hzero =>
    obtain ⟨chosen, hchosen, h⟩ := Outcome.bind_ok h
    rw [if_neg hzero, ← (Address.plus_ok hchosen).2]
    exact hrest chosen h

/-- The command of a block is the text in the code page of the host. -/
theorem make_command {flags : CallFlags} {text : String} {token : Bytes} {block : CallBlock}
    (h : CallBlock.make flags text token = .ok block) :
    block.command = CodePage.encode text := by
  unfold CallBlock.make at h
  split at h
  · cases h
  · split at h
    · cases h
    · cases h
      rfl

/-- A block is as long as its fields and its command. -/
theorem length_encode {block : CallBlock} {bytes : Bytes} (h : block.encode = .ok bytes) :
    bytes.length = commandAt + block.command.length := by
  rw [(Field.writeAll_apart h).1, List.length_replicate]
  rfl

namespace Sent

variable {storage : Storage} {block : CallBlock} {cppl base r1 : Address}

/-- The parameters the callee finds. -/
theorem decode (h : Sent storage block cppl base r1) :
    ParmList.decode storage r1
      = .ok ([flagsAt, commandAt, lengthAt, rcAt, reasonAt, abendAt, programAt].map base.shift
          ++ [cpplOf base cppl, base.shift tokenAt, base.shift outputAt]) := by
  obtain ⟨parms, hparms, hplaced⟩ := h.list
  obtain ⟨hleading, hlast⟩ := parms_ok hparms
  rw [hplaced.decode h.wellFormed (by simp [hleading, ParmList.maxParms]), hleading, hlast]
  rfl

variable (h : Sent storage block cppl base r1)
include h

/-- A field of the block, found where it was written. -/
theorem read_field {after : List (Nat × Bytes)} {offset width : Nat} {data : Bytes}
    (hfields : ∃ before, block.fields = before ++ (offset, data) :: after)
    (hwidth : data.length = width)
    (hfit : offset + width ≤ commandAt + block.command.length)
    (hafter : ∀ field ∈ after,
      offset + data.length ≤ field.1 ∨ field.1 + field.2.length ≤ offset) :
    storage.read (base.shift offset) width = .ok data := by
  obtain ⟨bytes, hencode, hcontents⟩ := h.block
  refine Storage.read_field h.wellFormed hcontents hwidth ?_ ?_
  · rw [length_encode hencode]
    exact hfit
  · unfold CallBlock.encode at hencode
    obtain ⟨before, hbefore⟩ := hfields
    rw [hbefore] at hencode
    exact Field.writeAll_found hencode hafter

/-- What the service finds at its parameters: the flags first. -/
theorem flags : storage.read (base.shift flagsAt) 4 = .ok block.flags.toBytes := by
  refine h.read_field ⟨[], rfl⟩ rfl ?_ ?_
  · unfold flagsAt commandAt
    omega
  · simp [lengthAt, tokenAt, outputAt, commandAt, flagsAt, CallFlags.toBytes]

/-- The length of the command. -/
theorem length :
    storage.readFull (base.shift lengthAt) = .ok (UInt32.ofNat block.command.length)
      ∧ (UInt32.ofNat block.command.length).toNat = block.command.length := by
  obtain ⟨bytes, hencode, hcontents⟩ := h.block
  have hsize := length_encode hencode
  have hread : storage.read (base.shift lengthAt) 4
      = .ok (Word.ofFull (UInt32.ofNat block.command.length)) := by
    refine h.read_field ⟨[(flagsAt, block.flags.toBytes)], rfl⟩ (Word.length_ofFull _) ?_ ?_
    · unfold lengthAt commandAt
      omega
    · simp [lengthAt, tokenAt, outputAt, commandAt]
  constructor
  · unfold Storage.readFull
    rw [hread]
    show Except.ok (Word.toFull _) = _
    rw [Word.toFull_ofFull]
  · have hlt := h.wellFormed.contents_lt hcontents (Nat.le_refl _)
    rw [UInt32.toNat_ofNat']
    omega

/-- The command itself. -/
theorem command :
    storage.read (base.shift commandAt) block.command.length = .ok block.command := by
  refine h.read_field ⟨[_, _, _, _], rfl⟩ rfl (Nat.le_refl _) ?_
  simp

/-- The token that was obtained. -/
theorem token (htoken : block.token.length = tokenSize) :
    storage.read (base.shift tokenAt) tokenSize = .ok block.token := by
  refine h.read_field ⟨[_, _], rfl⟩ htoken ?_ ?_
  · unfold tokenAt tokenSize commandAt
    omega
  · simp [htoken, tokenSize, tokenAt, outputAt, commandAt]

/-- The name of the DD for the output, or blanks. -/
theorem output :
    storage.read (base.shift outputAt) 8
      = .ok (CodePage.encodeField 8 (block.output.getD "")) := by
  refine h.read_field ⟨[_, _, _], rfl⟩ (CodePage.length_encodeField 8 _) ?_ ?_
  · unfold outputAt commandAt
    omega
  · simp [outputAt, commandAt]

end Sent
end CallBlock

-- ============================================================= call areas

namespace ExecArea

/-- The argument table and the texts are written in their own room. -/
theorem writeArguments_apart {base : Address} {arguments : List String} {area out : Bytes}
    {entry text : Nat} (h : writeArguments base area entry text arguments = .ok out) :
    out.length = area.length ∧ ∀ other width,
      other + width ≤ entry ∨ entry + 8 * (arguments.length + 1) ≤ other →
      other + width ≤ text → Field.slice out other width = Field.slice area other width := by
  induction arguments generalizing area entry text with
  | nil =>
      obtain ⟨hlength, hslice⟩ := Field.writeAll_apart h
      refine ⟨hlength, fun other width hother _ => hslice other width ?_⟩
      simp only [List.mem_cons, List.not_mem_nil, or_false, List.length_nil] at hother ⊢
      rintro field (rfl | rfl)
      · simp only [Word.length_ofFull]
        omega
      · simp only [Word.length_ofFull]
        omega
  | cons argument rest ih =>
      unfold writeArguments at h
      obtain ⟨target, _, h⟩ := Outcome.bind_ok h
      obtain ⟨next, hnext, h⟩ := Outcome.bind_ok h
      obtain ⟨hlength, hslice⟩ := Field.writeAll_apart hnext
      obtain ⟨hrestLength, hrestSlice⟩ := ih h
      refine ⟨hrestLength.trans hlength, fun other width hother htext => ?_⟩
      rw [List.length_cons] at hother
      rw [hrestSlice other width (by omega) (by omega)]
      refine hslice other width ?_
      simp only [List.mem_cons, List.not_mem_nil, or_false]
      rintro field (rfl | rfl | rfl)
      · simp only [Word.length_ofFull]
        omega
      · simp only [Word.length_ofFull]
        omega
      · exact .inl htext

/-- The end of a table that was written. -/
theorem writeArguments_nil {base : Address} {area out : Bytes} {entry text : Nat}
    (h : writeArguments base area entry text [] = .ok out) :
    entry + 8 ≤ out.length
      ∧ Field.slice out entry 4 = Word.ofFull argumentEnd
      ∧ Field.slice out (entry + 4) 4 = Word.ofFull argumentEnd := by
  have hfits := Field.writeAll_fits h (entry + 4, Word.ofFull argumentEnd) (by simp)
  rw [Word.length_ofFull] at hfits
  have hfirst : Field.writeAll area ([] ++ (entry, Word.ofFull argumentEnd) :: _) = .ok out := h
  have hsecond : Field.writeAll area
      ([(entry, Word.ofFull argumentEnd)] ++ (entry + 4, Word.ofFull argumentEnd) :: _)
        = .ok out := h
  refine ⟨by omega, ?_, ?_⟩
  · have hfound := Field.writeAll_found hfirst (by simp)
    rwa [Word.length_ofFull] at hfound
  · have hfound := Field.writeAll_found hsecond (by simp)
    rwa [Word.length_ofFull] at hfound

/-- An entry of a table that was written, with its text, and the rest of
the table. -/
theorem writeArguments_cons {base : Address} {argument : String} {rest : List String}
    {area out : Bytes} {entry text : Nat}
    (h : writeArguments base area entry text (argument :: rest) = .ok out)
    (htable : entry + 8 * (rest.length + 2) ≤ text) :
    text + (CodePage.encode argument).length ≤ out.length
      ∧ Field.slice out entry 4 = Word.ofFull (base.shift text)
      ∧ Field.slice out (entry + 4) 4
        = Word.ofFull (UInt32.ofNat (CodePage.encode argument).length)
      ∧ Field.slice out text (CodePage.encode argument).length = CodePage.encode argument
      ∧ ∃ next, writeArguments base next (entry + 8) (text + (CodePage.encode argument).length)
        rest = .ok out := by
  unfold writeArguments at h
  obtain ⟨target, htarget, h⟩ := Outcome.bind_ok h
  obtain ⟨next, hnext, h⟩ := Outcome.bind_ok h
  obtain ⟨hlength, hslice⟩ := writeArguments_apart h
  have hfits := Field.writeAll_fits hnext (text, CodePage.encode argument) (by simp)
  have hpointer : Field.writeAll area ([] ++ (entry, Word.ofFull target) :: _) = .ok next := hnext
  have hsize : Field.writeAll area ([(entry, Word.ofFull target)]
      ++ (entry + 4, Word.ofFull (UInt32.ofNat (CodePage.encode argument).length)) :: _)
        = .ok next := hnext
  have htext : Field.writeAll area ([(entry, Word.ofFull target),
      (entry + 4, Word.ofFull (UInt32.ofNat (CodePage.encode argument).length))]
        ++ (text, CodePage.encode argument) :: []) = .ok next := hnext
  rw [← hlength] at hfits
  refine ⟨hfits, ?_, ?_, ?_, next, h⟩
  · rw [hslice entry 4 (.inl (by omega)) (by omega), ← (Address.plus_ok htarget).2]
    have hfound := Field.writeAll_found hpointer (by simp; omega)
    rwa [Word.length_ofFull] at hfound
  · rw [hslice (entry + 4) 4 (.inl (by omega)) (by omega)]
    have hfound := Field.writeAll_found hsize (by simp; omega)
    rwa [Word.length_ofFull] at hfound
  · rw [hslice text _ (.inr (by omega)) (Nat.le_refl _)]
    exact Field.writeAll_found htext (by simp)

/-- A table with texts that lie in the area is written. -/
theorem writeArguments_within {base : Address} {arguments : List String} {area : Bytes}
    {entry text : Nat} (hentry : entry + 8 * (arguments.length + 1) ≤ area.length)
    (htext : text + (arguments.map String.utf8ByteSize).foldr (· + ·) 0 ≤ area.length)
    (hlimit : base.toNat + area.length ≤ Storage.addressLimit) :
    ∃ out, writeArguments base area entry text arguments = .ok out := by
  unfold Storage.addressLimit at hlimit
  have hindex : area.length < Word.indexLimit := by
    unfold Word.indexLimit
    omega
  induction arguments generalizing area entry text with
  | nil =>
      refine Field.writeAll_within (fun field hfield => ?_) hindex
      simp only [List.mem_cons, List.not_mem_nil, or_false] at hfield
      rw [List.length_nil] at hentry
      rcases hfield with rfl | rfl
      · rw [Word.length_ofFull]
        omega
      · rw [Word.length_ofFull]
        omega
  | cons argument rest ih =>
      -- the room is counted in bytes of the text, the bytes written in characters
      have hbytes : (CodePage.encode argument).length ≤ argument.utf8ByteSize := by
        rw [CodePage.length_encode]
        exact Text.length_le_utf8ByteSize argument
      rw [List.map_cons, List.foldr_cons] at htext
      rw [List.length_cons] at hentry
      have hwritten : ∃ next, Field.writeAll area
          [(entry, Word.ofFull (base.shift text)),
           (entry + 4, Word.ofFull (UInt32.ofNat (CodePage.encode argument).length)),
           (text, CodePage.encode argument)] = .ok next := by
        refine Field.writeAll_within (fun field hfield => ?_) hindex
        simp only [List.mem_cons, List.not_mem_nil, or_false] at hfield
        rcases hfield with rfl | rfl | rfl
        · rw [Word.length_ofFull]
          omega
        · rw [Word.length_ofFull]
          omega
        · dsimp only
          omega
      obtain ⟨next, hnext⟩ := hwritten
      have hlength := (Field.writeAll_apart hnext).1
      rw [← hlength] at hentry htext hlimit hindex
      have hrest : ∃ out, writeArguments base next (entry + 8)
          (text + (CodePage.encode argument).length) rest = .ok out :=
        ih (by omega) (by omega) hlimit hindex
      obtain ⟨out, hout⟩ := hrest
      refine ⟨out, ?_⟩
      unfold writeArguments
      rw [show base.plus text = .ok (base.shift text) from Address.plus_eq (by omega)]
      show (Field.writeAll area _ >>= _) = _
      rw [hnext]
      exact hout

/-- A call area stands at `base`, and the list at `r1` points into it. -/
structure Sent (storage : Storage) (request : ExecRequest) (cppl base r1 : Address) : Prop where
  wellFormed : storage.WellFormed
  area : ∃ bytes, encode request base = .ok bytes ∧ storage.contents base = some bytes
  list : ∃ parms, ExecArea.parms base cppl = .ok parms ∧ parms.Placed storage r1

/-- The parameters of a call of the interpreter, in their order. -/
theorem parms_ok {base cppl : Address} {parms : ParmList}
    (h : ExecArea.parms base cppl = .ok parms) :
    parms.leading = [base.shift execPointer, base.shift argumentPointer, base.shift flags, 0, cppl,
        base.shift evalPointer, 0, 0, 0]
      ∧ parms.last = base.shift rexxRc := by
  unfold ExecArea.parms at h
  obtain ⟨exec, hexec, h⟩ := Outcome.bind_ok h
  obtain ⟨table, htable, h⟩ := Outcome.bind_ok h
  obtain ⟨flags, hflags, h⟩ := Outcome.bind_ok h
  obtain ⟨eval, heval, h⟩ := Outcome.bind_ok h
  obtain ⟨rc, hrc, h⟩ := Outcome.bind_ok h
  cases h
  rw [(Address.plus_ok hexec).2, (Address.plus_ok htable).2, (Address.plus_ok hflags).2,
    (Address.plus_ok heval).2, (Address.plus_ok hrc).2]
  exact ⟨rfl, rfl⟩

/-- The fields in front of the table. -/
def header (request : ExecRequest) (base : Address) : List (Nat × Bytes) :=
  [(execPointer, Word.ofFull (base.shift execBlock)),
   (argumentPointer, Word.ofFull (base.shift arguments)),
   (flags, Word.ofFull externalFunction),
   (evalPointer, Word.ofFull (base.shift evalBlock)),
   (execBlock, CodePage.encode ExecBlock.acronym),
   (execBlock + ExecBlock.length, Word.ofFull (UInt32.ofNat ExecBlock.size)),
   (execBlock + ExecBlock.member, CodePage.encodeField 8 request.member),
   (execBlock + ExecBlock.ddname, CodePage.encodeField 8 request.ddname),
   (execBlock + ExecBlock.subcommand, CodePage.encodeField 8 request.subcommand),
   (evalBlock + EvalBlock.size, Word.ofFull EvalBlock.doublewords)]

/-- The two parts an area is written in: its header, then the table with
the texts. -/
theorem encode_parts {request : ExecRequest} {base : Address} {bytes : Bytes}
    (h : encode request base = .ok bytes) :
    ∃ area, Field.writeAll (List.replicate (size request) 0) (header request base) = .ok area
      ∧ writeArguments base area arguments (arguments + tableSize request) request.arguments
        = .ok bytes := by
  unfold encode at h
  obtain ⟨exec, hexec, h⟩ := Outcome.bind_ok h
  obtain ⟨table, htable, h⟩ := Outcome.bind_ok h
  obtain ⟨eval, heval, h⟩ := Outcome.bind_ok h
  obtain ⟨area, harea, h⟩ := Outcome.bind_ok h
  rw [(Address.plus_ok hexec).2, (Address.plus_ok htable).2, (Address.plus_ok heval).2] at harea
  exact ⟨area, harea, h⟩

theorem length_acronym : (CodePage.encode ExecBlock.acronym).length = 8 := by
  rw [CodePage.length_encode]
  rfl

/-- The fields of the header follow each other. -/
theorem header_ascending (request : ExecRequest) (base : Address) :
    (header request base).Pairwise fun first second => first.1 + first.2.length ≤ second.1 := by
  simp [header, length_acronym, execPointer, argumentPointer, flags, evalPointer, execBlock,
    ExecBlock.length, ExecBlock.member, ExecBlock.ddname, ExecBlock.subcommand, evalBlock,
    EvalBlock.size]

/-- They end in front of the length of the result. -/
theorem header_within (request : ExecRequest) (base : Address) :
    ∀ field ∈ header request base, field.1 + field.2.length ≤ evalBlock + EvalBlock.length := by
  simp [header, length_acronym, execPointer, argumentPointer, flags, evalPointer, execBlock,
    ExecBlock.length, ExecBlock.member, ExecBlock.ddname, ExecBlock.subcommand, evalBlock,
    EvalBlock.size, EvalBlock.length]

/-- A field of the header, found in the area. -/
theorem header_found {request : ExecRequest} {base : Address} {bytes data : Bytes} {offset : Nat}
    (h : encode request base = .ok bytes) (hmem : (offset, data) ∈ header request base) :
    Field.slice bytes offset data.length = data := by
  obtain ⟨area, harea, hbytes⟩ := encode_parts h
  have hend : offset + data.length ≤ arguments :=
    Nat.le_trans (header_within request base _ hmem) (by decide)
  rw [(writeArguments_apart hbytes).2 offset _ (.inl hend) (by omega)]
  exact Field.writeAll_mem harea ((header_ascending request base).imp .inl) hmem

/-- An area is as long as its layout says. -/
theorem length_encode {request : ExecRequest} {base : Address} {bytes : Bytes}
    (h : encode request base = .ok bytes) : bytes.length = size request := by
  obtain ⟨area, harea, hbytes⟩ := encode_parts h
  rw [(writeArguments_apart hbytes).1, (Field.writeAll_apart harea).1, List.length_replicate]

/-- Offsets up to the arguments stay below the limit. -/
theorem plus_within {base : Address} {offset : Nat}
    (h : base.toNat + arguments ≤ Storage.addressLimit) (hoffset : offset ≤ arguments) :
    base.plus offset = .ok (base.shift offset) := by
  unfold Storage.addressLimit at h
  exact Address.plus_eq (by omega)

/-- An area that lies below the limit is written. -/
theorem encode_within {request : ExecRequest} {base : Address}
    (h : base.toNat + size request ≤ Storage.addressLimit) :
    ∃ bytes, encode request base = .ok bytes := by
  have hsize : arguments + tableSize request + textSize request ≤ size request := by
    unfold size
    omega
  have htable : tableSize request = 8 * (request.arguments.length + 1) := Nat.mul_comm _ _
  have hzeros : (List.replicate (size request) (0 : UInt8)).length = size request :=
    List.length_replicate
  have hheader : ∃ area, Field.writeAll (List.replicate (size request) 0) (header request base)
      = .ok area := by
    refine Field.writeAll_within (fun field hfield => ?_) ?_
    · have hend : field.1 + field.2.length ≤ arguments :=
        Nat.le_trans (header_within request base field hfield) (by decide)
      omega
    · rw [hzeros]
      unfold Storage.addressLimit at h
      unfold Word.indexLimit
      omega
  obtain ⟨area, harea⟩ := hheader
  have hlength : area.length = size request := (Field.writeAll_apart harea).1.trans hzeros
  have htexts : arguments + tableSize request
      + (request.arguments.map String.utf8ByteSize).foldr (· + ·) 0 ≤ area.length := by
    rw [hlength]
    exact hsize
  have hentries : arguments + 8 * (request.arguments.length + 1) ≤ area.length := by omega
  have htable : ∃ bytes, writeArguments base area arguments (arguments + tableSize request)
      request.arguments = .ok bytes := writeArguments_within hentries htexts (by rwa [hlength])
  obtain ⟨bytes, hbytes⟩ := htable
  have hbelow : base.toNat + arguments ≤ Storage.addressLimit := by omega
  refine ⟨bytes, ?_⟩
  unfold encode
  rw [plus_within hbelow (show execBlock ≤ arguments by decide),
    plus_within hbelow (Nat.le_refl arguments),
    plus_within hbelow (show evalBlock ≤ arguments by decide)]
  show (Field.writeAll _ (header request base) >>= _) = _
  rw [harea]
  exact hbytes

section Standing

variable {storage : Storage} {request : ExecRequest} {base : Address} {bytes : Bytes}
  (hwf : storage.WellFormed) (hencode : encode request base = .ok bytes)
  (hcontents : storage.contents base = some bytes)
include hwf hencode hcontents

/-- A word of the header stands where it was written. -/
theorem read_header {offset : Nat} {word : UInt32}
    (hmem : (offset, Word.ofFull word) ∈ header request base) :
    storage.readFull (base.shift offset) = .ok word := by
  have hend : offset + (Word.ofFull word).length ≤ arguments :=
    Nat.le_trans (header_within request base _ hmem) (by decide)
  rw [Word.length_ofFull] at hend
  refine Storage.readFull_field hwf hcontents ?_ (header_found hencode hmem)
  rw [length_encode hencode]
  unfold size
  omega

/-- The first parameter points to the exec block. -/
theorem read_execPointer :
    storage.readFull (base.shift execPointer) = .ok (base.shift execBlock) :=
  read_header hwf hencode hcontents (by simp [header])

/-- The second points to the argument table. -/
theorem read_argumentPointer :
    storage.readFull (base.shift argumentPointer) = .ok (base.shift arguments) :=
  read_header hwf hencode hcontents (by simp [header])

/-- The sixth points to the evaluation block. -/
theorem read_evalPointer :
    storage.readFull (base.shift evalPointer) = .ok (base.shift evalBlock) :=
  read_header hwf hencode hcontents (by simp [header])

end Standing

namespace Sent

variable {storage : Storage} {request : ExecRequest} {cppl base r1 : Address}
  (h : Sent storage request cppl base r1)
include h

/-- So the interpreter reads its ten parameters. -/
theorem decode :
    ParmList.decode storage r1
      = .ok [base.shift execPointer, base.shift argumentPointer, base.shift flags, 0, cppl,
        base.shift evalPointer, 0, 0, 0, base.shift rexxRc] := by
  obtain ⟨parms, hparms, hplaced⟩ := h.list
  obtain ⟨hleading, hlast⟩ := parms_ok hparms
  rw [hplaced.decode h.wellFormed (by simp [hleading, ParmList.maxParms]), hleading, hlast]
  rfl

theorem table : storage.readFull (base.shift argumentPointer) = .ok (base.shift arguments) := by
  obtain ⟨bytes, hencode, hcontents⟩ := h.area
  exact read_argumentPointer h.wellFormed hencode hcontents

theorem evalAddress : storage.readFull (base.shift evalPointer) = .ok (base.shift evalBlock) := by
  obtain ⟨bytes, hencode, hcontents⟩ := h.area
  exact read_evalPointer h.wellFormed hencode hcontents

end Sent
end ExecArea

-- ======================================================= up to the branch

variable {H : Type} {α β : Type}

namespace Linkage

/-- What is known of the host and the outcome stands when the frame closes.
-/
theorem ends_framed {x : Op (Linkage H) α} {link : Linkage H}
    {post : Outcome α → Linkage H → Prop}
    (h : x.Ends { link with storage := link.storage.openFrame } fun r t =>
      post r { t with storage := t.storage.closeFrame }) : (framed x).Ends link post :=
  h

/-- A step of the storage, and what follows it; a fault is that of the
step. -/
theorem ends_update_cases {f : Storage → Outcome (α × Storage)} {g : α → Op (Linkage H) β}
    {link : Linkage H} {post : Outcome β → Linkage H → Prop}
    (hfault : ∀ fault, f link.storage = .error fault → post (.error fault) link)
    (hok : ∀ a storage, f link.storage = .ok (a, storage) →
      (g a).Ends { link with storage } post) :
    (onMachine (Machine.onStorage (Op.update f)) >>= g).Ends link post := by
  cases hf : f link.storage with
  | ok pair =>
      obtain ⟨a, storage⟩ := pair
      have hrun : onMachine (Machine.onStorage (Op.update f)) link
          = (.ok a, { link with storage }) := by
        unfold onMachine Machine.onStorage Op.on Op.update
        simp only [hf]
      rw [Op.Ends, Op.run_bind_of_ok hrun]
      exact hok a storage hf
  | error fault =>
      have hrun : onMachine (Machine.onStorage (Op.update f)) link
          = (.error fault, link) := by
        unfold onMachine Machine.onStorage Op.on Op.update
        simp only [hf]
      rw [Op.Ends, Op.run_bind_of_fault hrun]
      exact hfault fault hf

/-- A step of the storage, and what follows it. -/
theorem ends_update_bind {f : Storage → Outcome (α × Storage)} {g : α → Op (Linkage H) β}
    {link : Linkage H} {post : Outcome β → Linkage H → Prop}
    (hfault : ∀ fault, post (.error fault) link)
    (hok : ∀ a storage, f link.storage = .ok (a, storage) →
      (g a).Ends { link with storage } post) :
    (onMachine (Machine.onStorage (Op.update f)) >>= g).Ends link post :=
  ends_update_cases (fun fault _ => hfault fault) hok

end Linkage

/-- A reading of the storage, and what follows it. -/
theorem Linkage.ends_read_bind {address : Address} {length : Nat} {g : Bytes → Op (Linkage H) β}
    {link : Linkage H} {post : Outcome β → Linkage H → Prop}
    (hfault : ∀ fault, post (.error fault) link)
    (hok : ∀ bytes, link.storage.read address length = .ok bytes → (g bytes).Ends link post) :
    (Linkage.read address length >>= g).Ends link post := by
  have hrun : Linkage.read address length link = (link.storage.read address length, link) := rfl
  cases hread : link.storage.read address length with
  | ok bytes =>
      rw [hread] at hrun
      rw [Op.Ends, Op.run_bind_of_ok hrun]
      exact hok bytes hread
  | error fault =>
      rw [hread] at hrun
      rw [Op.Ends, Op.run_bind_of_fault hrun]
      exact hfault fault

/-- A request without an answer that left the host alone. -/
def Unsent (link : Linkage H) (r : Outcome α) (t : Linkage H) : Prop :=
  t.host = link.host ∧ ∀ answer, r ≠ .ok answer

/-- A fault before the call leaves the linkage as it was. -/
theorem unsent_fault (link : Linkage H) (fault : Fault) :
    Unsent link (.error fault : Outcome α) link :=
  ⟨rfl, fun _ h => by cases h⟩

namespace ExecCapture

/-- The steps of a call of the interpreter up to the branch: the area
and the parameter list that points into it. -/
def handOver (capability : Capability) (request : ExecRequest) :
    Op (Linkage H) (Address × Address) := do
  let base ← Linkage.obtain (ExecArea.size request)
  Linkage.write base (← ExecArea.encode request base)
  let parms ← ExecArea.parms base capability.cppl
  let r1 ← Linkage.onMachine (Machine.onStorage (Op.update parms.place))
  return (base, r1)

/-- How handing over an area ends: it did not get as far as its list, or
all of it stands. -/
def HandedOver (capability : Capability) (request : ExecRequest) (link : Linkage H)
    (r : Outcome (Address × Address)) (t : Linkage H) : Prop :=
  (∃ fault, r = .error fault) ∧ t.host = link.host
    ∨ ∃ storage base r1, r = .ok (base, r1) ∧ t = { link with storage }
      ∧ ExecArea.Sent storage request capability.cppl base r1

/-- Handing over ends with an area in storage, or nothing was sent. -/
theorem handOver_ends (capability : Capability) (request : ExecRequest) {link : Linkage H}
    (hwf : link.storage.WellFormed) :
    (handOver capability request).Ends link (HandedOver capability request link) := by
  refine Linkage.ends_update_bind (fun fault => .inl ⟨⟨fault, rfl⟩, rfl⟩) fun base larger hlarger => ?_
  obtain ⟨hzeros, -, -⟩ := Storage.obtain_contents hwf hlarger
  have hlargerwf : larger.WellFormed := Storage.obtain_wellFormed hwf hlarger
  refine Op.ends_lift_bind (fun fault => .inl ⟨⟨fault, rfl⟩, rfl⟩) fun bytes hbytes => ?_
  refine Linkage.ends_update_bind (fun fault => .inl ⟨⟨fault, rfl⟩, rfl⟩) fun _ filled hfilled => ?_
  obtain ⟨written, hwrite, hwritten⟩ := Outcome.bind_ok hfilled
  cases hwritten
  have hlength := ExecArea.length_encode hbytes
  have hfilledwf : filled.WellFormed := Storage.write_wellFormed hlargerwf hwrite
  have hbase : filled.contents base = some bytes := by
    rw [← hlength] at hzeros
    exact (Storage.write_whole hlargerwf hzeros hwrite).1
  refine Op.ends_lift_bind (fun fault => .inl ⟨⟨fault, rfl⟩, rfl⟩) fun parms hparms => ?_
  refine Linkage.ends_update_bind (fun fault => .inl ⟨⟨fault, rfl⟩, rfl⟩) fun r1 placed hplaced => ?_
  obtain ⟨hplacedwf, hlist, hkeep⟩ := ParmList.place_ok hfilledwf hplaced
  exact .inr ⟨placed, base, r1, rfl, rfl, hplacedwf, ⟨bytes, hbytes, hkeep base bytes hbase⟩,
    parms, hparms, hlist⟩

end ExecCapture

variable [Host H]

namespace Invocation

/-- Handing over a call block ends before the branch, or with what the
branch and the block say. -/
theorem sendBlock_branch (entry : EntryPoint) (capability : Capability) (block : CallBlock)
    {link : Linkage H} (hwf : link.storage.WellFormed) :
    (sendBlock entry capability block).Ends link fun r t => Unsent link r t
      ∨ ∃ storage base r1, CallBlock.Sent storage block capability.cppl base r1
        ∧ t.host = (Linkage.branch entry r1 { link with storage }).2.host
        ∧ ∀ r15 result, r = .ok (r15, result) →
          (Linkage.branch entry r1 { link with storage }).1 = .ok r15
          ∧ ∃ bytes, (Linkage.branch entry r1 { link with storage }).2.storage.read base block.size
              = .ok bytes
            ∧ CallBlock.decode bytes = .ok result := by
  refine Linkage.ends_framed ?_
  refine Op.ends_lift_bind (fun fault => .inl (unsent_fault link fault)) fun bytes hbytes => ?_
  refine Linkage.ends_update_bind (fun fault => .inl (unsent_fault link fault))
    fun base filled hfilled => ?_
  obtain ⟨hbase, -, -⟩ :=
    Storage.obtainWith_contents (Storage.openFrame_wellFormed hwf) hfilled
  have hfilledwf : filled.WellFormed :=
    (Linkage.evolves_obtainWith hfilled).wellFormed (Storage.openFrame_wellFormed hwf)
  refine Op.ends_lift_bind (fun fault => .inl (unsent_fault link fault)) fun parms hparms => ?_
  have hcall : (Linkage.call entry parms : Op (Linkage H) Int32).Ends
      { link with storage := filled } fun r t => Unsent link r t
        ∨ ∃ storage r1, CallBlock.Sent storage block capability.cppl base r1
          ∧ Linkage.branch entry r1 { link with storage } = (r, t) := by
    refine Linkage.ends_update_bind (fun fault => .inl (unsent_fault link fault))
      fun r1 placed hplaced => ?_
    obtain ⟨hplacedwf, hlist, hkeep⟩ := ParmList.place_ok hfilledwf hplaced
    exact .inr ⟨placed, r1, ⟨hplacedwf, ⟨bytes, hbytes, hkeep base bytes hbase⟩,
      ⟨parms, hparms, hlist⟩⟩, rfl⟩
  refine hcall.bind (fun r15 t ht => ?_) fun fault t ht => ?_
  · rcases ht with hunsent | ⟨storage, r1, hsent, hbranch⟩
    · exact absurd rfl (hunsent.2 r15)
    · refine Linkage.ends_read_bind (fun fault => ?_) fun bytes hread => ?_
      · refine .inr ⟨storage, base, r1, hsent, by rw [hbranch], fun _ _ h => by cases h⟩
      · refine Op.ends_lift_bind (fun fault => ?_) fun result hresult => ?_
        · refine .inr ⟨storage, base, r1, hsent, by rw [hbranch], fun _ _ h => by cases h⟩
        · have hhost : t.host = (Linkage.branch entry r1 { link with storage }).2.host := by
            rw [hbranch]
          refine .inr ⟨storage, base, r1, hsent, hhost, fun _ _ h => ?_⟩
          cases h
          rw [hbranch]
          exact ⟨rfl, bytes, hread, hresult⟩
  · rcases ht with hunsent | ⟨storage, r1, hsent, hbranch⟩
    · exact .inl ⟨hunsent.1, fun _ h => by cases h⟩
    · exact .inr ⟨storage, base, r1, hsent, by rw [hbranch], fun _ _ h => by cases h⟩

end Invocation

namespace ExecCapture

/-- The branch and the reading of the area after it. -/
def callWith (entry : EntryPoint) (request : ExecRequest) (handed : Address × Address) :
    Op (Linkage H) (Int32 × EvalResult × Int32) := do
  let r15 ← Linkage.branch entry handed.2
  let area ← Linkage.read handed.1 (ExecArea.size request)
  return (r15, ← ExecArea.decodeEval area, ← ExecArea.decodeRc area)

/-- The area is handed over, and then the interpreter is called with
it. -/
theorem callExec_eq (entry : EntryPoint) (capability : Capability) (request : ExecRequest) :
    (callExec entry capability request : Op (Linkage H) (Int32 × EvalResult × Int32))
      = Linkage.framed (handOver capability request >>= callWith entry request) := by
  simp only [callExec, handOver, callWith, Linkage.call, bind_assoc, pure_bind]

/-- The host is touched by the branch alone. -/
theorem callWith_host (entry : EntryPoint) (request : ExecRequest) (handed : Address × Address)
    (link : Linkage H) :
    (callWith entry request handed).Ends link fun _ t =>
      t.host = (Linkage.branch entry handed.2 link).2.host := by
  have hbranch : (Linkage.branch entry handed.2).Ends link fun _ t =>
      t.host = (Linkage.branch entry handed.2 link).2.host := rfl
  refine hbranch.bind (fun r15 t ht => ?_) fun _ _ ht => ht
  refine Linkage.ends_read_bind (fun _ => ht) fun area _ => ?_
  refine Op.ends_lift_bind (fun _ => ht) fun eval _ => ?_
  exact Op.ends_lift_bind (fun _ => ht) fun rc _ => ht

/-- How a call of the interpreter ends: nobody was called, or the module
was with an area that stands. -/
theorem callExec_ends (entry : EntryPoint) (capability : Capability) (request : ExecRequest)
    {link : Linkage H} (hwf : link.storage.WellFormed) :
    (callExec entry capability request).Ends link fun r t =>
      (∃ fault, r = .error fault) ∧ t.host = link.host
        ∨ ∃ storage base r1, ExecArea.Sent storage request capability.cppl base r1
          ∧ r = (callWith entry request (base, r1) { link with storage }).1
          ∧ t.host = (Linkage.branch entry r1 { link with storage }).2.host := by
  rw [callExec_eq]
  refine Linkage.ends_framed ?_
  have hhanded : (handOver capability request).Ends
      { link with storage := link.storage.openFrame } (HandedOver capability request _) :=
    handOver_ends capability request (Storage.openFrame_wellFormed hwf)
  refine hhanded.bind (fun handed t ht => ?_) fun fault t ht => ?_
  · rcases ht with ⟨⟨fault, hfault⟩, -⟩ | ⟨storage, base, r1, hr, rfl, hsent⟩
    · cases hfault
    · cases hr
      exact .inr ⟨storage, base, r1, hsent, rfl, callWith_host entry request (base, r1) _⟩
  · rcases ht with ⟨-, hhost⟩ | ⟨storage, base, r1, hr, -⟩
    · exact .inl ⟨⟨fault, rfl⟩, hhost⟩
    · cases hr

/-- Calling the interpreter ends before the branch, or leaves the host
that the branch left. -/
theorem callExec_branch (entry : EntryPoint) (capability : Capability) (request : ExecRequest)
    {link : Linkage H} (hwf : link.storage.WellFormed) :
    (callExec entry capability request).Ends link fun _ t => t.host = link.host
      ∨ ∃ storage base r1, ExecArea.Sent storage request capability.cppl base r1
        ∧ t.host = (Linkage.branch entry r1 { link with storage }).2.host := by
  refine (callExec_ends entry capability request hwf).mono fun r t h => ?_
  rcases h with ⟨-, hhost⟩ | ⟨storage, base, r1, hsent, -, hhost⟩
  · exact .inl hhost
  · exact .inr ⟨storage, base, r1, hsent, hhost⟩

end ExecCapture
end TsoBridge
