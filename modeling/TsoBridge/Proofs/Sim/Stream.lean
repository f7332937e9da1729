/-
The shared stream of the simulated host, as the host writes it and as the
engine reads it. A line that is appended adds its bytes and a new line
byte; starting the stream anew leaves it empty; nothing else is done to
it. A cursor reads what stands behind its offset, or all of a stream that
is shorter, and then stands at the end (`readNewLines_run`).

A stream made of ended parts, such as whole lines, is read back part by
part: a part is cut where its own bytes end a line, and every piece loses
its trailing filler (`splitStream_ended`).
-/
import TsoBridge.Proofs.Parts
import TsoBridge.Proofs.Sim.Output

namespace TsoBridge

namespace Output

/-- The bytes of lines in a stream. -/
def streamOf (lines : List String) : Bytes :=
  lines.flatMap fun line => CodePage.encode line ++ [CodePage.newLine]

/-- What is read back of lines that went through a stream: each line, cut
where its own bytes end a line, without trailing filler. -/
def streamedBack (lines : List String) : List String :=
  lines.flatMap fun line => (Text.split endsLine (CodePage.encode line)).map shown

theorem streamOf_append (lines rest : List String) :
    streamOf (lines ++ rest) = streamOf lines ++ streamOf rest :=
  List.flatMap_append

/-- Parts, each ended by a new line byte, are cut at their ends and where
their own bytes end a line. -/
theorem split_ended (parts : List Bytes) :
    Text.split endsLine (parts.flatMap fun part => part ++ [CodePage.newLine])
      = parts.flatMap (Text.split endsLine) ++ [[]] := by
  induction parts with
  | nil => rfl
  | cons part rest ih =>
      rw [List.flatMap_cons, List.append_assoc, List.singleton_append,
        Text.split_append_sep _ _ rfl, ih, List.flatMap_cons, List.append_assoc]

/-- A stream of ended parts ends with a line end. -/
theorem ended_last (parts : List Bytes) :
    (((parts.flatMap fun part => part ++ [CodePage.newLine]).getLast?).map endsLine).getD true
      = true := by
  rcases List.eq_nil_or_concat parts with rfl | ⟨front, part, rfl⟩
  · rfl
  · rw [List.concat_eq_append, List.flatMap_append, List.flatMap_singleton, ← List.append_assoc,
      List.getLast?_concat]
    rfl

/-- Ended parts are read back one by one. -/
theorem splitStream_ended (parts : List Bytes) :
    splitStream (parts.flatMap fun part => part ++ [CodePage.newLine])
      = parts.flatMap fun part => (Text.split endsLine part).map shown := by
  unfold splitStream
  simp only [ended_last, if_true, split_ended, List.dropLast_concat, List.map_flatMap]
  have hshown : lineOf = shown := funext fun row => (shown_eq row).symm
  rw [hshown]

/-- Whole lines are read back one by one. -/
theorem splitStream_streamOf (lines : List String) :
    splitStream (streamOf lines) = streamedBack lines := by
  have hparts : streamOf lines
      = (lines.map CodePage.encode).flatMap fun part => part ++ [CodePage.newLine] := by
    rw [List.flatMap_map]
    rfl
  rw [hparts, splitStream_ended, List.flatMap_map]
  rfl

end Output

/-- What a cursor reads: the bytes behind its place, or the whole of a
stream that is shorter. -/
def Cursor.fresh (cursor : Cursor) (bytes : Bytes) : Bytes :=
  if cursor.offset ≤ bytes.length then bytes.drop cursor.offset else bytes

namespace Sim

open Output (streamOf)

variable {host after : SimHost} {ddname : String} {bytes : Bytes}

-- ============================================================== contents

/-- The DD stands for a stream, cataloged under its own name, that holds
`bytes`. -/
def HoldsStream (host : SimHost) (ddname : String) (bytes : Bytes) : Prop :=
  ∃ entry dataset, host.dds.lookup ddname = some entry
    ∧ host.catalog.get? entry.dsname = some dataset
    ∧ dataset.name = Text.upper entry.dsname
    ∧ dataset.body = .stream bytes

namespace HoldsStream

theorem lookup_isSome (h : HoldsStream host ddname bytes) :
    (host.dds.lookup ddname).isSome = true := by
  obtain ⟨entry, -, hlookup, -⟩ := h
  rw [hlookup]
  rfl

/-- A stream depends on DDs and datasets only. -/
theorem of_same (h : HoldsStream host ddname bytes) (hdds : after.dds = host.dds)
    (hcatalog : after.catalog = host.catalog) : HoldsStream after ddname bytes := by
  unfold HoldsStream
  rw [hdds, hcatalog]
  exact h

/-- The stream, as it is opened. -/
theorem opened (h : HoldsStream host ddname bytes) :
    host.openStream ddname = .ok { bytes } := by
  obtain ⟨entry, dataset, hlookup, hget, -, hbody⟩ := h
  unfold SimHost.openStream Dataset.streamBytes
  rw [datasetOf_eq hlookup hget]
  simp only [bind, Except.bind, hbody]
  rfl

/-- A line that is appended adds its bytes and a new line byte. -/
theorem append (h : HoldsStream host ddname bytes) (line : String) :
    ∃ after, host.appendTo ddname line = .ok after
      ∧ HoldsStream after ddname (bytes ++ streamOf [line]) := by
  obtain ⟨entry, dataset, hlookup, hget, hname, hbody⟩ := h
  have hpushed : dataset.push line
      = { dataset with body := .stream (bytes ++ streamOf [line]) } := by
    unfold Dataset.push
    rw [hbody]
    simp [streamOf]
  have happend : dataset.append line
      = .ok { dataset with body := .stream (bytes ++ streamOf [line]) } := by
    unfold Dataset.append
    rw [hbody, hpushed]
  let longer : Dataset := { dataset with body := .stream (bytes ++ streamOf [line]) }
  have hlonger : longer.name = Text.upper entry.dsname := hname
  refine ⟨{ host with catalog := host.catalog.define longer }, ?_, entry, longer, hlookup,
    Catalog.get?_define _ hlonger, hlonger, rfl⟩
  unfold SimHost.appendTo
  rw [datasetOf_eq hlookup hget]
  show (dataset.append line >>= _) = _
  rw [happend]
  rfl

/-- A stream can be started anew. -/
theorem rotates (h : HoldsStream host ddname bytes) :
    ∃ after, host.rotate ddname = .ok after ∧ HoldsStream after ddname [] := by
  obtain ⟨entry, dataset, hlookup, hget, hname, -⟩ := h
  have hdsname : host.dsnameOf ddname = .ok entry.dsname := by
    unfold SimHost.dsnameOf
    rw [hlookup]
  let empty : Dataset := { dataset with body := .stream [] }
  have hempty : empty.name = Text.upper entry.dsname := hname
  refine ⟨{ host with catalog := host.catalog.define empty }, ?_, entry, empty, hlookup,
    Catalog.get?_define _ hempty, hempty, rfl⟩
  unfold SimHost.rotate
  rw [hdsname]
  simp only [bind, Except.bind, hget]
  rfl

/-- A stream that is started anew is empty. -/
theorem rotate (h : HoldsStream host ddname bytes) (hrotate : host.rotate ddname = .ok after) :
    HoldsStream after ddname [] := by
  obtain ⟨other, hother, hempty⟩ := h.rotates
  cases hother.symm.trans hrotate
  exact hempty

end HoldsStream

/-- Lines that are appended add their bytes, in order. -/
theorem appendLines_run (lines : List String) {m : Machine SimHost}
    (h : HoldsStream m.host ddname bytes) :
    ∃ t, Service.appendLines ddname lines m = (.ok (), t) ∧ t.storage = m.storage
      ∧ HoldsStream t.host ddname (bytes ++ streamOf lines) := by
  induction lines generalizing m bytes with
  | nil =>
      refine ⟨m, rfl, rfl, ?_⟩
      rw [show streamOf [] = [] from rfl, List.append_nil]
      exact h
  | cons line rest ih =>
      obtain ⟨longer, happend, hlonger⟩ := h.append line
      obtain ⟨t, hrest, hstorage, hholds⟩ := ih (m := { m with host := longer }) hlonger
      have hline : Machine.onHost (Op.update fun host : SimHost => do
          return ((), ← host.appendTo ddname line)) m = (.ok (), { m with host := longer }) := by
        unfold Machine.onHost Op.on Op.update
        simp only [happend]
        rfl
      refine ⟨t, ?_, hstorage, ?_⟩
      · unfold Service.appendLines
        rw [Op.run_bind_of_ok hline]
        exact hrest
      · rw [← List.singleton_append, Output.streamOf_append, ← List.append_assoc]
        exact hholds

-- =============================================================== cursors

variable {link : Linkage SimHost} {cursor : Cursor}

theorem openStream_run (h : HoldsStream link.host ddname bytes) :
    Output.openStream ddname link = (.ok { bytes }, link) := by
  have hopen : Host.openStream link.host ddname = (.ok { bytes }, link.host) :=
    Prod.ext h.opened rfl
  unfold Output.openStream
  rw [hopen]
  rfl

/-- The end of the stream is taken as the place of the cursor. -/
theorem syncToEnd_run (h : HoldsStream link.host ddname bytes) :
    Cursor.syncToEnd ddname (link, cursor)
      = (.ok (), (link, { offset := bytes.length, synced := true })) := by
  unfold Cursor.syncToEnd
  rw [Op.run_bind_of_ok (Op.run_onFirst (openStream_run h))]
  rfl

theorem readFrom_run (h : HoldsStream link.host ddname bytes) (skip : Nat) :
    Cursor.readFrom ddname skip link
      = (.ok (if skip ≤ bytes.length then some (bytes.drop skip) else none), link) := by
  unfold Cursor.readFrom
  rw [Op.run_bind_of_ok (openStream_run h)]
  by_cases hskip : skip ≤ bytes.length
  · simp only [if_pos hskip]
    rfl
  · simp only [if_neg hskip]
    rfl

/-- A reading returns the lines of what is fresh and leaves the cursor at
the end. -/
theorem readNewLines_run (h : HoldsStream link.host ddname bytes) :
    Cursor.readNewLines ddname (link, cursor)
      = (.ok (Output.splitStream (cursor.fresh bytes)),
        (link, { offset := bytes.length, synced := true })) := by
  unfold Cursor.readNewLines Cursor.fresh
  by_cases hskip : cursor.offset ≤ bytes.length
  · have hread : Cursor.readFrom ddname cursor.offset link
        = (.ok (some (bytes.drop cursor.offset)), link) := by
      rw [readFrom_run h, if_pos hskip]
    have hend : cursor.offset + (bytes.drop cursor.offset).length = bytes.length := by
      rw [List.length_drop]
      omega
    rw [if_pos hskip, ← hend]
    show (Op.onFirst (Cursor.readFrom ddname cursor.offset) >>= _) (link, cursor) = _
    rw [Op.run_bind_of_ok (Op.run_onFirst hread)]
    rfl
  · have hread : Cursor.readFrom ddname cursor.offset link = (.ok none, link) := by
      rw [readFrom_run h, if_neg hskip]
    have hagain : Cursor.readFrom ddname 0 link = (.ok (some bytes), link) := by
      rw [readFrom_run h, if_pos (Nat.zero_le _), List.drop_zero]
    rw [if_neg hskip]
    show (Op.onFirst (Cursor.readFrom ddname cursor.offset) >>= _) (link, cursor) = _
    rw [Op.run_bind_of_ok (Op.run_onFirst hread)]
    show (Op.onFirst (Cursor.readFrom ddname 0) >>= _) (link, cursor.reset) = _
    rw [Op.run_bind_of_ok (Op.run_onFirst hagain),
      ← Nat.zero_add bytes.length]
    rfl

end Sim
end TsoBridge
