/-
Reading an output DD, seen from what was put into it: no line is lost
between the records and the reader, and none is read twice.

# By record and as a stream

A dataset of records is read by record where the host offers that, and as
the stream of its records where not. Both drop the same filler, so they
differ only in where they cut: a record is one line, while the stream is
cut at every line end, also at those within a record. A record with `n`
line ends among its bytes gives `n + 1` lines (`Text.length_split`), so
counting the lines tells whether there are any (`reads_agree_iff`).

# From a cursor

A stream that texts are appended to is cut at the end of each text, since
a new line byte goes behind it. A cursor that stands at the end of the
stream stands behind such a byte, and everything appended from there on is
read back text by text. So between any two readings the cursor stands at
the end and what is yet to be read are the texts appended since
(`readings_of_uses`), whatever order appending and reading come in.
-/
import TsoBridge.Proofs.Sim.Orderly
import TsoBridge.Proofs.Substitute

namespace TsoBridge

namespace Output

theorem endsLine_iff {byte : UInt8} : endsLine byte = true ↔ byte = 0x15 ∨ byte = 0x25 := by
  simp [endsLine, CodePage.newLine, CodePage.lineFeed]

/-- No byte of a row ends a line. -/
theorem unended_iff {row : Bytes} :
    (∀ byte ∈ row, endsLine byte = false) ↔ 0x15 ∉ row ∧ 0x25 ∉ row := by
  constructor
  · intro hfree
    constructor
    · exact fun hmem => Bool.false_ne_true ((hfree _ hmem).symm.trans rfl)
    · exact fun hmem => Bool.false_ne_true ((hfree _ hmem).symm.trans rfl)
  · rintro ⟨hnew, hfeed⟩ byte hmem
    apply Bool.eq_false_iff.mpr
    intro hends
    rcases endsLine_iff.mp hends with rfl | rfl
    · exact hnew hmem
    · exact hfeed hmem

/-- The lines of a stream of rows: one for each row and each line end
within a row. -/
theorem length_splitRows (rows : List Bytes) :
    (rows.flatMap fun row => (Text.split endsLine row).map shown).length
      = rows.length + (rows.map (List.countP endsLine)).sum := by
  induction rows with
  | nil => rfl
  | cons row rest ih =>
      rw [List.flatMap_cons, List.length_append, ih, List.length_map, Text.length_split,
        List.map_cons, List.sum_cons, List.length_cons]
      omega

/-- Rows are the lines of their stream just where none has a line end
within. -/
theorem rows_eq_splitRows_iff (rows : List Bytes) :
    rows.map lineOf = (rows.flatMap fun row => (Text.split endsLine row).map shown)
      ↔ ∀ row ∈ rows, 0x15 ∉ row ∧ 0x25 ∉ row := by
  constructor
  · intro heq row hrow
    have hlength := congrArg List.length heq
    rw [List.length_map, length_splitRows] at hlength
    have hsum : (rows.map (List.countP endsLine)).sum = 0 := by omega
    have hnone := List.sum_eq_zero_iff_forall_eq_nat.mp hsum _ (List.mem_map_of_mem hrow)
    apply unended_iff.mp
    intro byte hbyte
    exact Bool.eq_false_iff.mpr (List.countP_eq_zero.mp hnone byte hbyte)
  · intro hfree
    rw [← List.flatMap_pure_eq_map]
    refine List.flatMap_congr fun row hrow => ?_
    rw [Text.split_of_free (unended_iff.mpr (hfree row hrow)), List.map_singleton, shown_eq]
    rfl

end Output

namespace Sim

open Output (shown streamOf)

-- =============================================================== records

/-- A linkage whose host offers its DDs by record, or does not. -/
def offering (link : Linkage SimHost) (recordAccess : Bool) : Linkage SimHost :=
  { link with host := { link.host with recordAccess } }

/-- A dataset of records reads the same by record and as a stream, just
where no record has a new line or a line feed byte. -/
theorem reads_agree_iff {link : Linkage SimHost} {ddname : String} {dataset : Dataset}
    {lrecl : Nat} {records : List Bytes} (hdataset : link.host.datasetOf ddname = .ok dataset)
    (hbody : dataset.body = .records lrecl records) :
    ∃ byRecord byStream,
      Output.readLines ddname (offering link true) = (.ok byRecord, offering link true)
      ∧ Output.readLines ddname (offering link false) = (.ok byStream, offering link false)
      ∧ (byRecord = byStream ↔ ∀ record ∈ records, 0x15 ∉ record ∧ 0x25 ∉ record) := by
  have hread : ∀ offered, Output.readLines ddname (offering link offered)
      = (.ok (if offered then records.map Output.lineOf
          else Output.splitStream (streamedRecords records)), offering link offered) :=
    fun offered => readLines_records (offering link offered) hdataset hbody
  refine ⟨_, _, hread true, hread false, ?_⟩
  rw [if_pos rfl, if_neg Bool.false_ne_true, streamedRecords, Output.splitStream_ended]
  exact Output.rows_eq_splitRows_iff records

/-- Three lines of a dataset, one of them empty. -/
theorem reads_agree_three_lines :
    let entry : DdEntry :=
      { ddname := "IN", dsname := "IBMUSER.IN", status := .shr, temporary := false }
    let built := SimHost.build { datasets := [("IBMUSER.IN", ["FIRST", "", "THIRD"])] } noon
    let host := { built with dds := built.dds.enter entry }
    let dataset := SimHost.textDataset "IBMUSER.IN" ["FIRST", "", "THIRD"]
    let records := ["FIRST", "", "THIRD"].map fun line => CodePage.fill 80 (CodePage.encode line)
    let link : Linkage SimHost := { host, storage := {} }
    host.datasetOf "IN" = .ok dataset ∧ dataset.body = .records 80 records
      ∧ ∃ lines, Output.readLines "IN" (offering link true) = (.ok lines, offering link true)
        ∧ Output.readLines "IN" (offering link false) = (.ok lines, offering link false) := by
  intro entry built host dataset records link
  have hdataset : link.host.datasetOf "IN" = .ok dataset := by decide +kernel
  have hbody : dataset.body = .records 80 records := by decide +kernel
  have hfree : ∀ record ∈ records, 0x15 ∉ record ∧ 0x25 ∉ record := by decide +kernel
  obtain ⟨byRecord, byStream, htrue, hfalse, hagree⟩ :=
    reads_agree_iff hdataset hbody
  refine ⟨hdataset, hbody, byRecord, htrue, ?_⟩
  rw [hagree.mpr hfree]
  exact hfalse

-- ================================================================ cursors

/-- What is done with a shared stream: a text is appended to it from the
outside, or what is new is read. -/
inductive StreamUse where
  | append (text : String)
  | read
deriving DecidableEq

/-- What a reading returned, and the host and the cursor it left. -/
structure Reading where
  lines : List String
  host : SimHost
  cursor : Cursor

/-- Uses the stream behind a DD; the value is what was read. -/
def useStream (ddname : String) : List StreamUse → Op (Linkage SimHost × Cursor) (List Reading)
  | [] => return []
  | .append text :: rest => do
    Op.onFirst (Linkage.onMachine (Machine.onHost
      (Op.update fun host : SimHost => do return ((), ← host.appendTo ddname text))))
    useStream ddname rest
  | .read :: rest => do
    let lines ← Cursor.readNewLines ddname
    let (link, cursor) ← Op.get
    return { lines, host := link.host, cursor } :: (← useStream ddname rest)

namespace StreamUse

/-- The text that is appended. -/
def text? : StreamUse → Option String
  | .append text => some text
  | .read => none

/-- The texts appended before each reading: behind the reading before it,
and `pending` before the first. -/
def batchesFrom (pending : List String) : List StreamUse → List (List String)
  | [] => []
  | .append text :: rest => batchesFrom (pending ++ [text]) rest
  | .read :: rest => pending :: batchesFrom [] rest

/-- The texts appended before each reading. -/
def batches (uses : List StreamUse) : List (List String) :=
  batchesFrom [] uses

/-- The texts appended before the last reading. -/
def textsRead (uses : List StreamUse) : List String :=
  (uses.rdropWhile (· ≠ .read)).filterMap text?

/-- The pieces of a text: its bytes cut at line ends, each without its
trailing filler. -/
def pieces (text : String) : List String :=
  ((CodePage.encode text).splitOnP fun byte => byte = 0x15 ∨ byte = 0x25).map shown

end StreamUse

open StreamUse

theorem streamedBack_eq (texts : List String) :
    Output.streamedBack texts = texts.flatMap pieces := by
  have hends : Output.endsLine = fun byte => decide (byte = 0x15 ∨ byte = 0x25) := by
    funext byte
    apply Bool.eq_iff_iff.mpr
    rw [Output.endsLine_iff, decide_eq_true_eq]
  unfold Output.streamedBack pieces
  refine List.flatMap_congr fun text _ => ?_
  rw [Text.split_eq_splitOnP, hends]

/-- What stands before a use is dropped with it only if there is no
reading behind. -/
theorem textsRead_cons (use : StreamUse) {rest : List StreamUse} (h : .read ∈ rest) :
    textsRead (use :: rest) = (text? use).toList ++ textsRead rest := by
  have hsome : rest.reverse.dropWhile (· ≠ .read) ≠ [] := by
    intro hnone
    have hall := List.dropWhile_eq_nil_iff.mp hnone .read (List.mem_reverse.mpr h)
    simp at hall
  unfold textsRead List.rdropWhile
  rw [List.reverse_cons, List.dropWhile_append, if_neg (by simpa using hsome),
    List.reverse_append, List.reverse_singleton, List.singleton_append]
  cases use with
  | append text => rfl
  | read => rfl

theorem textsRead_of_not_mem {uses : List StreamUse} (h : .read ∉ uses) : textsRead uses = [] := by
  have hnone : uses.rdropWhile (· ≠ .read) = [] := by
    apply List.rdropWhile_eq_nil_iff.mpr
    intro use huse
    apply decide_eq_true
    rintro rfl
    exact h huse
  unfold textsRead
  rw [hnone]
  rfl

/-- The batches are the texts before the last reading, in order. -/
theorem flatten_batchesFrom (pending : List String) (uses : List StreamUse) :
    (batchesFrom pending uses).flatten
      = if .read ∈ uses then pending ++ textsRead uses else [] := by
  induction uses generalizing pending with
  | nil => rfl
  | cons use rest ih =>
      cases use with
      | append text =>
          rw [batchesFrom, ih]
          by_cases hread : .read ∈ rest
          · rw [if_pos hread, if_pos (List.mem_cons_of_mem _ hread), textsRead_cons _ hread,
              List.append_assoc]
            rfl
          · rw [if_neg hread, if_neg]
            simpa using hread
      | read =>
          rw [batchesFrom, List.flatten_cons, ih, if_pos List.mem_cons_self]
          by_cases hread : .read ∈ rest
          · rw [if_pos hread, textsRead_cons _ hread]
            rfl
          · have hlast : (StreamUse.read :: rest).rdropWhile (· ≠ .read) = [.read] := by
              unfold List.rdropWhile
              rw [List.reverse_cons, List.dropWhile_append, if_pos]
              · rfl
              · rw [List.isEmpty_iff, List.dropWhile_eq_nil_iff]
                intro use huse
                apply decide_eq_true
                rintro rfl
                exact hread (List.mem_reverse.mp huse)
            rw [if_neg hread, textsRead, hlast]
            rfl

theorem flatten_batches (uses : List StreamUse) : (batches uses).flatten = textsRead uses := by
  unfold batches
  rw [flatten_batchesFrom]
  by_cases hread : .read ∈ uses
  · rw [if_pos hread, List.nil_append]
  · rw [if_neg hread, textsRead_of_not_mem hread]

variable {link : Linkage SimHost} {cursor : Cursor} {ddname : String} {bytes : Bytes}

theorem append_run (cursor : Cursor) (h : HoldsStream link.host ddname bytes) (text : String) :
    ∃ after : Linkage SimHost, HoldsStream after.host ddname (bytes ++ streamOf [text])
      ∧ (Op.onFirst (Linkage.onMachine (Machine.onHost
          (Op.update fun host : SimHost => do return ((), ← host.appendTo ddname text)))) :
          Op (Linkage SimHost × Cursor) Unit) (link, cursor) = (.ok (), (after, cursor)) := by
  obtain ⟨longer, happend, hholds⟩ := h.append text
  refine ⟨{ link with host := longer }, hholds, ?_⟩
  unfold Op.onFirst Linkage.onMachine Machine.onHost Op.on Op.update
  simp only [happend]
  rfl

/-- Where the cursor has all of the stream behind it but the texts that
are pending, each reading returns the texts appended since the one
before. -/
theorem useStream_run (uses : List StreamUse) {pending : List String}
    (h : HoldsStream link.host ddname (bytes ++ streamOf pending))
    (hcursor : cursor.offset = bytes.length) :
    ∃ readings after, useStream ddname uses (link, cursor) = (.ok readings, after)
      ∧ readings.map Reading.lines = (batchesFrom pending uses).map Output.streamedBack
      ∧ ∀ reading ∈ readings, ∃ held,
        HoldsStream reading.host ddname held ∧ reading.cursor.offset = held.length := by
  induction uses generalizing link cursor bytes pending with
  | nil =>
      refine ⟨[], (link, cursor), rfl, rfl, ?_⟩
      intro reading hmem
      cases hmem
  | cons use rest ih =>
      cases use with
      | append text =>
          obtain ⟨longer, hlonger, hrun⟩ := append_run cursor h text
          rw [List.append_assoc, ← Output.streamOf_append] at hlonger
          obtain ⟨readings, after, hrest, hlines, hplaces⟩ := ih hlonger hcursor
          refine ⟨readings, after, ?_, hlines, hplaces⟩
          unfold useStream
          rw [Op.run_bind_of_ok hrun]
          exact hrest
      | read =>
          have hfresh : cursor.fresh (bytes ++ streamOf pending) = streamOf pending := by
            unfold Cursor.fresh
            rw [hcursor, if_pos (by simp), List.drop_left]
          have hrun : Cursor.readNewLines ddname (link, cursor) = _ := readNewLines_run h
          rw [hfresh, Output.splitStream_streamOf] at hrun
          have hnone : HoldsStream link.host ddname
              ((bytes ++ streamOf pending) ++ streamOf []) := by
            rw [show streamOf [] = [] from rfl, List.append_nil]
            exact h
          have hend : (Cursor.mk (bytes ++ streamOf pending).length true).offset
              = (bytes ++ streamOf pending).length := rfl
          obtain ⟨readings, after, hrest, hlines, hplaces⟩ := ih hnone hend
          let reading : Reading :=
            { lines := Output.streamedBack pending, host := link.host
              cursor := { offset := (bytes ++ streamOf pending).length, synced := true } }
          refine ⟨reading :: readings, after, ?_, ?_, ?_⟩
          · unfold useStream
            rw [Op.run_bind_of_ok hrun]
            show (useStream ddname rest >>= _) _ = _
            rw [Op.run_bind_of_ok hrest]
            rfl
          · rw [List.map_cons, hlines]
            rfl
          · intro other hmem
            rcases List.mem_cons.mp hmem with rfl | hmem
            · exact ⟨_, h, rfl⟩
            · exact hplaces other hmem

/-- A stream of a host there can be is filed under its name. -/
theorem SimHost.Made.holdsStream {host : SimHost} {dataset : Dataset} {held : Bytes}
    (hmade : host.Made) (hdataset : host.datasetOf ddname = .ok dataset)
    (hbody : dataset.body = .stream held) : HoldsStream host ddname held := by
  obtain ⟨entry, hlookup, hget⟩ := datasetOf_ok hdataset
  exact ⟨entry, dataset, hlookup, hget, hmade.orderly.filed _ _ hget, hbody⟩

/-- A cursor that was just taken to the end of a stream, or a new one for
an empty stream. -/
def Placed (ddname : String) (link : Linkage SimHost) (cursor : Cursor) (held : Bytes) : Prop :=
  (∃ before earlier, Cursor.syncToEnd ddname (before, earlier) = (.ok (), (link, cursor)))
    ∨ cursor = {} ∧ held = []

/-- A cursor that is placed stands at the end. -/
theorem Placed.offset {held : Bytes} (h : Placed ddname link cursor held)
    (hholds : HoldsStream link.host ddname held) : cursor.offset = held.length := by
  rcases h with ⟨before, earlier, hsync⟩ | ⟨rfl, rfl⟩
  · -- looking at a stream leaves the host as it is
    have hsame : before = link := by
      unfold Cursor.syncToEnd at hsync
      obtain ⟨source, u, hopen, hrest⟩ := Op.bind_ok hsync
      obtain ⟨read, v, hdrain, hmove⟩ := Op.bind_ok hrest
      have hopened : before = u.1 := congrArg Prod.snd (Op.onFirst_ok hopen).1
      have hdrained : v = u := (Op.lift_except_ok hdrain).2
      have hmoved : v.1 = link := congrArg (fun s => (Prod.snd s).1) hmove
      rw [hopened, ← hdrained, hmoved]
    subst hsame
    rw [syncToEnd_run hholds] at hsync
    exact (congrArg (fun s => (Prod.snd s).2.offset) hsync).symm
  · rfl

/-- From a cursor at the end of a stream, readings between which texts are
appended lose nothing and repeat nothing: each returns the texts appended
since the one before, and stands at the end again. -/
theorem readings_of_uses {dataset : Dataset} {held : Bytes} (hmade : link.host.Made)
    (hdataset : link.host.datasetOf ddname = .ok dataset) (hbody : dataset.body = .stream held)
    (hplaced : Placed ddname link cursor held) (uses : List StreamUse) :
    cursor.offset = held.length
      ∧ ∃ readings after, useStream ddname uses (link, cursor) = (.ok readings, after)
        ∧ readings.map Reading.lines = (batches uses).map (List.flatMap pieces)
        ∧ readings.flatMap Reading.lines = (textsRead uses).flatMap pieces
        ∧ ∀ reading ∈ readings, ∃ bytes,
          reading.host.openStream ddname = .ok { bytes } ∧ reading.cursor.offset = bytes.length := by
  have hholds := hmade.holdsStream hdataset hbody
  have hoffset := hplaced.offset hholds
  have hstart : HoldsStream link.host ddname (held ++ streamOf []) := by
    rw [show streamOf [] = [] from rfl, List.append_nil]
    exact hholds
  obtain ⟨readings, after, hrun, hlines, hplaces⟩ := useStream_run uses hstart hoffset
  have hbatches : readings.map Reading.lines
      = (batches uses).map (List.flatMap pieces) := by
    rw [hlines]
    exact List.map_congr_left fun texts _ => streamedBack_eq texts
  refine ⟨hoffset, readings, after, hrun, hbatches, ?_, ?_⟩
  · rw [List.flatMap_def, hbatches, ← List.flatMap_def, ← flatten_batches,
      List.flatten_eq_flatMap, List.flatMap_assoc]
    rfl
  · intro reading hmem
    obtain ⟨bytes, hbytes, hend⟩ := hplaces reading hmem
    exact ⟨bytes, hbytes.opened, hend⟩

/-- Three readings of a stream that was not empty; what is appended last
is not read yet. -/
theorem readings_of_uses_behind_old_line :
    let uses : List StreamUse :=
      [.append "NEW 1", .read, .append "NEW 2", .append "", .read, .read, .append "LATE"]
    ∃ (link : Linkage SimHost) (dataset : Dataset) (held : Bytes) (cursor : Cursor),
      (SimHost.build {} noon).appendTo "TSOOUT" "OLD LINE" = .ok link.host
      ∧ link.host.Made ∧ link.host.datasetOf "TSOOUT" = .ok dataset
      ∧ dataset.body = .stream held ∧ Placed "TSOOUT" link cursor held
      ∧ ∃ readings after, useStream "TSOOUT" uses (link, cursor) = (.ok readings, after)
        ∧ readings.map Reading.lines = [["NEW 1"], ["NEW 2", ""], []]
        ∧ readings.flatMap Reading.lines = ["NEW 1", "NEW 2", ""] := by
  intro uses
  obtain ⟨host, happend, hholds⟩ := build_holdsStream.append "OLD LINE"
  obtain ⟨entry, dataset, hlookup, hget, -, hbody⟩ := id hholds
  let link : Linkage SimHost := { host, storage := {} }
  have hmade : link.host.Made := .touch (.build {} noon) (.append happend)
  have hdataset : link.host.datasetOf "TSOOUT" = .ok dataset := datasetOf_eq hlookup hget
  let held := [] ++ streamOf ["OLD LINE"]
  let cursor : Cursor := { offset := held.length, synced := true }
  have hsynced : Cursor.syncToEnd "TSOOUT" (link, {}) = (.ok (), (link, cursor)) :=
    syncToEnd_run hholds
  have hplaced : Placed "TSOOUT" link cursor held := .inl ⟨link, {}, hsynced⟩
  obtain ⟨-, readings, after, hrun, hlines, hall, -⟩ :=
    readings_of_uses hmade hdataset hbody hplaced uses
  refine ⟨link, dataset, held, cursor, happend, hmade, hdataset, hbody, hplaced, readings, after,
    hrun, hlines.trans ?_, hall.trans ?_⟩
  · decide +kernel
  · decide +kernel

end Sim
end TsoBridge
