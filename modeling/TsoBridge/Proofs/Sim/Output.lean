/-
The output of a command on its way through a private DD: the records its
lines become, the codes it leaves in the call block, and the lines the
engine reads back. A line is cut at every multiple of the record length
(`rows`); each row is filled with blanks to a record, and the reader drops
the fill again together with the filler the row itself ends in, so of a
row only its trailing filler is lost (`lineOf_fill`).
-/
import Mathlib.Data.List.DropRight
import TsoBridge.Proofs.Sim.Allocation
import TsoBridge.Proofs.Sim.Received

namespace TsoBridge

-- ================================================================== rows

namespace Output

/-- The rows of a line: its bytes cut at every multiple of `width`, one
empty row for an empty line. -/
def rows (width : Nat) (bytes : Bytes) : List Bytes :=
  (List.range (max 1 ((bytes.length + width - 1) / width))).map fun i =>
    (bytes.drop (i * width)).take width

/-- The bytes a line does not end in: blank, NUL, carriage return, new
line and line feed. -/
def filler : List UInt8 :=
  [0x40, 0x00, 0x0D, 0x15, 0x25]

/-- A row without its trailing filler, as text. -/
def shown (row : Bytes) : String :=
  CodePage.decode (row.rdropWhile fun byte => byte ∈ filler)

/-- What is read back of the lines of a command, from records of
`width`. -/
def readBack (width : Nat) (lines : List String) : List String :=
  lines.flatMap fun line => (rows width (CodePage.encode line)).map shown

theorem isFiller_eq : isFiller = fun byte => decide (byte ∈ filler) := by
  funext byte
  apply Bool.eq_iff_iff.mpr
  simp [isFiller, filler, CodePage.space, CodePage.carriageReturn, CodePage.newLine,
    CodePage.lineFeed, or_assoc]

theorem shown_eq (row : Bytes) : shown row = lineOf row := by
  unfold shown lineOf trimRecord
  rw [isFiller_eq]
  rfl

/-- The blanks that fill a record are no part of its line. -/
theorem lineOf_fill (width : Nat) (row : Bytes) :
    lineOf (CodePage.fill width row) = lineOf row := by
  unfold lineOf trimRecord CodePage.chopTail CodePage.fill
  rw [List.reverse_append, List.reverse_replicate, List.dropWhile_append_of_pos]
  intro byte hbyte
  rw [List.eq_of_mem_replicate hbyte]
  rfl

end Output

namespace Sim

open Output (rows)

namespace Dataset

/-- The number of rows goes down by one with each row cut off. -/
theorem rowCount_cons {width length : Nat} (hwidth : 0 < width) (hlength : 0 < length) :
    (length + width - 1) / width = (length - width + width - 1) / width + 1 := by
  rcases Nat.lt_or_ge width length with hlong | hshort
  · have hsum : length + width - 1 = (length - width + width - 1) + width := by omega
    rw [hsum, Nat.add_div_right _ hwidth]
  · have hfirst : (length + width - 1) / width = 1 :=
      Nat.div_eq_of_lt_le (by omega) (by omega)
    have hrest : (length - width + width - 1) / width = 0 := Nat.div_eq_of_lt (by omega)
    rw [hfirst, hrest]

/-- Pieces are cut at multiples of the width. -/
theorem piecesWithin_eq {width fuel : Nat} (hwidth : 0 < width) {bytes : Bytes}
    (hfuel : bytes.length ≤ fuel) :
    piecesWithin width fuel bytes
      = (List.range ((bytes.length + width - 1) / width)).map fun i =>
        (bytes.drop (i * width)).take width := by
  induction fuel generalizing bytes with
  | zero =>
      have hempty : bytes = [] := List.length_eq_zero_iff.mp (by omega)
      rw [hempty, show ([] : Bytes).length + width - 1 = width - 1 by simp,
        Nat.div_eq_of_lt (by omega)]
      rfl
  | succ fuel ih =>
      cases bytes with
      | nil =>
          rw [show ([] : Bytes).length + width - 1 = width - 1 by simp,
            Nat.div_eq_of_lt (by omega)]
          rfl
      | cons byte rest =>
          have hrest : ((byte :: rest).drop width).length ≤ fuel := by
            rw [List.length_drop, List.length_cons] at *
            omega
          have hcount := rowCount_cons hwidth (show 0 < (byte :: rest).length by simp)
          unfold piecesWithin
          rw [ih hrest, hcount, List.range_succ_eq_map, List.map_cons, List.map_map,
            List.length_drop]
          congr 1
          · simp
          · refine List.map_congr_left fun i _ => ?_
            rw [Function.comp_apply, List.drop_drop, Nat.succ_mul, Nat.add_comm]

/-- The records of a line are its rows, filled with blanks. -/
theorem recordsOf_eq {width : Nat} (hwidth : 0 < width) (bytes : Bytes) :
    recordsOf width bytes = (rows width bytes).map (CodePage.fill width) := by
  unfold recordsOf rows
  cases bytes with
  | nil =>
      have hcount : ([] : Bytes).length + width - 1 = width - 1 := by simp
      rw [hcount, Nat.div_eq_of_lt (by omega)]
      simp
  | cons byte rest =>
      have hcount := rowCount_cons hwidth (show 0 < (byte :: rest).length by simp)
      have hpositive : 1 ≤ ((byte :: rest).length + width - 1) / width := by
        rw [hcount]
        exact Nat.le_add_left 1 _
      rw [if_neg (by simp), pieces, piecesWithin_eq hwidth (Nat.le_refl _),
        Nat.max_eq_right hpositive]

end Dataset
-- =============================================================== records

variable {host after : SimHost} {ddname : String} {records : List Bytes}

theorem datasetOf_eq {entry : DdEntry} {dataset : Dataset}
    (hlookup : host.dds.lookup ddname = some entry)
    (hget : host.catalog.get? entry.dsname = some dataset) :
    host.datasetOf ddname = .ok dataset := by
  have hdsname : host.dsnameOf ddname = .ok entry.dsname := by
    unfold SimHost.dsnameOf
    rw [hlookup]
  unfold SimHost.datasetOf
  rw [hdsname]
  simp only [bind, Except.bind, hget]
  rfl

theorem datasetOf_ok {dataset : Dataset} (h : host.datasetOf ddname = .ok dataset) :
    ∃ entry, host.dds.lookup ddname = some entry
      ∧ host.catalog.get? entry.dsname = some dataset := by
  unfold SimHost.datasetOf SimHost.dsnameOf at h
  cases hlookup : host.dds.lookup ddname with
  | none =>
      rw [hlookup] at h
      cases h
  | some entry =>
      rw [hlookup] at h
      simp only [bind, Except.bind] at h
      refine ⟨entry, rfl, ?_⟩
      split at h
      · next found hfound =>
        cases h
        exact hfound
      · cases h

/-- A line makes no other dataset of a dataset. -/
theorem Dataset.append_name {dataset longer : Dataset} {line : String}
    (h : dataset.append line = .ok longer) : longer.name = dataset.name := by
  have hpush : (dataset.push line).name = dataset.name := by
    unfold Dataset.push
    split <;> rfl
  unfold Dataset.append at h
  split at h
  · split at h
    · cases h
    · cases h
      exact hpush
  · cases h
    exact hpush

/-- A line that is appended adds its records. -/
theorem HoldsRecords.append {line : String} (h : HoldsRecords host ddname records)
    (happend : host.appendTo ddname line = .ok after) :
    HoldsRecords after ddname
      (records ++ Dataset.recordsOf Dataset.outputLrecl (CodePage.encode line)) := by
  obtain ⟨entry, dataset, hlookup, hget, hname, hbody⟩ := h
  obtain ⟨found, hfound, hpushed⟩ := Outcome.bind_ok happend
  rw [datasetOf_eq hlookup hget] at hfound
  cases hfound
  obtain ⟨longer, hlonger, hdefined⟩ := Outcome.bind_ok hpushed
  cases hdefined
  have hpush : longer = dataset.push line := by
    unfold Dataset.append at hlonger
    rw [hbody] at hlonger
    simp only [Dataset.outputLrecl] at hlonger
    exact (Except.ok.inj hlonger).symm
  have hkept : longer.name = Text.upper entry.dsname := by
    rw [hpush, Dataset.push, hbody]
    exact hname
  refine ⟨entry, longer, hlookup, Catalog.get?_define _ hkept, hkept, ?_⟩
  rw [hpush, Dataset.push, hbody]

/-- Lines that are appended add their records, in order. -/
theorem appendLines_holds {lines : List String} {m t : Machine SimHost} {done : Unit}
    (h : HoldsRecords m.host ddname records)
    (happend : Service.appendLines ddname lines m = (.ok done, t)) :
    t.storage = m.storage ∧ HoldsRecords t.host ddname (records ++ lines.flatMap fun line =>
      Dataset.recordsOf Dataset.outputLrecl (CodePage.encode line)) := by
  induction lines generalizing m records with
  | nil =>
      obtain ⟨-, rfl⟩ := Op.pure_ok happend
      rw [List.flatMap_nil, List.append_nil]
      exact ⟨rfl, h⟩
  | cons line rest ih =>
      obtain ⟨_, u, hupdate, hrest⟩ := Op.bind_ok happend
      obtain ⟨host, hhost, rfl⟩ := Op.on_ok hupdate
      obtain ⟨after, hafter, hreturn⟩ := Outcome.bind_ok (Op.update_ok hhost)
      cases hreturn
      rw [List.flatMap_cons, ← List.append_assoc]
      exact ih (m := { m with host }) (h.append hafter) hrest

/-- The bytes of records in a stream: each with a new line byte behind
it. -/
def streamedRecords (records : List Bytes) : Bytes :=
  records.flatMap fun record => record ++ [CodePage.newLine]

/-- What is read of a dataset of records: a line for each, or the lines of
their stream where the host offers no records. -/
theorem readLines_records (link : Linkage SimHost) {dataset : Dataset} {lrecl : Nat}
    (hdataset : link.host.datasetOf ddname = .ok dataset)
    (hbody : dataset.body = .records lrecl records) :
    Output.readLines ddname link
      = (.ok (if link.host.recordAccess then records.map Output.lineOf
          else Output.splitStream (streamedRecords records)), link) := by
  have hrecords : link.host.openRecords ddname
      = .ok (if link.host.recordAccess then some { records } else none) := by
    unfold SimHost.openRecords
    rw [hdataset]
    simp only [bind, Except.bind, hbody]
    rfl
  have hopened : Output.openRecords ddname link
      = (.ok (if link.host.recordAccess then some { records } else none), link) := by
    unfold Output.openRecords
    rw [show Host.openRecords link.host ddname = (link.host.openRecords ddname, link.host) from rfl,
      hrecords]
    rfl
  unfold Output.readLines
  rw [Op.run_bind_of_ok hopened]
  cases link.host.recordAccess with
  | true => rfl
  | false =>
      have hstream : link.host.openStream ddname = .ok { bytes := streamedRecords records } := by
        unfold SimHost.openStream Dataset.streamBytes
        rw [hdataset]
        simp only [bind, Except.bind, hbody]
        rfl
      have hopened : Output.openStream ddname link
          = (.ok { bytes := streamedRecords records }, link) := by
        unfold Output.openStream
        rw [show Host.openStream link.host ddname = (link.host.openStream ddname, link.host)
          from rfl, hstream]
        rfl
      show (Output.openStream ddname >>= _) link = _
      rw [Op.run_bind_of_ok hopened]
      rfl

/-- The lines of a DD are those of its records. -/
theorem HoldsRecords.readLines {link closed : Linkage SimHost} {lines : List String}
    (h : HoldsRecords link.host ddname records) (haccess : link.host.recordAccess = true)
    (hread : Output.readLines ddname link = (.ok lines, closed)) :
    lines = records.map Output.lineOf := by
  obtain ⟨entry, dataset, hlookup, hget, -, hbody⟩ := h
  rw [readLines_records link (datasetOf_eq hlookup hget) hbody, haccess] at hread
  cases hread
  rfl

-- ================================================================= codes

open Storage (HasBlock Stands Changed)

/-- The codes of a command stand in the call block at `base`. -/
structure CodesStand (storage : Storage) (base : Address) (rc : Int32) (reason : UInt32) :
    Prop where
  rc : Stands storage base CallBlock.rcAt (Word.ofSigned rc)
  reason : Stands storage base CallBlock.reasonAt (Word.ofFull reason)
  abend : Stands storage base CallBlock.abendAt (Word.ofFull 0)

theorem leave_stands {m t : Machine SimHost} {base : Address} {size : Nat}
    {r15 rc value : Int32} {reason : UInt32} (hwf : m.storage.WellFormed)
    (hblock : HasBlock m.storage base size) (hsize : CallBlock.commandAt ≤ size)
    (h : Service.leave (parmsAt base) r15 rc reason m = (.ok value, t)) :
    t.host = m.host ∧ t.storage.WellFormed ∧ HasBlock t.storage base size
      ∧ CodesStand t.storage base rc reason := by
  unfold CallBlock.commandAt at hsize
  have hend : CallBlock.programAt ≤ size := Nat.le_trans (by decide) hsize
  -- each stretch starts where the field before it ends
  have hall : Changed base CallBlock.rcAt CallBlock.programAt m.storage m.storage :=
    Changed.refl hwf
  obtain ⟨st1, hst1, hrc, h1⟩ := Machine.write_stretch hblock hall rfl (Word.length_ofSigned rc)
    ⟨by decide, by decide, by decide, hend⟩ h
  have hblock1 : HasBlock st1 base size := hblock.changed hst1
  have hlater : Changed base CallBlock.reasonAt CallBlock.programAt st1 st1 :=
    Changed.refl hst1.wellFormed
  obtain ⟨st2, hst2, hreason, h2⟩ := Machine.write_stretch hblock1 hlater rfl
    (Word.length_ofFull reason) ⟨by decide, by decide, by decide, hend⟩ h1
  have hblock2 : HasBlock st2 base size := hblock1.changed hst2
  have hlast : Changed base CallBlock.abendAt CallBlock.programAt st2 st2 :=
    Changed.refl hst2.wellFormed
  obtain ⟨st3, hst3, habend, h3⟩ := Machine.write_stretch hblock2 hlast rfl
    (Word.length_ofFull 0) ⟨by decide, by decide, by decide, hend⟩ h2
  obtain ⟨-, rfl⟩ := Op.pure_ok h3
  refine ⟨rfl, hst3.wellFormed, hblock2.changed hst3, ?_, ?_, habend⟩
  · have hrc2 := hrc.changed hst2 (.inr (.inl (by rw [Word.length_ofSigned]; decide)))
    exact hrc2.changed hst3 (.inr (.inl (by rw [Word.length_ofSigned]; decide)))
  · exact hreason.changed hst3 (.inr (.inl (by rw [Word.length_ofFull]; decide)))

/-- The codes that stand in a block are those the engine decodes. -/
theorem CodesStand.decode {storage : Storage} {base : Address} {size : Nat} {rc : Int32}
    {reason : UInt32} {bytes : Bytes} {result : ExecuteResult}
    (h : CodesStand storage base rc reason) (hwf : storage.WellFormed)
    (hblock : HasBlock storage base size) (hread : storage.read base size = .ok bytes)
    (hresult : CallBlock.decode bytes = .ok result) :
    result = { commandRc := rc, reason, abend := 0 } := by
  have hrc := h.rc.slice hwf hblock hread
  have hreason := h.reason.slice hwf hblock hread
  have habend := h.abend.slice hwf hblock hread
  rw [Word.length_ofSigned] at hrc
  rw [Word.length_ofFull] at hreason habend
  obtain ⟨commandRc, hcommandRc, h1⟩ := Outcome.bind_ok hresult
  obtain ⟨reason', hreason', h2⟩ := Outcome.bind_ok h1
  obtain ⟨abend, habend', h3⟩ := Outcome.bind_ok h2
  cases h3
  obtain ⟨word, hword, hvalue⟩ := Outcome.bind_ok hcommandRc
  obtain ⟨word', hword', hvalue'⟩ := Outcome.bind_ok hreason'
  obtain ⟨word'', hword'', hvalue''⟩ := Outcome.bind_ok habend'
  rw [(Field.read_ok hword).2, hrc, Word.toSigned_ofSigned] at hvalue
  rw [(Field.read_ok hword').2, hreason, Word.toFull_ofFull] at hvalue'
  rw [(Field.read_ok hword'').2, habend, Word.toFull_ofFull] at hvalue''
  rw [← Except.ok.inj hvalue, ← Except.ok.inj hvalue', ← Except.ok.inj hvalue'']

-- ============================================================ performing

/-- A command that is performed for a private DD: its value, its records
and its codes. -/
theorem perform_ok {m t : Machine SimHost} {base : Address} {size : Nat} {command : String}
    {r15 : Int32} (hwf : m.storage.WellFormed) (hblock : HasBlock m.storage base size)
    (hsize : CallBlock.commandAt ≤ size) (hname : ddname ≠ "")
    (hholds : HoldsRecords m.host ddname [])
    (h : Service.perform (parmsAt base) ddname command m = (.ok r15, t))
    {result : CommandResult}
    (hresult : Processor.execute m.host.view (Command.parse command) = result) :
    r15 = (if result.rc = 0 then 0 else 4)
      ∧ HoldsRecords t.host ddname (result.output.flatMap fun line =>
        Dataset.recordsOf Dataset.outputLrecl (CodePage.encode line))
      ∧ t.storage.WellFormed ∧ HasBlock t.storage base size
      ∧ CodesStand t.storage base result.rc 0 := by
  obtain ⟨found, u, hrun, h1⟩ := Op.bind_ok h
  have hfound : found = result := by
    rw [← hresult]
    exact (Except.ok.inj (congrArg Prod.fst hrun)).symm
  have hu : u = { m with host := (m.host.execute command).2 } := (congrArg Prod.snd hrun).symm
  subst hfound
  obtain ⟨_, v, hsend, h2⟩ := Op.bind_ok h1
  unfold Service.sendOutput at hsend
  rw [if_neg hname] at hsend
  have hbefore : HoldsRecords u.host ddname [] := by
    rw [hu]
    exact hholds
  obtain ⟨hstorage, hrecords⟩ := appendLines_holds hbefore hsend
  have hsame : v.storage = m.storage := by
    rw [hstorage, hu]
  have hleft := leave_stands (by rw [hsame]; exact hwf) (by rw [hsame]; exact hblock) hsize h2
  obtain ⟨hhost, hwf', hblock', hcodes⟩ := hleft
  refine ⟨Service.leave_ok h2, ?_, hwf', hblock', hcodes⟩
  rw [hhost]
  exact hrecords

end Sim
end TsoBridge
