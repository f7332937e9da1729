/-
What is true of every simulated host there can be. A host is made from its
options, takes calls and lines for its terminal, and is touched from the
outside in three ways (`SimHost.Made`). Three things hold of all of them
(`SimHost.Orderly`), and on them hangs that no service stops short:

- every dataset takes a line, since records are eighty or 133 bytes long;
- every dataset is filed under its own name;
- a DD name is one a caller may ask for, or it was made up from a number
  the table has passed (`DdTable.Named`).
-/
import TsoBridge.Proofs.Sim.Output

namespace TsoBridge

namespace Sim

-- ============================================================== datasets

/-- A dataset takes a line: its records have a length, and one that can be
held. -/
def Dataset.Recordable (dataset : Dataset) : Prop :=
  match dataset.body with
  | .records lrecl _ => 0 < lrecl ∧ lrecl ≤ Word.runLimit
  | _ => True

/-- A new dataset takes lines if its record length is within the bounds. -/
theorem recordable_sequential (name : String) {lrecl : Nat} (hpos : 0 < lrecl)
    (hlimit : lrecl ≤ Word.runLimit) : (Dataset.sequential name lrecl).Recordable :=
  ⟨hpos, hlimit⟩

/-- It takes another line after each line. -/
theorem Dataset.Recordable.push {dataset : Dataset} (h : dataset.Recordable) (line : String) :
    (dataset.push line).Recordable := by
  unfold Recordable at h ⊢
  unfold Dataset.push
  cases hbody : dataset.body with
  | records lrecl records =>
      rw [hbody] at h
      exact h
  | library members =>
      simp only [hbody]
  | stream bytes => trivial

/-- Appending a line to such a dataset does not fail. -/
theorem Dataset.Recordable.append {dataset : Dataset} (h : dataset.Recordable) (line : String) :
    dataset.append line = .ok (dataset.push line) := by
  unfold Recordable at h
  unfold Dataset.append
  split
  · next lrecl records hbody =>
    rw [hbody] at h
    rw [if_neg]
    rintro (hzero | hlarge)
    · omega
    · omega
  · rfl

/-- Every dataset in a catalog takes a line. -/
def Catalog.Recordable (catalog : Catalog) : Prop :=
  ∀ name dataset, catalog.datasets.get? name = some dataset → dataset.Recordable

/-- What a catalog holds after a dataset was put in. -/
theorem Catalog.mem_define {catalog : Catalog} {dataset found : Dataset} {name : String}
    (h : (catalog.define dataset).datasets.get? name = some found) :
    name = dataset.name ∧ found = dataset ∨ catalog.datasets.get? name = some found := by
  unfold Catalog.define at h
  by_cases heq : name = dataset.name
  · rw [heq, Table.get?_insert_self] at h
    exact .inl ⟨heq, (Option.some.inj h).symm⟩
  · rw [Table.get?_insert_ne _ _ heq] at h
    exact .inr h

/-- What a catalog holds after a dataset was taken out, it held before. -/
theorem Catalog.mem_remove {catalog : Catalog} {found : Dataset} {name other : String}
    (h : (catalog.remove name).datasets.get? other = some found) :
    catalog.datasets.get? other = some found := by
  unfold Catalog.remove at h
  by_cases heq : other = Text.upper name
  · rw [heq, Table.get?_erase_self] at h
    cases h
  · rwa [Table.get?_erase_ne _ heq] at h

/-- A dataset that takes lines may be put in. -/
theorem Catalog.Recordable.define {catalog : Catalog} {dataset : Dataset}
    (h : catalog.Recordable) (hdataset : dataset.Recordable) :
    (catalog.define dataset).Recordable := by
  intro name found hfound
  rcases Catalog.mem_define hfound with ⟨-, rfl⟩ | hfound
  · exact hdataset
  · exact h name found hfound

/-- Any dataset may be taken out. -/
theorem Catalog.Recordable.remove {catalog : Catalog} (h : catalog.Recordable) (name : String) :
    (catalog.remove name).Recordable :=
  fun other found hfound => h other found (Catalog.mem_remove hfound)

/-- Every dataset in a catalog is filed under its own name. -/
def Catalog.Filed (catalog : Catalog) : Prop :=
  ∀ name dataset, catalog.datasets.get? name = some dataset → dataset.name = name

/-- A dataset is put in under its own name. -/
theorem Catalog.Filed.define {catalog : Catalog} (h : catalog.Filed) (dataset : Dataset) :
    (catalog.define dataset).Filed := by
  intro name found hfound
  rcases Catalog.mem_define hfound with ⟨rfl, rfl⟩ | hfound
  · rfl
  · exact h name found hfound

/-- Taking one out files no other anew. -/
theorem Catalog.Filed.remove {catalog : Catalog} (h : catalog.Filed) (name : String) :
    (catalog.remove name).Filed :=
  fun other found hfound => h other found (Catalog.mem_remove hfound)

-- ================================================================= hosts

namespace SimHost

/-- Datasets take lines and are filed under their names, and DD names are
in order. -/
structure Orderly (host : SimHost) : Prop where
  recordable : host.catalog.Recordable
  filed : host.catalog.Filed
  named : host.dds.Named

variable {host after : SimHost}

/-- Only catalog and DD table matter. -/
theorem Orderly.same (h : host.Orderly) (hdds : after.dds = host.dds)
    (hcatalog : after.catalog = host.catalog) : after.Orderly :=
  ⟨hcatalog ▸ h.recordable, hcatalog ▸ h.filed, hdds ▸ h.named⟩

/-- A dataset that a host has takes a line. -/
theorem Orderly.dataset (h : host.Orderly) {ddname : String} {dataset : Dataset}
    (hdataset : host.datasetOf ddname = .ok dataset) : dataset.Recordable := by
  obtain ⟨entry, -, hget⟩ := datasetOf_ok hdataset
  exact h.recordable _ dataset hget

/-- Appending a line fails only where there is no dataset. -/
theorem Orderly.appendTo (h : host.Orderly) (ddname line : String) :
    (∃ dataset : Dataset, host.appendTo ddname line
        = .ok { host with catalog := host.catalog.define (dataset.push line) }
        ∧ dataset.Recordable)
      ∨ ∃ cause, host.appendTo ddname line = fail cause := by
  unfold SimHost.appendTo
  cases hdataset : host.datasetOf ddname with
  | error cause => exact .inr ⟨cause, rfl⟩
  | ok dataset =>
      have hrecordable := h.dataset hdataset
      refine .inl ⟨dataset, ?_, hrecordable⟩
      show (do return { host with catalog := host.catalog.define (← dataset.append line) }) = _
      rw [hrecordable.append line]
      rfl

/-- A host stays orderly if a dataset that takes lines is put into its
catalog. -/
theorem Orderly.define (h : host.Orderly) {dataset : Dataset} (hdataset : dataset.Recordable) :
    Orderly { host with catalog := host.catalog.define dataset } :=
  ⟨h.recordable.define hdataset, h.filed.define dataset, h.named⟩

/-- What is done to a host from the outside keeps it orderly. -/
theorem Orderly.touched (h : host.Orderly) (htouched : Touched host after) : after.Orderly := by
  cases htouched with
  | @append ddname line happend =>
      rcases h.appendTo ddname line with ⟨dataset, hrun, hdataset⟩ | ⟨cause, hrun⟩
      · rw [hrun] at happend
        cases happend
        exact h.define (hdataset.push line)
      · rw [hrun] at happend
        cases happend
  | rotate hrotate =>
      unfold SimHost.rotate at hrotate
      simp only [bind, Except.bind] at hrotate
      split at hrotate
      · cases hrotate
      · split at hrotate
        · cases hrotate
          exact h.define trivial
        · cases hrotate
          exact h
  | defineDd hdefine =>
      obtain ⟨entered, hallocate, hdefine⟩ := Outcome.bind_ok hdefine
      split at hdefine
      · cases hdefine
        exact ⟨h.recordable, h.filed, h.named.allocate hallocate⟩
      · cases hdefine

/-- A host of given options is orderly. -/
theorem orderly_build (options : Options) (clock : Clock) : (build options clock).Orderly := by
  constructor
  · have hall : ∀ datasets : List Dataset, ∀ catalog : Catalog, catalog.Recordable →
        (∀ dataset ∈ datasets, dataset.Recordable) →
        (datasets.foldl Catalog.define catalog).Recordable := by
      intro datasets
      induction datasets with
      | nil => exact fun catalog hcatalog _ => hcatalog
      | cons first rest ih =>
          intro catalog hcatalog hdatasets
          apply ih
          · exact hcatalog.define (hdatasets first List.mem_cons_self)
          · exact fun dataset hdataset => hdatasets dataset (List.mem_cons_of_mem _ hdataset)
    have hpushed : ∀ (lines : List String) (dataset : Dataset), dataset.Recordable →
        (lines.foldl Dataset.push dataset).Recordable := by
      intro lines
      induction lines with
      | nil => exact fun dataset hdataset => hdataset
      | cons line rest ih => exact fun dataset hdataset => ih _ (hdataset.push line)
    have hempty : Catalog.Recordable {} := fun name dataset hget => by simp [Table.get?] at hget
    unfold build
    apply hall _ _ hempty
    intro dataset hmem
    rcases List.mem_cons.mp hmem with rfl | hmem
    · trivial
    · rcases List.mem_cons.mp hmem with rfl | hmem
      · trivial
      · obtain ⟨⟨name, lines⟩, -, rfl⟩ := List.mem_map.mp hmem
        exact hpushed lines _ (recordable_sequential name (by decide) (by decide))
  · have hall : ∀ datasets : List Dataset, ∀ catalog : Catalog, catalog.Filed →
        (datasets.foldl Catalog.define catalog).Filed := by
      intro datasets
      induction datasets with
      | nil => exact fun catalog hcatalog => hcatalog
      | cons first rest ih => exact fun catalog hcatalog => ih _ (hcatalog.define first)
    have hempty : Catalog.Filed {} := fun name dataset hget => by simp [Table.get?] at hget
    unfold build
    apply hall _ _ hempty
  · have hempty : DdTable.Named {} := fun name hcontains => by
      simp [Table.contains, Table.get?] at hcontains
    have hexec : Name.ddnameFlaw? "SYSEXEC" = none := by decide +kernel
    have hout : Name.ddnameFlaw? "TSOOUT" = none := by decide +kernel
    unfold build
    exact DdTable.Named.enter (DdTable.Named.enter hempty (.inl hexec)) (.inl hout)

-- ================================================================ services

/-- No change leaves a host disorderly. -/
theorem Orderly.change {host after : SimHost} {deed : Deed} (h : host.Orderly)
    (hchange : Change deed host after) : after.Orderly := by
  cases hchange with
  | probed => exact h.same rfl rfl
  | listed => exact h.same rfl rfl
  | numbered => exact h.same rfl rfl
  | issued => exact h.same rfl rfl
  | ran => exact h.same rfl rfl
  | printed => exact h.same rfl rfl
  | defined _ dsname => exact h.define (recordable_sequential dsname (by decide) (by decide))
  | appended happend => exact h.touched (.append happend)
  | @entered _ _ _ dsname _ temporary _ hentered =>
      refine ⟨?_, ?_, h.named.allocate hentered⟩
      · show (if temporary = true then _ else _ : Catalog).Recordable
        split
        · exact h.recordable.define (recordable_sequential dsname (by decide) (by decide))
        · exact h.recordable
      · show (if temporary = true then _ else _ : Catalog).Filed
        split
        · exact h.filed.define _
        · exact h.filed
  | @removed _ _ entry _ hremoved =>
      refine ⟨?_, ?_, h.named.unallocate hremoved⟩
      · show (if entry.temporary = true then _ else _ : Catalog).Recordable
        split
        · exact h.recordable.remove _
        · exact h.recordable
      · show (if entry.temporary = true then _ else _ : Catalog).Filed
        split
        · exact h.filed.remove _
        · exact h.filed

/-- So no call does. -/
theorem Orderly.call {m : Machine SimHost} (h : m.host.Orderly) (entry : EntryPoint)
    (r1 : Address) : (SimHost.call m entry r1).2.host.Orderly := by
  have hcounted : (counted m entry.module).host.Orderly := h.same rfl rfl
  exact (call_acts m entry r1).carries (fun _ _ _ _ hchange hhost => hhost.change hchange) hcounted

/-- A host as it may come to be: made from its options, called with any
storage, sent lines to, and touched from the outside. -/
inductive Made : SimHost → Prop where
  | build (options : Options) (clock : Clock) : Made (build options clock)
  | call {m : Machine SimHost} (h : Made m.host) (entry : EntryPoint) (r1 : Address) :
      Made (SimHost.call m entry r1).2.host
  | putLine {host : SimHost} (h : Made host) (text : String) (level : MessageLevel) :
      Made (Host.putLine host text level).2
  | touch {host after : SimHost} (h : Made host) (htouched : Touched host after) : Made after

/-- Every host is orderly. -/
theorem Made.orderly {host : SimHost} (h : Made host) : host.Orderly := by
  induction h with
  | build options clock => exact orderly_build options clock
  | call _ entry r1 ih => exact ih.call entry r1
  | putLine _ text level ih => exact ih.same rfl rfl
  | touch _ htouched ih => exact ih.touched htouched

end SimHost
end Sim
end TsoBridge
