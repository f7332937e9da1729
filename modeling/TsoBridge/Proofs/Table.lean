/-
What a table answers after an insertion or an erasure. The answers need
nothing of the order of the entries: an entry is put in front of the first
entry its key is not beyond, so the entry a look-up finds first is the new
one, and every other key finds what it found before. A new key that is
inserted and erased again leaves the table it was.
-/
import Mathlib.Data.List.Perm.Basic
import TsoBridge.Table

namespace TsoBridge.Table

variable {κ ν : Type} [DecidableEq κ]

/-- A value that is found is the value of an entry. -/
theorem mem_of_get? {table : Table κ ν} {key : κ} {value : ν}
    (h : table.get? key = some value) : (key, value) ∈ table.entries := by
  unfold get? at h
  obtain ⟨entry, hfind, rfl⟩ := Option.map_eq_some_iff.mp h
  have hkey : entry.1 = key := by simpa using List.find?_some hfind
  rw [← hkey]
  exact List.mem_of_find?_eq_some hfind

/-- A key that no entry has is not found. -/
theorem get?_eq_none {table : Table κ ν} {key : κ}
    (h : ∀ entry ∈ table.entries, entry.1 ≠ key) : table.get? key = none := by
  unfold get?
  rw [List.find?_eq_none.mpr (by simpa using h)]
  rfl

/-- Where no key stands twice, every entry is found under its key. -/
theorem get?_of_mem {table : Table κ ν}
    (hdistinct : table.entries.Pairwise fun a b => a.1 ≠ b.1) {key : κ} {value : ν}
    (h : (key, value) ∈ table.entries) : table.get? key = some value := by
  obtain ⟨before, after, hsplit⟩ := List.append_of_mem h
  have hbefore : ∀ entry ∈ before, entry.1 ≠ key := by
    intro entry hentry
    rw [hsplit, List.pairwise_append] at hdistinct
    exact hdistinct.2.2 entry hentry _ List.mem_cons_self
  unfold get?
  rw [hsplit, List.find?_append, List.find?_eq_none.mpr (by simpa using hbefore)]
  simp

/-- What was erased is gone. -/
theorem get?_erase_self (table : Table κ ν) (key : κ) : (table.erase key).get? key = none := by
  refine get?_eq_none fun entry hentry => ?_
  simpa using (List.mem_filter.mp hentry).2

/-- The others are not. -/
theorem get?_erase_ne (table : Table κ ν) {key other : κ} (hne : other ≠ key) :
    (table.erase key).get? other = table.get? other := by
  unfold get? erase
  rw [List.find?_filter]
  congr 2
  funext entry
  by_cases hentry : entry.1 = other
  · simp [hentry, hne]
  · simp [hentry]

/-- Erasing a key that is not there changes nothing. -/
theorem erase_absent {table : Table κ ν} {key : κ} (h : table.get? key = none) :
    table.erase key = table := by
  have habsent : ∀ entry ∈ table.entries, decide (entry.1 ≠ key) = true := by
    intro entry hentry
    unfold get? at h
    rw [Option.map_eq_none_iff, List.find?_eq_none] at h
    simpa using h entry hentry
  unfold erase
  rw [List.filter_eq_self.mpr habsent]

/-- The same for being there at all. -/
theorem contains_erase (table : Table κ ν) (key other : κ) :
    (table.erase key).contains other = (table.contains other && decide (other ≠ key)) := by
  unfold contains
  by_cases hkey : other = key
  · subst hkey
    rw [get?_erase_self]
    simp
  · rw [get?_erase_ne table hkey]
    simp [hkey]

/-- The keys are those with an entry. -/
theorem mem_keys {table : Table κ ν} {key : κ} :
    key ∈ table.keys ↔ table.contains key = true := by
  unfold keys contains
  constructor
  · intro h
    obtain ⟨entry, hentry, rfl⟩ := List.mem_map.mp h
    unfold get?
    rw [Option.isSome_map, List.find?_isSome]
    exact ⟨entry, hentry, by simp⟩
  · intro h
    obtain ⟨value, hvalue⟩ := Option.isSome_iff_exists.mp h
    exact List.mem_map.mpr ⟨_, mem_of_get? hvalue, rfl⟩

/-- The keys that are left, in their order. -/
theorem keys_erase (table : Table κ ν) (key : κ) :
    (table.erase key).keys = table.keys.filter fun other => decide (other ≠ key) := by
  unfold keys erase
  rw [List.filter_map]
  rfl

/-- A key that is erased was one among the keys. -/
theorem keys_erase_perm {table : Table κ ν} {key : κ} (hnodup : table.keys.Nodup)
    (h : key ∈ table.keys) : table.keys.Perm (key :: (table.erase key).keys) := by
  have herase : table.keys.erase key = (table.erase key).keys := by
    rw [keys_erase, hnodup.erase_eq_filter]
    exact List.filter_congr fun other _ => by simp [bne, beq_eq_decide]
  rw [← herase]
  exact List.perm_cons_erase h

variable [LT κ] [DecidableLT κ]

/-- In an ordered table the search that ends early finds what there is. -/
theorem holds_eq_contains [LE κ] [Std.IsLinearOrder κ] [Std.LawfulOrderLT κ] {table : Table κ ν}
    (h : table.Ordered) (key : κ) : table.holds key = table.contains key := by
  obtain ⟨entries⟩ := table
  unfold Ordered at h
  unfold holds contains get?
  dsimp only at h ⊢
  induction entries with
  | nil => rfl
  | cons first rest ih =>
      obtain ⟨hfirst, hrest⟩ := List.pairwise_cons.mp h
      unfold among
      split
      · next hlt =>
        -- the key is in front of all others
        have hnone : (first :: rest).find? (fun entry => decide (entry.1 = key)) = none := by
          refine List.find?_eq_none.mpr fun entry hentry => ?_
          have hbefore : key < entry.1 := by
            rcases List.mem_cons.mp hentry with rfl | hlater
            · exact hlt
            · exact Std.lt_trans hlt (hfirst entry hlater)
          simpa using fun heq : entry.1 = key => Std.lt_irrefl (heq ▸ hbefore)
        rw [hnone]
        rfl
      · rw [List.find?_cons, ih hrest]
        cases decide (first.1 = key) with
        | true => rfl
        | false => rfl

/-- What was inserted is found. -/
theorem get?_insert_self (table : Table κ ν) (key : κ) (value : ν) :
    (table.insert key value).get? key = some value := by
  obtain ⟨entries⟩ := table
  unfold get? insert
  show ((place key value entries).find? _).map _ = _
  induction entries with
  | nil => simp [place]
  | cons first rest ih =>
      unfold place
      split
      · simp
      · split
        · simp
        · next hne =>
          rw [List.find?_cons_of_neg (by simpa using fun h => hne h.symm)]
          exact ih

/-- The others are as they were. -/
theorem get?_insert_ne (table : Table κ ν) {key other : κ} (value : ν)
    (hne : other ≠ key) : (table.insert key value).get? other = table.get? other := by
  obtain ⟨entries⟩ := table
  unfold get? insert
  congr 1
  show (place key value entries).find? _ = entries.find? _
  induction entries with
  | nil => simp [place, hne.symm]
  | cons first rest ih =>
      unfold place
      split
      · rw [List.find?_cons_of_neg (by simpa using hne.symm)]
      · split
        · next heq =>
          rw [List.find?_cons_of_neg (by simpa using hne.symm),
            List.find?_cons_of_neg (by simpa [← heq] using hne.symm)]
        · simp only [List.find?_cons, ih]

/-- The same for being there at all. -/
theorem contains_insert (table : Table κ ν) (key other : κ) (value : ν) :
    (table.insert key value).contains other = (decide (other = key) || table.contains other) := by
  unfold contains
  by_cases hkey : other = key
  · subst hkey
    rw [get?_insert_self]
    simp
  · rw [get?_insert_ne table value hkey]
    simp [hkey]

/-- A new key is one key more. -/
theorem keys_insert_perm {table : Table κ ν} {key : κ} (value : ν) (h : key ∉ table.keys) :
    (table.insert key value).keys.Perm (key :: table.keys) := by
  obtain ⟨entries⟩ := table
  unfold keys insert at *
  show ((place key value entries).map (·.1)).Perm (key :: entries.map (·.1))
  induction entries with
  | nil => exact List.Perm.refl _
  | cons first rest ih =>
      simp only [List.map_cons, List.mem_cons, not_or] at h
      unfold place
      rw [if_neg h.1]
      split
      · exact List.Perm.refl _
      · exact ((ih h.2).cons first.1).trans (List.Perm.swap _ _ _)

/-- A selection by keys that leaves `key` out does not see what is placed
under it. -/
theorem filter_place (keep : κ → Bool) {key : κ} (value : ν) (h : keep key = false)
    (entries : List (κ × ν)) :
    (place key value entries).filter (fun entry => keep entry.1)
      = entries.filter fun entry => keep entry.1 := by
  induction entries with
  | nil => simp [place, h]
  | cons first rest ih =>
      unfold place
      split
      · simp [h]
      · split
        · next heq => simp [← heq, h]
        · rw [List.filter_cons, List.filter_cons, ih]

/-- Erasing undoes the insertion of a new key. -/
theorem erase_insert {table : Table κ ν} {key : κ} (value : ν) (h : table.get? key = none) :
    (table.insert key value).erase key = table := by
  have herased : (table.insert key value).erase key = table.erase key :=
    congrArg Table.mk (filter_place (fun other => decide (other ≠ key)) value (by simp) _)
  rw [herased, erase_absent h]

omit [LT κ] [DecidableLT κ] in
/-- Erasing several keys keeps the entries under other keys. -/
theorem foldl_erase (keys : List κ) (table : Table κ ν) :
    keys.foldl erase table = ⟨table.entries.filter fun entry => decide (entry.1 ∉ keys)⟩ := by
  induction keys generalizing table with
  | nil => simp
  | cons key rest ih =>
      rw [List.foldl_cons, ih]
      unfold erase
      simp only [List.filter_filter, List.mem_cons, not_or, Bool.decide_and, ne_eq]
      congr 1
      refine List.filter_congr fun entry _ => ?_
      rw [Bool.and_comm]

/-- What stands under a key that is erased does not matter. -/
theorem foldl_erase_insert {keys : List κ} {key : κ} (h : key ∈ keys) (table : Table κ ν)
    (value : ν) : keys.foldl erase (table.insert key value) = keys.foldl erase table := by
  rw [foldl_erase, foldl_erase]
  exact congrArg Table.mk
    (filter_place (fun other => decide (other ∉ keys)) value (by simp [h]) _)

end TsoBridge.Table
