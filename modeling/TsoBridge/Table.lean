/-
Tables: entries kept in ascending order of their keys, at most one for a
key. Everything the system looks up by name or address and lists in order
is one of these: storage blocks, loaded modules, catalog, DD table, live
bindings. Being a plain sorted list, a table in which a new key is
inserted and erased again is the table it was.
-/

namespace TsoBridge

/-- Entries in ascending order of their keys. -/
structure Table (κ ν : Type) where
  entries : List (κ × ν) := []
deriving DecidableEq

namespace Table

variable {κ ν : Type} [LT κ] [DecidableLT κ] [DecidableEq κ]

/-- Puts `value` under `key` into an ordered list, in place of any entry
with that key. -/
def place (key : κ) (value : ν) : List (κ × ν) → List (κ × ν)
  | [] => [(key, value)]
  | entry :: rest =>
    if key < entry.1 then (key, value) :: entry :: rest
    else if key = entry.1 then (key, value) :: rest
    else entry :: place key value rest

/-- The table with `value` under `key`. -/
def insert (table : Table κ ν) (key : κ) (value : ν) : Table κ ν :=
  ⟨place key value table.entries⟩

/-- The table without the entry under `key`. -/
def erase (table : Table κ ν) (key : κ) : Table κ ν :=
  ⟨table.entries.filter fun entry => decide (entry.1 ≠ key)⟩

/-- The value under `key`. -/
def get? (table : Table κ ν) (key : κ) : Option ν :=
  (table.entries.find? fun entry => decide (entry.1 = key)).map (·.2)

/-- Whether there is an entry under `key`. -/
def contains (table : Table κ ν) (key : κ) : Bool :=
  (table.get? key).isSome

/-- The keys in ascending order. -/
def keys (table : Table κ ν) : List κ :=
  table.entries.map (·.1)

/-- The values in the order of their keys. -/
def values (table : Table κ ν) : List ν :=
  table.entries.map (·.2)

/-- The number of entries. -/
def size (table : Table κ ν) : Nat :=
  table.entries.length

-- ================================================================= order

/-- The keys ascend. -/
def Ordered (table : Table κ ν) : Prop :=
  table.entries.Pairwise fun entry next => entry.1 < next.1

/-- Whether there is an entry under `key` in an ordered list: behind a
greater key there is none. -/
def among (key : κ) : List (κ × ν) → Bool
  | [] => false
  | entry :: rest => if key < entry.1 then false else decide (entry.1 = key) || among key rest

/-- Whether there is an entry under `key`, in an ordered table. -/
def holds (table : Table κ ν) (key : κ) : Bool :=
  among key table.entries

/-- An entry after an insertion is the new one or an old one. -/
theorem mem_place {key : κ} {value : ν} {entries : List (κ × ν)} {entry : κ × ν}
    (h : entry ∈ place key value entries) :
    entry = (key, value) ∨ entry ∈ entries := by
  induction entries with
  | nil => exact .inl (by simpa [place] using h)
  | cons first rest ih =>
      unfold place at h
      split at h
      · exact List.mem_cons.mp h
      · split at h
        · rcases List.mem_cons.mp h with h | h
          · exact .inl h
          · exact .inr (List.mem_cons_of_mem _ h)
        · rcases List.mem_cons.mp h with rfl | h
          · exact .inr List.mem_cons_self
          · rcases ih h with h | h
            · exact .inl h
            · exact .inr (List.mem_cons_of_mem _ h)

omit [DecidableLT κ] in
theorem Ordered.erase {table : Table κ ν} (h : table.Ordered) (key : κ) :
    (table.erase key).Ordered :=
  List.Pairwise.filter _ h

theorem Ordered.insert [LE κ] [Std.IsLinearOrder κ] [Std.LawfulOrderLT κ] {table : Table κ ν}
    (h : table.Ordered) (key : κ) (value : ν) : (table.insert key value).Ordered := by
  obtain ⟨entries⟩ := table
  show (place key value entries).Pairwise _
  induction entries with
  | nil => exact List.pairwise_singleton _ _
  | cons first rest ih =>
      obtain ⟨hfirst, hrest⟩ := List.pairwise_cons.mp h
      unfold place
      split
      · next hlt =>
        refine List.pairwise_cons.mpr ⟨fun entry hentry => ?_, h⟩
        rcases List.mem_cons.mp hentry with rfl | hlater
        · exact hlt
        · exact Std.lt_trans hlt (hfirst entry hlater)
      · next hle =>
        split
        · next heq =>
          subst heq
          exact List.pairwise_cons.mpr ⟨hfirst, hrest⟩
        · next hne =>
          refine List.pairwise_cons.mpr ⟨fun entry hentry => ?_, ih hrest⟩
          rcases mem_place hentry with rfl | hlater
          · exact Std.lt_of_le_of_ne (Std.not_lt.mp hle) (Ne.symm hne)
          · exact hfirst entry hlater

end Table
end TsoBridge
