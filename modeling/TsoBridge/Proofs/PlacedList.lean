/-
Parameter lists through any storage. A list that was placed is found again,
as long as it has no more words than the callee looks at. And whatever
stands at register 1, looking at it ends: it asks for a bounded number of
words, each right behind the last, and what it finds are addresses.

# Why no sum leaves its word

A look at the next word needs the address behind the word before it, and
that word was read, so it lies in a block and a block ends below the limit
of the address space (`follow_untrapped`).

# How reads are counted

The outcome of a look says nothing about how often storage was read. An
`Inquiry` is the same look with storage left out: it either ends or asks
for a fullword and goes on with the answer. `run_inquiry` says that storage
which answers makes it the look it stands for, and `Inquiry.asked` lists the
addresses it asked for.
-/
import TsoBridge.Proofs.Cause
import TsoBridge.Proofs.FirstFit
import TsoBridge.Proofs.Handover
import TsoBridge.Proofs.Safety

namespace TsoBridge

-- ============================================================= inquiries

/-- A computation that may ask for fullwords before it ends. -/
inductive Inquiry (α : Type) where
  | done (result : Outcome α)
  | ask (address : Address) (next : UInt32 → Inquiry α)

namespace Inquiry

variable {α : Type}

/-- How an inquiry ends that storage answers. -/
def run (storage : Storage) : Inquiry α → Outcome α
  | done result => result
  | ask address next => do
    let word ← storage.readFull address
    (next word).run storage

/-- The addresses an inquiry asks storage for. -/
def asked (storage : Storage) : Inquiry α → List Address
  | done _ => []
  | ask address next =>
    address :: match storage.readFull address with
      | .ok word => (next word).asked storage
      | .error _ => []

theorem asked_of_ok {storage : Storage} {address : Address} {next : UInt32 → Inquiry α}
    {word : UInt32} (h : storage.readFull address = .ok word) :
    (ask address next).asked storage = address :: (next word).asked storage := by
  rw [asked, h]

theorem asked_of_fault {storage : Storage} {address : Address} {next : UInt32 → Inquiry α}
    {fault : Fault} (h : storage.readFull address = .error fault) :
    (ask address next).asked storage = [address] := by
  rw [asked, h]

end Inquiry

-- ============================================================= obtaining

/-- What was obtained takes its data, so a block with data is refused for its
length only. -/
theorem Storage.obtainWith_raises {storage : Storage} (hwf : storage.WellFormed)
    (subpool : UInt8) (data : Bytes) :
    (storage.obtainWith subpool data).Raises
      fun cause => ∃ reason, cause = .obtainFailed data.length reason := by
  intro cause hcause
  cases hobtain : storage.obtain subpool data.length with
  | ok found =>
      obtain ⟨after, -, hwith⟩ := obtainWith_of_obtain hwf hobtain
      rw [hwith] at hcause
      cases hcause
  | error fault =>
      have hwith : storage.obtainWith subpool data = .error fault := by
        unfold obtainWith
        rw [hobtain]
        rfl
      rw [hwith] at hcause
      cases hcause
      exact storage.obtain_raises subpool data.length cause hobtain

-- ======================================================= parameter lists

namespace ParmList

variable {storage : Storage} {r1 : Address}

/-- Following a list as an inquiry, with the addresses that were found
before. -/
def inquiry (r1 : Address) (found : List Address) (index : Nat) : Nat → Inquiry (List Address)
  | 0 => .done (fail (.invalidParmList (.unterminated maxParms)))
  | fuel + 1 =>
    match r1.plus (4 * index) with
    | .error fault => .done (.error fault)
    | .ok place => .ask place fun word =>
        if marked word then .done (.ok (found ++ [address word]))
        else inquiry r1 (found ++ [address word]) (index + 1) fuel

/-- Storage answers the inquiry as it is followed. -/
theorem run_inquiry (storage : Storage) (r1 : Address) (found : List Address) (index fuel : Nat) :
    (inquiry r1 found index fuel).run storage
      = (found ++ ·) <$> follow storage r1 index fuel := by
  induction fuel generalizing found index with
  | zero => rfl
  | succ fuel ih =>
      unfold inquiry follow
      cases hplace : r1.plus (4 * index) with
      | error fault => rfl
      | ok place =>
          show (storage.readFull place >>= _) = (_ <$> (storage.readFull place >>= _))
          cases hword : storage.readFull place with
          | error fault => rfl
          | ok word =>
              show Inquiry.run storage (if marked word = true then _ else _)
                = (_ <$> (if marked word = true then _ else _))
              by_cases hmarked : marked word = true
              · rw [if_pos hmarked, if_pos hmarked]
                rfl
              · rw [if_neg hmarked, if_neg hmarked, ih]
                cases hrest : follow storage r1 (index + 1) fuel with
                | error fault => rfl
                | ok rest =>
                    show Except.ok (found ++ [address word] ++ rest)
                      = Except.ok (found ++ address word :: rest)
                    rw [List.append_assoc, List.singleton_append]

/-- An inquiry asks for one word after the other, and for no more than it
has fuel for. -/
theorem asked_inquiry (storage : Storage) (r1 : Address) (found : List Address)
    (index fuel : Nat) :
    ∃ count ≤ fuel, (inquiry r1 found index fuel).asked storage
      = (List.range' index count).map fun index => r1.shift (4 * index) := by
  induction fuel generalizing found index with
  | zero => exact ⟨0, Nat.le_refl 0, rfl⟩
  | succ fuel ih =>
      unfold inquiry
      cases hplace : r1.plus (4 * index) with
      | error fault => exact ⟨0, Nat.zero_le _, rfl⟩
      | ok place =>
          obtain ⟨-, rfl⟩ := Address.plus_ok hplace
          cases hword : storage.readFull (r1.shift (4 * index)) with
          | error fault => exact ⟨1, Nat.succ_pos fuel, Inquiry.asked_of_fault hword⟩
          | ok word =>
              by_cases hmarked : marked word = true
              · refine ⟨1, Nat.succ_pos fuel, (Inquiry.asked_of_ok hword).trans ?_⟩
                rw [if_pos hmarked]
                rfl
              · obtain ⟨count, hcount, hrest⟩ := ih (found ++ [address word]) (index + 1)
                refine ⟨count + 1, Nat.succ_le_succ hcount, (Inquiry.asked_of_ok hword).trans ?_⟩
                rw [if_neg hmarked, hrest]
                rfl

-- ========================================================== listed words

/-- The word of the list at `r1` with this index. -/
def wordAt (storage : Storage) (r1 : Address) (index : Nat) : Outcome UInt32 := do
  storage.readFull (← r1.plus (4 * index))

/-- From `index` on the list at `r1` has these words, and behind them one
that is the first to be marked. -/
structure Listed (storage : Storage) (r1 : Address) (index : Nat) (words : List UInt32)
    (last : UInt32) : Prop where
  passed : ∀ i word, words[i]? = some word →
    wordAt storage r1 (index + i) = .ok word ∧ marked word = false
  next : wordAt storage r1 (index + words.length) = .ok last
  ends : marked last = true

theorem listed_nil {index : Nat} {last : UInt32} :
    Listed storage r1 index [] last
      ↔ wordAt storage r1 index = .ok last ∧ marked last = true := by
  constructor
  · intro h
    exact ⟨h.next, h.ends⟩
  · rintro ⟨hlast, hmarked⟩
    exact ⟨fun i word hword => by simp at hword, hlast, hmarked⟩

theorem listed_cons {index : Nat} {word last : UInt32} {words : List UInt32} :
    Listed storage r1 index (word :: words) last
      ↔ (wordAt storage r1 index = .ok word ∧ marked word = false)
        ∧ Listed storage r1 (index + 1) words last := by
  have hnext : ∀ i, index + (i + 1) = index + 1 + i := fun i => by omega
  constructor
  · intro h
    refine ⟨h.passed 0 word rfl, ?_, ?_, h.ends⟩
    · intro i later hlater
      rw [← hnext]
      exact h.passed (i + 1) later hlater
    · rw [← hnext]
      exact h.next
  · rintro ⟨hword, h⟩
    refine ⟨?_, ?_, h.ends⟩
    · intro i found hfound
      cases i with
      | zero =>
          cases hfound
          exact hword
      | succ i =>
          rw [hnext]
          exact h.passed i found hfound
    · rw [List.length_cons, hnext]
      exact h.next

theorem follow_succ (storage : Storage) (r1 : Address) (index fuel : Nat) :
    follow storage r1 index (fuel + 1) = (do
      let word ← wordAt storage r1 index
      if marked word then return [address word]
      else return address word :: (← follow storage r1 (index + 1) fuel)) := by
  unfold wordAt
  rw [bind_assoc]
  rfl

/-- Following a list finds addresses exactly if a marked word comes before
the fuel ends and before a word that cannot be read. -/
theorem follow_ok_iff {index fuel : Nat} {found : List Address} :
    follow storage r1 index fuel = .ok found
      ↔ ∃ words last, words.length < fuel ∧ Listed storage r1 index words last
        ∧ found = words ++ [address last] := by
  induction fuel generalizing index found with
  | zero =>
      constructor
      · intro h
        cases h
      · rintro ⟨words, last, hfuel, -⟩
        exact absurd hfuel (Nat.not_lt_zero _)
  | succ fuel ih =>
      rw [follow_succ]
      constructor
      · intro h
        obtain ⟨word, hword, h⟩ := Outcome.bind_ok h
        split at h
        · next hmarked =>
          cases h
          exact ⟨[], word, Nat.succ_pos fuel, listed_nil.mpr ⟨hword, hmarked⟩, rfl⟩
        · next hmarked =>
          have hunmarked : marked word = false := by simpa using hmarked
          obtain ⟨rest, hrest, h⟩ := Outcome.bind_ok h
          cases h
          obtain ⟨words, last, hfuel, hlisted, rfl⟩ := ih.mp hrest
          refine ⟨word :: words, last, Nat.succ_lt_succ hfuel,
            listed_cons.mpr ⟨⟨hword, hunmarked⟩, hlisted⟩, ?_⟩
          rw [address_of_unmarked hunmarked, List.cons_append]
      · rintro ⟨words, last, hfuel, hlisted, rfl⟩
        cases words with
        | nil =>
            obtain ⟨hlast, hmarked⟩ := listed_nil.mp hlisted
            rw [hlast]
            exact if_pos hmarked
        | cons word words =>
            obtain ⟨⟨hword, hunmarked⟩, hlater⟩ := listed_cons.mp hlisted
            have hrest := ih.mpr ⟨words, last, Nat.lt_of_succ_lt_succ hfuel, hlater, rfl⟩
            rw [hword]
            show (if marked word = true then _ else _) = _
            rw [if_neg (by simp [hunmarked]), hrest, address_of_unmarked hunmarked]
            rfl

/-- What following a list finds are addresses. -/
theorem follow_unmarked {index fuel : Nat} {found : List Address}
    (h : follow storage r1 index fuel = .ok found) :
    ∀ address ∈ found, marked address = false := by
  intro address haddress
  exact unmarked_of_le (follow_le h address haddress)

-- =============================================================== placing

theorem place_eq (parms : ParmList) (storage : Storage) :
    parms.place storage = match (parms.leading ++ [parms.last]).find? marked with
      | some wide => fail (.invalidParmList (.wide wide))
      | none => storage.obtainWith Storage.engineSubpool (words parms.leading parms.last) := by
  unfold place
  rw [encode_eq]
  cases (parms.leading ++ [parms.last]).find? marked with
  | some wide => rfl
  | none => rfl

/-- A list is refused as one exactly if an address in it is wide, and then
nothing is obtained. -/
theorem place_refused_iff (hwf : storage.WellFormed) (parms : ParmList) :
    (∃ flaw, Op.update parms.place storage = (fail (.invalidParmList flaw), storage))
      ↔ ∃ address ∈ parms.leading ++ [parms.last], marked address = true := by
  have hplace := place_eq parms storage
  rw [← List.find?_isSome]
  cases hfind : (parms.leading ++ [parms.last]).find? marked with
  | some wide =>
      rw [hfind] at hplace
      constructor
      · intro _
        rfl
      · intro _
        exact ⟨.wide wide, Op.update_of_fault hplace⟩
  | none =>
      rw [hfind] at hplace
      constructor
      · rintro ⟨flaw, hrefused⟩
        cases hwith : parms.place storage with
        | ok found =>
            rw [Op.update_of_ok hwith] at hrefused
            cases hrefused
        | error fault =>
            rw [Op.update_of_fault hwith] at hrefused
            cases hrefused
            obtain ⟨reason, hreason⟩ :=
              Storage.obtainWith_raises hwf _ _ _ (hplace.symm.trans hwith)
            cases hreason
      · intro hsome
        cases hsome

/-- Where there is room for the words of a list, it is placed. -/
theorem place_of_hasRoom {parms : ParmList} (hwf : storage.WellFormed)
    (hunmarked : ∀ address ∈ parms.leading ++ [parms.last], marked address = false)
    (hroom : storage.HasRoom (4 * parms.count)) :
    ∃ placed after, parms.place storage = .ok (placed, after) := by
  have hlength : (words parms.leading parms.last).length = 4 * parms.count := by
    rw [length_words]
    unfold count
    omega
  have hpos : 0 < (words parms.leading parms.last).length := by
    rw [length_words]
    omega
  rw [← hlength] at hroom
  have hnone : (parms.leading ++ [parms.last]).find? marked = none :=
    List.find?_eq_none.mpr (by simpa using hunmarked)
  obtain ⟨placed, larger, hobtain, -⟩ :=
    Storage.obtain_of_hasRoom hwf hpos hroom Storage.engineSubpool
  obtain ⟨after, -, hwith⟩ := Storage.obtainWith_of_obtain hwf hobtain
  refine ⟨placed, after, ?_⟩
  rw [place_eq, hnone]
  exact hwith

/-- A list that was placed is found if it has no more words than are looked
at, and otherwise refused. -/
theorem decode_of_place {parms : ParmList} {placed : Address} {after : Storage}
    (hwf : storage.WellFormed) (h : parms.place storage = .ok (placed, after)) :
    decode after placed
      = if parms.count ≤ maxParms then .ok (parms.leading ++ [parms.last])
        else fail (.invalidParmList (.unterminated maxParms)) := by
  obtain ⟨hwf', hplaced, -⟩ := place_ok hwf h
  exact decode_words hwf' hplaced.unmarked hplaced.last hplaced.words

-- =============================================================== theorem

/-- Of storage after any history: a list is refused exactly if one of its
addresses is wide, and one that is not refused is placed where there is
room. Of a list that was placed, a look at it finds the addresses, or
refuses it if they are more than thirty-two. A look at any address asks for
at most thirty-two words, one behind the other, and does not trap; it finds
something exactly if a marked word is among them and every word up to it
can be read, and what it finds are the addresses in these words, none of
them wide. -/
theorem list_round_trip (acts : List Storage.Act) (parms : ParmList) (r1 : Address) :
    let storage := Storage.Act.afterAll acts {}
    ((∃ flaw, Op.update parms.place storage = (fail (.invalidParmList flaw), storage))
        ↔ ∃ address ∈ parms.leading ++ [parms.last], marked address = true)
      ∧ ((∀ address ∈ parms.leading ++ [parms.last], marked address = false) →
          storage.HasRoom (4 * parms.count) →
          ∃ placed after, parms.place storage = .ok (placed, after))
      ∧ (∀ placed after, parms.place storage = .ok (placed, after) →
          decode after placed = if parms.count ≤ 32 then .ok (parms.leading ++ [parms.last])
            else fail (.invalidParmList (.unterminated 32)))
      ∧ (inquiry r1 [] 0 32).run storage = decode storage r1
      ∧ (∃ count ≤ 32, (inquiry r1 [] 0 32).asked storage
          = (List.range count).map fun index => r1.shift (4 * index))
      ∧ decode storage r1 ≠ .error .trap
      ∧ (∀ found, decode storage r1 = .ok found
          ↔ ∃ words last, words.length < 32 ∧ Listed storage r1 0 words last
            ∧ found = words ++ [address last])
      ∧ (∀ found, decode storage r1 = .ok found → ∀ address ∈ found, marked address = false) := by
  intro storage
  have hwf : storage.WellFormed := Storage.Act.wellFormed_afterAll acts Storage.wellFormed_empty
  refine ⟨place_refused_iff hwf parms, place_of_hasRoom hwf, ?_, ?_, ?_, ?_, ?_, ?_⟩
  · intro placed after hplace
    exact decode_of_place hwf hplace
  · rw [run_inquiry]
    exact id_map' _
  · obtain ⟨count, hcount, hasked⟩ := asked_inquiry storage r1 [] 0 32
    refine ⟨count, hcount, ?_⟩
    rwa [List.range_eq_range']
  · exact decode_untrapped hwf r1
  · intro found
    exact follow_ok_iff
  · intro found hfound
    exact follow_unmarked hfound

/-- A list behind a block: it goes to the next doubleword, and a look at it
there finds its addresses again. -/
theorem list_round_trip_two :
    let storage := Storage.Act.afterAll [.obtain 0 5] {}
    let parms : ParmList := { leading := [0x10000], last := 0x10004 }
    (∀ address ∈ parms.leading ++ [parms.last], marked address = false)
      ∧ storage.HasRoom (4 * parms.count)
      ∧ ∃ after, parms.place storage = .ok (0x10008, after)
        ∧ decode after 0x10008 = .ok [0x10000, 0x10004] := by
  intro storage parms
  have hunmarked : ∀ address ∈ parms.leading ++ [parms.last], marked address = false := by
    show ∀ address ∈ [0x10000, 0x10004], marked address = false
    rw [List.forall_mem_cons, List.forall_mem_singleton]
    decide
  have hroom : storage.HasRoom (4 * parms.count) := by
    have hwf : storage.WellFormed :=
      Storage.Act.wellFormed_afterAll [.obtain 0 5] Storage.wellFormed_empty
    apply (Storage.hasRoom_iff hwf (by decide)).mpr
    decide +kernel
  have hwhere : (Op.update parms.place storage).1 = .ok 0x10008 := by decide +kernel
  obtain ⟨-, hplaces, hfinds, -⟩ := list_round_trip [.obtain 0 5] parms 0
  obtain ⟨placed, after, hplace⟩ := hplaces hunmarked hroom
  rw [Op.update_of_ok hplace] at hwhere
  cases hwhere
  exact ⟨hunmarked, hroom, after, hplace, hfinds _ _ hplace⟩

end ParmList
end TsoBridge
