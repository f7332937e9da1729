/-
The names in a DD table, whatever was asked of it. Requests to allocate and
to free come in any order, named and nameless, and some are refused. Three
things are kept by each of them (`DdTable.Sound`), so they hold of every
table there can be: a DD is filed under its own name, the name is in upper
case, and it is one that may be asked for unless the table made it up.

# Names that are too long

A name that is made up has the letters SYS and at least five digits. From
the hundred thousandth number on there are six, and the name has nine
characters, which is no DD name and fits no field (`made_up_name_too_long`).
That is the one way a name in the table can have a flaw.

# Numbers that run out

Only names of five digits are ever passed over, since no other can be asked
for. So a nameless request takes one number, and some of the first hundred
thousand besides (`Sound.generate_next`), and the numbers last for more
requests than there are fullwords less a hundred thousand
(`Sound.serveAll_ok`).
-/
import TsoBridge.Proofs.Sim.DdTable

namespace TsoBridge.Sim

/-- What is asked of a DD table. -/
inductive DdRequest where
  | allocate (ddname : Option String) (dsname : String) (status : DatasetStatus)
      (temporary : Bool)
  | unallocate (ddname : String)

namespace DdTable

variable {table after : DdTable} {request : DdRequest} {answer : Except DdRefusal String}

/-- The answer to a request, which is the name of the DD, and the table
after it. -/
def serve (table : DdTable) : DdRequest → Outcome (Except DdRefusal String × DdTable)
  | .allocate ddname dsname status temporary => do
    match ← table.allocate ddname dsname status temporary with
    | .ok (name, after) => return (.ok name, after)
    | .error refusal => return (.error refusal, table)
  | .unallocate ddname =>
    match table.unallocate ddname with
    | .ok (entry, after) => .ok (.ok entry.ddname, after)
    | .error refusal => .ok (.error refusal, table)

/-- The table after requests, one after the other. -/
def serveAll (table : DdTable) : List DdRequest → Outcome DdTable
  | [] => .ok table
  | request :: rest => do
    let (_, after) ← table.serve request
    after.serveAll rest

-- =============================================================== one request

/-- The ways a request can be served. -/
inductive Served (table : DdTable) : DdRequest → Except DdRefusal String → DdTable → Prop
  | named {ddname dsname : String} {status : DatasetStatus} {temporary : Bool}
      (hflaw : Name.ddnameFlaw? ddname = none)
      (hnew : table.entries.contains (Text.upper ddname) = false) :
      Served table (.allocate (some ddname) dsname status temporary) (.ok (Text.upper ddname))
        (table.enter { ddname := Text.upper ddname, dsname := Text.upper dsname, status,
                       temporary })
  | refused {ddname dsname : String} {status : DatasetStatus} {temporary : Bool}
      {refusal : DdRefusal}
      (hrefused : Name.ddnameFlaw? ddname ≠ none
        ∨ table.entries.contains (Text.upper ddname) = true) :
      Served table (.allocate (some ddname) dsname status temporary) (.error refusal) table
  | made {ddname dsname : String} {status : DatasetStatus} {temporary : Bool}
      {numbered : DdTable} (hgenerate : table.generate = .ok (ddname, numbered)) :
      Served table (.allocate none dsname status temporary) (.ok ddname)
        (numbered.enter { ddname, dsname := Text.upper dsname, status, temporary })
  | freed {ddname : String} {entry : DdEntry} (hfound : table.lookup ddname = some entry) :
      Served table (.unallocate ddname) (.ok entry.ddname) (table.without ddname)
  | absent {ddname : String} (habsent : table.lookup ddname = none) :
      Served table (.unallocate ddname) (.error .notFound) table

/-- Taking out is looking up and taking out. -/
theorem serve_unallocate (table : DdTable) (ddname : String) :
    table.serve (.unallocate ddname) = match table.lookup ddname with
      | none => .ok (.error .notFound, table)
      | some entry => .ok (.ok entry.ddname, table.without ddname) := by
  simp only [serve, unallocate]
  cases table.lookup ddname with
  | none => rfl
  | some entry => rfl

/-- What a request that was served has done. -/
theorem served (h : table.serve request = .ok (answer, after)) :
    Served table request answer after := by
  cases request with
  | unallocate ddname =>
      rw [serve_unallocate] at h
      cases hlookup : table.lookup ddname with
      | none =>
          rw [hlookup] at h
          cases h
          exact .absent hlookup
      | some entry =>
          rw [hlookup] at h
          cases h
          exact .freed hlookup
  | allocate ddname dsname status temporary =>
      obtain ⟨result, hallocate, h⟩ := Outcome.bind_ok h
      cases ddname with
      | none =>
          rcases allocate_madeUp table dsname status temporary with
            htrap | ⟨ddname, numbered, hgenerate, hmade⟩
          · rw [htrap] at hallocate
            cases hallocate
          · rw [hmade] at hallocate
            cases hallocate
            cases h
            exact .made hgenerate
      | some ddname =>
          unfold allocate at hallocate
          cases hflaw : Name.ddnameFlaw? ddname with
          | some flaw =>
              simp only [hflaw] at hallocate
              cases hallocate
              cases h
              exact .refused (.inl (by rw [hflaw]; exact Option.some_ne_none _))
          | none =>
              simp only [hflaw, enterNew_eq] at hallocate
              split at hallocate
              · next hused =>
                cases hallocate
                cases h
                exact .refused (.inr hused)
              · next hnew =>
                cases hallocate
                cases h
                exact .named hflaw (by simpa using hnew)

-- ================================================================ soundness

/-- What holds of a table there can be. -/
structure Sound (table : DdTable) : Prop where
  named : table.Named
  filed : ∀ name entry, table.entries.get? name = some entry → entry.ddname = name
  upper : ∀ name, table.entries.contains name = true → Text.upper name = name

/-- The empty table is sound. -/
theorem sound_empty : Sound {} where
  named := fun _ h => by cases h
  filed := fun _ _ h => by cases h
  upper := fun _ h => by cases h

/-- A DD is entered under its own name. -/
theorem Sound.enter {entry : DdEntry} (h : table.Sound)
    (hname : Name.ddnameFlaw? entry.ddname = none
      ∨ ∃ n, n < table.nextNumber.toNat ∧ entry.ddname = nameOf n)
    (hupper : Text.upper entry.ddname = entry.ddname) : (table.enter entry).Sound := by
  constructor
  · exact h.named.enter hname
  · intro name found hfound
    unfold DdTable.enter at hfound
    by_cases heq : name = entry.ddname
    · rw [heq, Table.get?_insert_self] at hfound
      cases hfound
      exact heq.symm
    · rw [Table.get?_insert_ne _ _ heq] at hfound
      exact h.filed name found hfound
  · intro name hcontains
    rw [contains_enter, Bool.or_eq_true, decide_eq_true_eq] at hcontains
    rcases hcontains with rfl | hold
    · exact hupper
    · exact h.upper name hold

/-- Taking a name out keeps a table sound. -/
theorem Sound.erase (h : table.Sound) (name : String) : (table.erase name).Sound := by
  constructor
  · exact h.named.erase name
  · intro other found hfound
    unfold DdTable.erase at hfound
    by_cases heq : other = name
    · rw [heq, Table.get?_erase_self] at hfound
      cases hfound
    · rw [Table.get?_erase_ne _ heq] at hfound
      exact h.filed other found hfound
  · intro other hcontains
    unfold DdTable.erase at hcontains
    rw [Table.contains_erase, Bool.and_eq_true] at hcontains
    exact h.upper other hcontains.1

/-- Passing numbers keeps the names. -/
theorem Sound.generate {name : String} (h : table.Sound)
    (hgenerate : table.generate = .ok (name, after)) : after.Sound := by
  obtain ⟨n, -, hle, hnext, -, -, hsame⟩ := generate_made hgenerate
  constructor
  · intro other hother
    rw [hsame] at hother
    rcases h.named other hother with hflaw | ⟨passed, hpassed, hname⟩
    · exact .inl hflaw
    · exact .inr ⟨passed, by omega, hname⟩
  · rw [hsame]
    exact h.filed
  · rw [hsame]
    exact h.upper

/-- Of the numbers from a hundred thousand on none is passed over. -/
theorem Sound.generate_next {name : String} (h : table.Sound)
    (hgenerate : table.generate = .ok (name, after)) :
    after.nextNumber.toNat ≤ max (table.nextNumber.toNat + 1) 100001 := by
  obtain ⟨n, -, hle, hnext, -, hbetween, -⟩ := generate_made hgenerate
  by_cases hlast : n = table.nextNumber.toNat
  · omega
  · have hsmall := contains_systemName h.named (Nat.le_sub_one_of_lt (by omega))
      (hbetween (n - 1) (by omega) (by omega))
    omega

/-- Every request keeps the table sound, and takes one number at most
beyond the first hundred thousand. -/
theorem Sound.serve (h : table.Sound) (hserve : table.serve request = .ok (answer, after)) :
    after.Sound ∧ after.nextNumber.toNat ≤ max (table.nextNumber.toNat + 1) 100001 := by
  cases served hserve with
  | named hflaw hnew =>
      refine ⟨h.enter (.inl (Name.ddnameFlaw?_upper hflaw)) (Text.upper_upper _), ?_⟩
      exact Nat.le_trans (Nat.le_succ _) (Nat.le_max_left _ _)
  | refused => exact ⟨h, Nat.le_trans (Nat.le_succ _) (Nat.le_max_left _ _)⟩
  | made hgenerate =>
      have hnext := h.generate_next hgenerate
      refine ⟨(h.generate hgenerate).enter ?_ ?_, hnext⟩
      · obtain ⟨n, hname, -, hpassed, -⟩ := generate_made hgenerate
        exact .inr ⟨n, by omega, hname⟩
      · obtain ⟨n, rfl, -⟩ := generate_made hgenerate
        exact upper_nameOf n
  | freed hfound => exact ⟨h.erase _, Nat.le_trans (Nat.le_succ _) (Nat.le_max_left _ _)⟩
  | absent => exact ⟨h, Nat.le_trans (Nat.le_succ _) (Nat.le_max_left _ _)⟩

/-- So does every request, and every list of requests. -/
theorem Sound.serveAll {requests : List DdRequest} (h : table.Sound)
    (hserve : table.serveAll requests = .ok after) : after.Sound := by
  induction requests generalizing table with
  | nil =>
      cases hserve
      exact h
  | cons request rest ih =>
      obtain ⟨⟨answer, next⟩, hfirst, hrest⟩ := Outcome.bind_ok hserve
      exact ih (h.serve hfirst).1 hrest

/-- A request is served unless it takes the last number. -/
theorem Sound.serve_ok (h : table.Sound) (hnext : table.nextNumber.toNat + 1 < UInt32.size)
    (request : DdRequest) : ∃ answer after, table.serve request = .ok (answer, after) := by
  cases request with
  | unallocate ddname =>
      rw [serve_unallocate]
      cases table.lookup ddname with
      | none => exact ⟨_, _, rfl⟩
      | some entry => exact ⟨_, _, rfl⟩
  | allocate ddname dsname status temporary =>
      have hends : ∃ result, table.allocate ddname dsname status temporary = .ok result := by
        cases ddname with
        | some name =>
            simp only [allocate]
            cases Name.ddnameFlaw? name with
            | some flaw => exact ⟨_, rfl⟩
            | none => exact ⟨_, rfl⟩
        | none =>
            obtain ⟨made, hmade⟩ := generate_ok h.named hnext
            rcases allocate_madeUp table dsname status temporary with
              htrap | ⟨name, numbered, -, hallocate⟩
            · unfold allocate at htrap
              rw [hmade] at htrap
              cases htrap
            · exact ⟨_, hallocate⟩
      obtain ⟨result, hresult⟩ := hends
      simp only [DdTable.serve, hresult]
      cases result with
      | ok made => exact ⟨_, _, rfl⟩
      | error refusal => exact ⟨_, _, rfl⟩

/-- A list of requests is served to its end while the numbers last. -/
theorem Sound.serveAll_ok {requests : List DdRequest} (h : table.Sound) (bound : Nat)
    (hnext : table.nextNumber.toNat ≤ bound) (hsmall : 100001 ≤ bound)
    (hlast : bound + requests.length < UInt32.size) :
    ∃ after, table.serveAll requests = .ok after := by
  induction requests generalizing table bound with
  | nil => exact ⟨table, rfl⟩
  | cons request rest ih =>
      rw [List.length_cons] at hlast
      obtain ⟨answer, next, hserve⟩ := h.serve_ok (by omega) request
      obtain ⟨hsound, hbound⟩ := h.serve hserve
      obtain ⟨after, hafter⟩ := ih hsound (bound + 1) (by omega) (by omega) (by omega)
      refine ⟨after, ?_⟩
      unfold DdTable.serveAll
      rw [hserve]
      exact hafter

-- =============================================================== listings

/-- A table lists its DDs by name, each once. -/
theorem Sound.list (h : table.Sound) :
    table.list.Pairwise (fun entry next => entry.ddname < next.ddname)
      ∧ ∀ entry, entry ∈ table.list ↔ table.lookup entry.ddname = some entry := by
  have hdistinct : table.entries.entries.Pairwise fun a b => a.1 ≠ b.1 :=
    table.ordered.imp fun hlt => Std.ne_of_lt hlt
  have hfiled : ∀ filed ∈ table.entries.entries, filed.2.ddname = filed.1 := fun filed hmem =>
    h.filed filed.1 filed.2 (Table.get?_of_mem hdistinct hmem)
  constructor
  · refine List.pairwise_map.mpr (table.ordered.imp_of_mem fun hfirst hsecond hlt => ?_)
    rwa [hfiled _ hfirst, hfiled _ hsecond]
  · intro entry
    constructor
    · intro hmem
      obtain ⟨⟨name, found⟩, hfound, rfl⟩ := List.mem_map.mp hmem
      have hget := Table.get?_of_mem hdistinct hfound
      have hname : found.ddname = name := hfiled _ hfound
      have hcontains : table.entries.contains name = true := Option.isSome_iff_exists.mpr ⟨_, hget⟩
      unfold lookup
      rw [hname, h.upper name hcontains]
      exact hget
    · intro hlookup
      exact List.mem_map.mpr ⟨_, Table.mem_of_get? hlookup, rfl⟩

/-- A name in a table is carried by a field unless it was made up from a
number of six digits or more. -/
theorem Sound.carried (h : table.Sound) {name : String}
    (hcontains : table.entries.contains name = true) :
    Name.ddnameFlaw? name = none ∧ CodePage.decodeField (CodePage.encodeField 8 name) = name
      ∨ ∃ n, 100000 ≤ n ∧ n < table.nextNumber.toNat ∧ name = nameOf n := by
  have hfield : Name.ddnameFlaw? name = none →
      CodePage.decodeField (CodePage.encodeField 8 name) = name := by
    intro hflaw
    obtain ⟨-, hlength, hparts⟩ := Name.ddname_of_no_flaw hflaw
    exact Name.field_of_parts hlength hparts
  rcases h.named name hcontains with hflaw | ⟨n, hpassed, rfl⟩
  · exact .inl ⟨hflaw, hfield hflaw⟩
  · by_cases hsmall : n < 100000
    · have hflaw := ddnameFlaw?_nameOf_iff.mpr hsmall
      exact .inl ⟨hflaw, hfield hflaw⟩
    · exact .inr ⟨n, Nat.not_lt.mp hsmall, hpassed, rfl⟩

/-- A request changes nothing but the DD it answers with. -/
theorem Sound.serve_lookup {name other : String} (h : table.Sound)
    (hserve : table.serve request = .ok (.ok name, after)) (hne : Text.upper other ≠ name) :
    after.lookup other = table.lookup other := by
  unfold lookup
  cases served hserve with
  | named hflaw hnew => exact Table.get?_insert_ne _ _ hne
  | @made _ dsname status temporary numbered hgenerate =>
      obtain ⟨-, -, -, -, -, -, hsame⟩ := generate_made hgenerate
      rw [← hsame]
      exact Table.get?_insert_ne _ _ hne
  | @freed ddname entry hfound =>
      refine Table.get?_erase_ne _ ?_
      rwa [← h.filed _ _ hfound]

-- ============================================================== theorem

/-- After any requests, the first one served by an empty table: every DD is
filed under its own name, in upper case, and the name is a DD name that a
field carries unless the table made it up from a number of six digits or
more. A nameless request is answered with a new name until the numbers run
out, for which it takes more requests than there are fullwords less a
hundred thousand; that name has a flaw exactly if its number has six digits.
A request that is refused leaves the table alone, and any other changes one
DD only. The DDs are listed by name, each of them once. -/
theorem names_kept (requests : List DdRequest) :
    (requests.length + 100002 ≤ UInt32.size → ∃ table, serveAll {} requests = .ok table)
      ∧ ∀ table, serveAll {} requests = .ok table →
        (∀ name entry, table.entries.get? name = some entry →
          entry.ddname = name ∧ Text.upper name = name
            ∧ (Name.ddnameFlaw? name = none
                ∧ CodePage.decodeField (CodePage.encodeField 8 name) = name
              ∨ ∃ n, 100000 ≤ n ∧ n < table.nextNumber.toNat ∧ name = nameOf n))
        ∧ (∀ dsname status temporary, table.nextNumber.toNat + 1 < UInt32.size →
          ∃ n after,
            table.serve (.allocate none dsname status temporary) = .ok (.ok (nameOf n), after)
              ∧ table.nextNumber.toNat ≤ n ∧ table.lookup (nameOf n) = none
              ∧ after.lookup (nameOf n)
                = some { ddname := nameOf n, dsname := Text.upper dsname, status, temporary }
              ∧ (Name.ddnameFlaw? (nameOf n) = none ↔ n < 100000))
        ∧ (∀ request answer after, table.serve request = .ok (answer, after) →
          match answer with
          | .error _ => after = table
          | .ok name => ∀ other, Text.upper other ≠ name → after.lookup other = table.lookup other)
        ∧ table.list.Pairwise (fun entry next => entry.ddname < next.ddname)
        ∧ ∀ entry, entry ∈ table.list ↔ table.lookup entry.ddname = some entry := by
  refine ⟨fun hfew => ?_, fun table hserved => ?_⟩
  · exact sound_empty.serveAll_ok 100001 (by decide) (Nat.le_refl _) (by omega)
  have hsound := sound_empty.serveAll hserved
  refine ⟨fun name entry hentry => ?_, fun dsname status temporary hnext => ?_,
    fun request answer after hserve => ?_, hsound.list⟩
  · have hcontains : table.entries.contains name = true :=
      Option.isSome_iff_exists.mpr ⟨entry, hentry⟩
    exact ⟨hsound.filed name entry hentry, hsound.upper name hcontains, hsound.carried hcontains⟩
  · obtain ⟨answer, after, hserve⟩ :=
      hsound.serve_ok hnext (.allocate none dsname status temporary)
    cases served hserve with
    | @made ddname _ _ _ numbered hgenerate =>
        obtain ⟨n, rfl, hle, -, hnew, -, -⟩ := generate_made hgenerate
        refine ⟨n, _, hserve, hle, ?_, ?_, ddnameFlaw?_nameOf_iff⟩
        · unfold lookup
          rw [upper_nameOf]
          unfold Table.contains at hnew
          simpa using hnew
        · unfold lookup
          rw [upper_nameOf]
          exact Table.get?_insert_self _ _ _
  · cases answer with
    | ok name => exact fun other hne => hsound.serve_lookup hserve hne
    | error refusal =>
        cases served hserve with
        | refused => rfl
        | absent => rfl

/-- A DD that is named, one that is not, and the first of them freed. -/
theorem names_kept_freed :
    let table : DdTable :=
      { entries := ⟨[("SYS00001", { ddname := "SYS00001", dsname := "A.C", status := .new,
                                    temporary := true })]⟩
        nextNumber := 2
        ordered := List.pairwise_singleton _ _ }
    serveAll {} [.allocate (some "out") "A.B" .shr false, .allocate none "a.c" .new true,
        .unallocate "OUT"] = .ok table
      ∧ table.list.Pairwise (fun entry next => entry.ddname < next.ddname)
      ∧ ∃ n after, table.serve (.allocate none "A.D" .new true) = .ok (.ok (nameOf n), after)
        ∧ 2 ≤ n := by
  intro table
  have hserved : serveAll {} [.allocate (some "out") "A.B" .shr false,
      .allocate none "a.c" .new true, .unallocate "OUT"] = .ok table := by
    decide +kernel
  obtain ⟨-, hnew, -, hlist, -⟩ := (names_kept _).2 table hserved
  obtain ⟨n, after, hserve, hle, -⟩ := hnew "A.D" .new true (by decide)
  exact ⟨hserved, hlist, n, after, hserve, hle⟩

-- --------------------------------------------------------- names too long

/-- All names in use are made of numbers that are passed. -/
def MadeUp (table : DdTable) : Prop :=
  ∀ name, table.entries.contains name = true → ∃ n, n < table.nextNumber.toNat ∧ name = nameOf n

/-- Where all names are made up, the next one is made of the next number. -/
theorem MadeUp.generate {name : String} (h : table.MadeUp)
    (hgenerate : table.generate = .ok (name, after)) :
    name = nameOf table.nextNumber.toNat
      ∧ after.nextNumber.toNat = table.nextNumber.toNat + 1 := by
  obtain ⟨n, rfl, hle, hnext, -, hbetween, -⟩ := generate_made hgenerate
  have hfirst : n = table.nextNumber.toNat := by
    by_contra hne
    obtain ⟨passed, hpassed, hname⟩ := h _ (hbetween table.nextNumber.toNat (by omega) (by omega))
    have := nameOf_inj hname
    omega
  rw [← hfirst]
  exact ⟨rfl, hnext⟩

/-- Entering the next generated name keeps to the generated ones. -/
theorem MadeUp.enter {entry : DdEntry} {n : Nat} (h : table.MadeUp)
    (hn : n < table.nextNumber.toNat) (hname : entry.ddname = nameOf n) :
    (table.enter entry).MadeUp := by
  intro name hcontains
  rw [contains_enter, Bool.or_eq_true, decide_eq_true_eq] at hcontains
  rcases hcontains with rfl | hold
  · exact ⟨n, hn, hname⟩
  · exact h name hold

/-- Nameless requests alone are answered with the names of the numbers in
turn. -/
theorem MadeUp.serveAll (dsname : String) (status : DatasetStatus) (temporary : Bool)
    (count : Nat) (h : table.MadeUp) (hsound : table.Sound)
    (hlast : table.nextNumber.toNat + count < UInt32.size) :
    ∃ after, table.serveAll (List.replicate count (.allocate none dsname status temporary))
        = .ok after
      ∧ ∀ n, table.entries.contains (nameOf n) = true
          ∨ table.nextNumber.toNat ≤ n ∧ n < table.nextNumber.toNat + count →
        after.entries.contains (nameOf n) = true := by
  induction count generalizing table with
  | zero =>
      refine ⟨table, rfl, fun n hn => hn.resolve_right fun hbetween => ?_⟩
      omega
  | succ count ih =>
      obtain ⟨answer, next, hserve⟩ :=
        hsound.serve_ok (by omega) (.allocate none dsname status temporary)
      have hsoundNext := (hsound.serve hserve).1
      cases served hserve with
      | @made ddname _ _ _ numbered hgenerate =>
          obtain ⟨rfl, hnext⟩ := h.generate hgenerate
          obtain ⟨-, -, -, -, -, -, hsame⟩ := generate_made hgenerate
          have hstill : numbered.MadeUp := by
            intro name hname
            rw [hsame] at hname
            obtain ⟨n, hpassed, hmade⟩ := h name hname
            exact ⟨n, by omega, hmade⟩
          obtain ⟨after, hafter, hnames⟩ := ih (hstill.enter (by omega) rfl) hsoundNext
            (by show numbered.nextNumber.toNat + count < _; omega)
          refine ⟨after, ?_, fun n hn => hnames n ?_⟩
          · rw [List.replicate_succ, DdTable.serveAll, hserve]
            exact hafter
          · rw [contains_enter, hsame, Bool.or_eq_true, decide_eq_true_eq]
            by_cases hhere : n = table.nextNumber.toNat
            · exact .inl (.inl (by rw [hhere]))
            · refine hn.imp .inr fun hbetween => ?_
              show numbered.nextNumber.toNat ≤ n ∧ n < numbered.nextNumber.toNat + count
              omega

/-- The hundred thousandth name is too long for a field, which carries the
name of another DD instead. -/
theorem made_up_name_too_long :
    ∃ table, serveAll {} (List.replicate 100000 (.allocate none "A" .shr false)) = .ok table
      ∧ (table.lookup "SYS100000").isSome = true
      ∧ (table.lookup "SYS10000").isSome = true
      ∧ Name.ddnameFlaw? "SYS100000" = some (.length 8)
      ∧ CodePage.decodeField (CodePage.encodeField 8 "SYS100000") = "SYS10000" := by
  obtain ⟨table, hserved, hnames⟩ :=
    MadeUp.serveAll "A" .shr false 100000 (fun _ h => by cases h) sound_empty (by decide)
  refine ⟨table, hserved, ?_, ?_, by decide +kernel, by decide +kernel⟩
  · exact hnames 100000 (.inr (by decide))
  · exact hnames 10000 (.inr (by decide))

end DdTable
end TsoBridge.Sim
