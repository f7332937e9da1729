/-
Allocations and frees come in pairs, whatever the host does. A call may
return any code, leave anything in the work area and damage storage as it
likes; what a session believes to be allocated depends on none of that.

# The ledger

Every use of the bindings leaves events in a ledger: a name that an
allocation returned was bound, and a name whose free was attempted while
the free module could be found was freed. `Outstanding` reads the ledger
alone: bound, and not freed since. The live set is the outstanding names
after every sequence of uses (`allocations_paired`).

A free whose module is missing leaves the name live: nothing was asked of
the host, and the caller may try again. A free that reached the host
leaves it dead whatever the host answered, so no name is freed twice.
-/
import TsoBridge.Proofs.AllocationCall
import TsoBridge.Proofs.Sim.Host

namespace TsoBridge

variable {H : Type} {α : Type}

-- ============================================================== ledgers

/-- What happened to a name. -/
inductive BindingEvent where
  | bound (name : DdName)
  | freed (name : DdName)
deriving DecidableEq

/-- Bound, and not freed since. -/
def Outstanding (ledger : List BindingEvent) (name : DdName) : Prop :=
  ∃ before after, ledger = before ++ .bound name :: after ∧ .freed name ∉ after

namespace Outstanding

variable {ledger : List BindingEvent} {name other : DdName}

/-- Nothing is outstanding at the start. -/
theorem nil : ¬Outstanding [] name := by
  rintro ⟨before, after, h, -⟩
  simp at h

/-- A name that was bound is outstanding. -/
theorem append_bound :
    Outstanding (ledger ++ [.bound other]) name ↔ name = other ∨ Outstanding ledger name := by
  constructor
  · rintro ⟨before, after, h, hfreed⟩
    rcases List.eq_nil_or_concat after with rfl | ⟨front, last, rfl⟩
    · have hlast := List.append_inj_right' h rfl
      simp only [List.cons.injEq, BindingEvent.bound.injEq, and_true] at hlast
      exact .inl hlast.symm
    · rw [List.concat_eq_append, ← List.cons_append, ← List.append_assoc] at h
      obtain ⟨hledger, -⟩ := List.append_inj' h rfl
      refine .inr ⟨before, front, hledger, fun hmem => hfreed ?_⟩
      simp [hmem]
  · rintro (rfl | ⟨before, after, rfl, hfreed⟩)
    · exact ⟨ledger, [], rfl, List.not_mem_nil⟩
    · refine ⟨before, after ++ [.bound other], by simp, fun hmem => ?_⟩
      rcases List.mem_append.mp hmem with hmem | hmem
      · exact hfreed hmem
      · simp at hmem

/-- A name that was freed is not. -/
theorem append_freed :
    Outstanding (ledger ++ [.freed other]) name ↔ Outstanding ledger name ∧ name ≠ other := by
  constructor
  · rintro ⟨before, after, h, hfreed⟩
    rcases List.eq_nil_or_concat after with rfl | ⟨front, last, rfl⟩
    · have hlast := List.append_inj_right' h rfl
      simp at hlast
    · rw [List.concat_eq_append, ← List.cons_append, ← List.append_assoc] at h
      obtain ⟨hledger, hlast⟩ := List.append_inj' h rfl
      simp only [List.cons.injEq, and_true] at hlast
      refine ⟨⟨before, front, hledger, fun hmem => hfreed ?_⟩, ?_⟩
      · simp [hmem]
      · rintro rfl
        exact hfreed (by simp [← hlast])
  · rintro ⟨⟨before, after, rfl, hfreed⟩, hne⟩
    refine ⟨before, after ++ [.freed other], by simp, fun hmem => ?_⟩
    rcases List.mem_append.mp hmem with hmem | hmem
    · exact hfreed hmem
    · simp only [List.mem_singleton, BindingEvent.freed.injEq] at hmem
      exact hne hmem

end Outstanding

-- ============================================================= look-ups

namespace Linkage

/-- The modules known and the calls made are the same. -/
def Still (link after : Linkage H) : Prop :=
  after.modules = link.modules ∧ after.calls = link.calls

instance : IsPreorder (Linkage H) Still where
  refl _ := ⟨rfl, rfl⟩
  trans _ _ _ h h' := ⟨h'.1.trans h.1, h'.2.trans h.2⟩

/-- The same modules, and at most one call, to `module`. -/
def CallsOnce (module : String) (link after : Linkage H) : Prop :=
  after.modules = link.modules
    ∧ (after.calls = link.calls ∨ after.calls = link.calls ++ [module])

/-- No call is at most one. -/
theorem Still.callsOnce {module : String} {link after : Linkage H} (h : Still link after) :
    CallsOnce module link after :=
  ⟨h.1, .inl h.2⟩

/-- Work on storage calls nobody. -/
theorem still_onMachine (x : Op (Machine H) α) : (onMachine x).Within Still :=
  fun _ => ⟨rfl, rfl⟩

/-- A frame makes no call of its own. -/
theorem callsOnce_framed {module : String} {x : Op (Linkage H) α}
    (h : x.Within (CallsOnce module)) : (framed x).Within (CallsOnce module) :=
  fun link => h { link with storage := link.storage.openFrame }

variable [Host H]

/-- Whether a module would be found now. -/
def finds (module : String) (link : Linkage H) : Bool :=
  (fetch module link).1.isOk

/-- A module that was fetched will be found. -/
theorem finds_of_fetch {link after : Linkage H} {module : String} {entry : EntryPoint}
    (h : fetch module link = (.ok entry, after)) : link.finds module = true := by
  unfold finds
  rw [h]
  rfl

/-- A module that will be found is fetched. -/
theorem fetch_of_finds {link : Linkage H} {module : String} (h : link.finds module = true) :
    ∃ entry after, fetch module link = (.ok entry, after) := by
  unfold finds at h
  rcases hfetch : fetch module link with ⟨_ | entry, after⟩
  · rw [hfetch] at h
    cases h
  · exact ⟨entry, after, rfl⟩

/-- A module that will not be found is not fetched. -/
theorem not_finds {link : Linkage H} {module : String} (h : link.finds module = false) :
    ∃ fault after, fetch module link = (.error fault, after) := by
  unfold finds at h
  rcases hfetch : fetch module link with ⟨fault | entry, after⟩
  · exact ⟨fault, after, rfl⟩
  · rw [hfetch] at h
    cases h

/-- A branch is one call. -/
theorem callsOnce_branch (entry : EntryPoint) (r1 : Address) :
    (branch entry r1 : Op (Linkage H) Int32).Within (CallsOnce entry.module) :=
  fun link => ⟨(branch_modules entry r1 link).1, .inr (branch_modules entry r1 link).2.1⟩

end Linkage

namespace Op

variable {β : Type} {module : String} {x : Op (Linkage H) α} {f : α → Op (Linkage H) β}

open Linkage (Still CallsOnce)

/-- What is done before the call may call nobody, and what is done after it
neither. -/
theorem Within.beforeCall (hx : x.Within Still)
    (hf : ∀ a, (f a).Within (CallsOnce module)) :
    (x >>= f).Within (CallsOnce module) := by
  refine hx.andThen hf (fun _ _ h => h.callsOnce) fun s t u hst htu => ?_
  exact ⟨htu.1.trans hst.1, by rw [← hst.2]; exact htu.2⟩

theorem Within.afterCall (hx : x.Within (CallsOnce module)) (hf : ∀ a, (f a).Within Still) :
    (x >>= f).Within (CallsOnce module) := by
  refine hx.andThen hf (fun _ _ h => h) fun s t u hst htu => ?_
  exact ⟨htu.1.trans hst.1, by rw [htu.2]; exact hst.2⟩

end Op

namespace Linkage

/-- Obtaining and writing call nobody. -/
theorem storing_still : Storing (Still : Linkage H → Linkage H → Prop) where
  obtain _ := still_onMachine _
  obtainWith _ := still_onMachine _
  write _ _ := still_onMachine _

variable [Host H] {entry : EntryPoint} {x y : Op (Linkage H) α}

/-- Work around a call makes one call at most and looks for no module. -/
theorem Exchange.callsOnce (h : Exchange entry x y) : x.Within (CallsOnce entry.module) := by
  induction h with
  | call parms h =>
      have hcall : (Linkage.call entry parms : Op (Linkage H) Int32).Within
          (CallsOnce entry.module) :=
        (still_onMachine _).beforeCall fun r1 => callsOnce_branch entry r1
      exact hcall.afterCall fun r15 => (h r15).within storing_still
  | before hx _ ih => exact (hx.within storing_still).beforeCall ih

/-- So does a service in its frame. -/
theorem Posted.callsOnce (h : Posted entry x y) : x.Within (CallsOnce entry.module) := by
  cases h with
  | framed h => exact callsOnce_framed h.callsOnce

end Linkage

namespace Bindings

open Linkage (CallsOnce)

/-- The live names are the same. -/
def SameLive (s t : Linkage H × Bindings) : Prop :=
  t.2.live = s.2.live

instance : IsPreorder (Linkage H × Bindings) SameLive where
  refl _ := rfl
  trans _ _ _ h h' := h'.trans h

/-- Work beside the bindings binds and frees nothing. -/
theorem sameLive_onFirst (x : Op (Linkage H) α) :
    (Op.onFirst x : Op (Linkage H × Bindings) α).Within SameLive :=
  fun _ => rfl

/-- Choosing a name does not bind it. -/
theorem sameLive_requestedName (wanted : AllocationRequest) :
    (requestedName wanted : Op (Linkage H × Bindings) DdName).Within SameLive := by
  unfold requestedName
  split
  · exact Op.within_lift_except _
  · exact fun _ => rfl

/-- The names are as `live` has them, with the name that was returned. -/
def Binds (live : Table DdName Unit) (r : Outcome (DdName × AllocationResult))
    (t : Linkage H × Bindings) : Prop :=
  (∀ name result, r = .ok (name, result) → t.2.live = live.insert name ())
    ∧ ∀ fault, r = .error fault → t.2.live = live

/-- A fault that left the live names alone bound nothing. -/
theorem binds_fault {live : Table DdName Unit} {fault : Fault} {t : Linkage H × Bindings}
    (h : t.2.live = live) : Binds live (.error fault) t :=
  ⟨fun _ _ hr => (by cases hr), fun _ _ => h⟩

variable [Host H]

-- ============================================================ allocating

/-- Settling binds the name assigned, or fails. -/
theorem settle_binds (capability : Capability) (requested : DdName) (result : AllocationResult)
    (s : Linkage H × Bindings) :
    (settle capability requested result).Ends s (Binds s.2.live) := by
  unfold settle
  split
  · exact binds_fault rfl
  · split
    · refine ⟨fun name bound h => ?_, fun _ h => by cases h⟩
      cases h
      rfl
    · exact (sameLive_onFirst _ s).bind (fun _ _ ht => binds_fault ht) fun _ _ ht => binds_fault ht

/-- An allocation makes the name it returns live, and a failed one leaves
the live names alone. -/
theorem allocate_binds (capability : Capability) (wanted : AllocationRequest)
    (s : Linkage H × Bindings) :
    (allocate capability wanted).Ends s (Binds s.2.live) := by
  refine (sameLive_requestedName wanted s).bind (fun requested t1 h1 => ?_)
    fun _ _ h1 => binds_fault h1
  refine (sameLive_onFirst _ t1).bind (fun entry t2 h2 => ?_)
    fun _ _ h2 => binds_fault (h2.trans h1)
  refine (sameLive_onFirst _ t2).bind (fun result t3 h3 => ?_)
    fun _ _ h3 => binds_fault (h3.trans (h2.trans h1))
  have hlive : t3.2.live = s.2.live := h3.trans (h2.trans h1)
  rw [← hlive]
  exact settle_binds capability requested result t3

/-- Work that trapped leaves its binding live. -/
theorem withBinding_of_trapped {capability : Capability} {hint : Option String}
    {work : DdName → Op (Linkage H) α} {s t : Linkage H × Bindings} {name : DdName}
    {bound : AllocationResult} {worked : Linkage H}
    (hallocate : allocate capability (.temporary hint) s = (.ok (name, bound), t))
    (hwork : work name t.1 = (.error .trap, worked)) :
    withBinding capability hint work s = (.error .trap, (worked, t.2)) := by
  show (allocate capability (.temporary hint) >>= _) s = _
  rw [Op.run_bind_of_ok hallocate]
  exact Op.run_bind_of_fault (Op.run_attempt_of_trap (Op.run_onFirst hwork))

/-- Work that ended is followed by one release. -/
theorem withBinding_of_ended {capability : Capability} {hint : Option String}
    {work : DdName → Op (Linkage H) α} {s t : Linkage H × Bindings} {name : DdName}
    {bound : AllocationResult} {result : Except Error α} {worked : Linkage H}
    (hallocate : allocate capability (.temporary hint) s = (.ok (name, bound), t))
    (hwork : work name t.1 = (Outcome.ofExcept result, worked)) :
    withBinding capability hint work s
      = (release capability name >>= fun cleanup => pure { result, cleanup }) (worked, t.2) := by
  show (allocate capability (.temporary hint) >>= _) s = _
  rw [Op.run_bind_of_ok hallocate]
  cases result with
  | ok a => exact Op.run_bind_of_ok (Op.run_attempt_of_ok (Op.run_onFirst hwork))
  | error cause => exact Op.run_bind_of_ok (Op.run_attempt_of_error (Op.run_onFirst hwork))

/-- The three ways through work with a binding: no binding, and then no
work; work that trapped; and otherwise one free from where the work
ended. -/
theorem withBinding_cases (capability : Capability) (hint : Option String)
    (work : DdName → Op (Linkage H) α) (s : Linkage H × Bindings) :
    (∃ fault t, allocate capability (.temporary hint) s = (.error fault, t)
        ∧ withBinding capability hint work s = (.error fault, t))
      ∨ (∃ name bound t worked, allocate capability (.temporary hint) s = (.ok (name, bound), t)
        ∧ work name t.1 = (.error .trap, worked)
        ∧ withBinding capability hint work s = (.error .trap, (worked, t.2)))
      ∨ ∃ name bound t result worked,
        allocate capability (.temporary hint) s = (.ok (name, bound), t)
        ∧ work name t.1 = (Outcome.ofExcept result, worked)
        ∧ withBinding capability hint work s
          = (release capability name >>= fun cleanup => pure { result, cleanup })
            (worked, t.2) := by
  rcases hallocate : allocate capability (.temporary hint) s with ⟨fault | ⟨name, bound⟩, t⟩
  · exact .inl ⟨fault, t, rfl, Op.run_bind_of_fault hallocate⟩
  · rcases hwork : work name t.1 with ⟨(cause | _) | a, worked⟩
    · exact .inr (.inr ⟨name, bound, t, .error cause, worked, rfl, hwork,
        withBinding_of_ended hallocate hwork⟩)
    · exact .inr (.inl ⟨name, bound, t, worked, rfl, hwork,
        withBinding_of_trapped hallocate hwork⟩)
    · exact .inr (.inr ⟨name, bound, t, .ok a, worked, rfl, hwork,
        withBinding_of_ended hallocate hwork⟩)

-- ============================================================== freeing

/-- The bindings without a name. -/
def without (bindings : Bindings) (name : DdName) : Bindings :=
  { bindings with live := bindings.live.erase name }

/-- A name that is not live cannot be freed, and nobody is asked. -/
theorem free_unbound {name : DdName} {s : Linkage H × Bindings} (capability : Capability)
    (h : s.2.isLive name = false) :
    free capability name s = (TsoBridge.fail (.notAllocated name.text), s) := by
  show (if !(s.2.isLive name) then _ else _ : Op (Linkage H × Bindings) AllocationResult) s = _
  rw [h]
  rfl

/-- A live name whose free module is missing: the free ends where the
search did. -/
theorem free_eq_fault {name : DdName} {s : Linkage H × Bindings} (capability : Capability)
    {fault : Fault} {after : Linkage H} (hlive : s.2.isLive name = true)
    (hfetch : Linkage.fetch "TSODFRE" s.1 = (.error fault, after)) :
    free capability name s = (.error fault, (after, s.2)) := by
  show (if !(s.2.isLive name) then _ else _ : Op (Linkage H × Bindings) AllocationResult) s = _
  rw [hlive, if_neg (by decide), Op.run_bind_of_fault (Op.run_onFirst hfetch)]

/-- A name whose free module is missing stays as it is. -/
theorem free_missing {s : Linkage H × Bindings} (capability : Capability) (name : DdName)
    (h : s.1.finds "TSODFRE" = false) :
    (free capability name).Ends s fun r t =>
      (∃ cause, r = .error cause) ∧ t.2 = s.2 ∧ t.1.calls = s.1.calls := by
  unfold Op.Ends
  by_cases hlive : s.2.isLive name = true
  · obtain ⟨fault, after, hfetch⟩ := Linkage.not_finds h
    have hcalls := (Linkage.fetch_ends "TSODFRE" s.1).fault hfetch
    rw [free_eq_fault capability hlive hfetch]
    exact ⟨⟨fault, rfl⟩, rfl, hcalls.1⟩
  · rw [Bool.not_eq_true] at hlive
    rw [free_unbound capability hlive]
    exact ⟨⟨_, rfl⟩, rfl, rfl⟩

/-- The value of a free, or the refusal of the host. -/
def freedOr (name : DdName) (result : AllocationResult) :
    Op (Linkage H × Bindings) AllocationResult :=
  if result.succeeded then pure result
  else Op.fail (.allocationFailed name.text result.serviceRc result.reasonCode
    result.catalogRc result.secondaryFlags)

/-- A live name whose free module is there: the name is gone before the
host is asked. -/
theorem free_eq {name : DdName} {s : Linkage H × Bindings} (capability : Capability)
    {entry : EntryPoint} {after : Linkage H} (hlive : s.2.isLive name = true)
    (hfetch : Linkage.fetch "TSODFRE" s.1 = (.ok entry, after)) :
    free capability name s
      = (Op.onFirst (requestFree capability name.text) >>= freedOr name)
        (after, s.2.without name) := by
  show (if !(s.2.isLive name) then _ else _ : Op (Linkage H × Bindings) AllocationResult) s = _
  rw [hlive, if_neg (by decide), Op.run_bind_of_ok (Op.run_onFirst hfetch)]
  rfl

/-- Such a free leaves what the request leaves. -/
theorem free_snd {name : DdName} {s : Linkage H × Bindings} (capability : Capability)
    {entry : EntryPoint} {after : Linkage H} (hlive : s.2.isLive name = true)
    (hfetch : Linkage.fetch "TSODFRE" s.1 = (.ok entry, after)) :
    (free capability name s).2
      = ((requestFree capability name.text after).2, s.2.without name) := by
  rw [free_eq capability hlive hfetch]
  rcases hrequest : requestFree capability name.text after with ⟨fault | result, freed⟩
  · rw [Op.run_bind_of_fault (Op.run_onFirst hrequest)]
  · rw [Op.run_bind_of_ok (Op.run_onFirst hrequest)]
    unfold freedOr
    split
    · rfl
    · rfl

/-- A live name whose free module is there is freed with one call at
most. -/
theorem free_found {name : DdName} {s : Linkage H × Bindings} (capability : Capability)
    {entry : EntryPoint} {after : Linkage H} (hlive : s.2.isLive name = true)
    (hfetch : Linkage.fetch "TSODFRE" s.1 = (.ok entry, after)) :
    (free capability name).Ends s fun _ t =>
      t.2 = s.2.without name ∧ CallsOnce entry.module after t.1 := by
  have hknown := ((Linkage.fetch_ends "TSODFRE" s.1).ok hfetch).2.2 entry rfl
  have hrequest : (requestFree capability name.text).Ends after fun _ t =>
      CallsOnce entry.module after t := by
    unfold requestFree Op.Ends
    rw [Op.run_bind_of_ok (Linkage.fetch_known hknown)]
    exact (posted_free entry capability name.text).callsOnce after
  unfold Op.Ends
  rw [free_snd capability hlive hfetch]
  exact ⟨rfl, hrequest⟩

/-- Whether an outcome is a trap. -/
def trapped (r : Outcome α) : Bool :=
  match r with
  | .error .trap => true
  | _ => false

/-- A release leaves what the free leaves and fails with a trap only. -/
theorem release_cases (capability : Capability) (name : DdName) (s : Linkage H × Bindings) :
    (∃ t, release capability name s = (.error .trap, t)
        ∧ free capability name s = (.error .trap, t))
      ∨ ∃ failure r t, release capability name s = (.ok failure, t)
        ∧ free capability name s = (r, t) ∧ trapped r = false := by
  rcases hfree : free capability name s with ⟨(cause | _) | result, t⟩
  · refine .inr ⟨some (cleanupFailure name cause), _, t, ?_, rfl, rfl⟩
    exact Op.run_bind_of_ok (Op.run_attempt_of_error hfree)
  · exact .inl ⟨t, Op.run_bind_of_fault (Op.run_attempt_of_trap hfree), rfl⟩
  · exact .inr ⟨none, _, t, Op.run_bind_of_ok (Op.run_attempt_of_ok hfree), rfl, rfl⟩

/-- A release leaves what the free leaves. -/
theorem release_snd (capability : Capability) (name : DdName) (s : Linkage H × Bindings) :
    (release capability name s).2 = (free capability name s).2 := by
  rcases release_cases capability name s with ⟨t, hrelease, hfree⟩ | ⟨_, _, t, hrelease, hfree, -⟩
  · rw [hrelease, hfree]
  · rw [hrelease, hfree]

/-- Several releases, one after the other. -/
theorem releaseEach_cons {capability : Capability} {name : DdName} {rest : List DdName}
    {s t : Linkage H × Bindings} {failure : Option Error}
    (h : release capability name s = (.ok failure, t)) :
    releaseEach capability (name :: rest) s
      = (releaseEach capability rest >>= fun failures => pure (failure.toList ++ failures)) t :=
  Op.run_bind_of_ok h

-- ============================================================ agreement

/-- The live names are the outstanding ones. -/
def Agrees (ledger : List BindingEvent) (bindings : Bindings) : Prop :=
  ∀ name, bindings.isLive name = true ↔ Outstanding ledger name

/-- What the ledger gains from the outcome of an allocation. -/
def boundBy : Outcome (DdName × AllocationResult) → List BindingEvent
  | .ok (name, _) => [.bound name]
  | .error _ => []

/-- What the ledger gains from an attempt to free a name. -/
def freedBy (link : Linkage H) (name : DdName) : List BindingEvent :=
  if link.finds "TSODFRE" then [.freed name] else []

/-- An allocation writes into the ledger what it binds. -/
theorem agrees_allocate {ledger : List BindingEvent} {s : Linkage H × Bindings}
    (h : Agrees ledger s.2) (capability : Capability) (wanted : AllocationRequest) :
    Agrees (ledger ++ boundBy (allocate capability wanted s).1)
      (allocate capability wanted s).2.2 := by
  have hbinds := allocate_binds capability wanted s
  rcases hallocate : allocate capability wanted s with ⟨fault | ⟨bound, result⟩, t⟩
  · have hlive := (hbinds.fault hallocate).2 fault rfl
    intro name
    unfold isLive boundBy
    rw [List.append_nil, hlive]
    exact h name
  · have hlive := (hbinds.ok hallocate).1 bound result rfl
    intro name
    unfold isLive boundBy
    rw [hlive, Table.contains_insert, Outstanding.append_bound, Bool.or_eq_true, decide_eq_true_eq,
      ← h name]
    rfl

/-- A free writes into the ledger what it takes away. -/
theorem agrees_free {ledger : List BindingEvent} {s : Linkage H × Bindings}
    (h : Agrees ledger s.2) (capability : Capability) (name : DdName) :
    Agrees (ledger ++ freedBy s.1 name) (free capability name s).2.2 := by
  intro other
  unfold freedBy
  by_cases hlive : s.2.isLive name = true
  · by_cases hfinds : s.1.finds "TSODFRE" = true
    · obtain ⟨entry, after, hfetch⟩ := Linkage.fetch_of_finds hfinds
      have hbindings := (free_found capability hlive hfetch).1
      rw [hbindings, if_pos hfinds, Outstanding.append_freed, ← h other]
      unfold isLive without
      rw [Table.contains_erase, Bool.and_eq_true, decide_eq_true_eq]
    · rw [Bool.not_eq_true] at hfinds
      have hsame := (free_missing capability name hfinds).2.1
      rw [hsame, hfinds, if_neg (by decide), List.append_nil]
      exact h other
  · rw [Bool.not_eq_true] at hlive
    rw [free_unbound capability hlive]
    by_cases hfinds : s.1.finds "TSODFRE" = true
    · rw [if_pos hfinds, Outstanding.append_freed, ← h other]
      constructor
      · intro hother
        refine ⟨hother, ?_⟩
        rintro rfl
        rw [hlive] at hother
        cases hother
      · exact fun hother => hother.1
    · rw [if_neg hfinds, List.append_nil]
      exact h other

/-- A result is no trap. -/
theorem trapped_ofExcept (result : Except Error α) :
    trapped (Outcome.ofExcept result) = false := by
  cases result <;> rfl

/-- What the ledger gains from work with a binding: the name that was
bound and, unless the work trapped, its free. -/
def bracketedBy (capability : Capability) (hint : Option String)
    (work : DdName → Op (Linkage H) α) (s : Linkage H × Bindings) : List BindingEvent :=
  match allocate capability (.temporary hint) s with
  | (.ok (name, _), t) =>
    let (result, worked) := work name t.1
    .bound name :: if trapped result then [] else freedBy worked name
  | (.error _, _) => []

/-- Work with a binding writes both, the free also where the work failed. -/
theorem agrees_withBinding {ledger : List BindingEvent} {s : Linkage H × Bindings}
    (h : Agrees ledger s.2) (capability : Capability) (hint : Option String)
    (work : DdName → Op (Linkage H) α) :
    Agrees (ledger ++ bracketedBy capability hint work s)
      (withBinding capability hint work s).2.2 := by
  have hbound := agrees_allocate h capability (.temporary hint)
  unfold bracketedBy
  rcases withBinding_cases capability hint work s with ⟨fault, t, hallocate, hrun⟩
    | ⟨name, bound, t, worked, hallocate, hwork, hrun⟩
    | ⟨name, bound, t, result, worked, hallocate, hwork, hrun⟩
  · rw [hallocate] at hbound ⊢
    rw [hrun]
    exact hbound
  · rw [hallocate] at hbound ⊢
    rw [hrun]
    simpa [hwork, trapped, boundBy] using hbound
  · rw [hallocate] at hbound ⊢
    have hfreed := agrees_free (s := (worked, t.2)) hbound capability name
    rw [hrun, Op.run_map_snd, release_snd]
    simpa [hwork, trapped_ofExcept, boundBy] using hfreed

/-- What the ledger gains from freeing several names one after the other;
a trap ends it. -/
def freedEach (capability : Capability) :
    List DdName → Linkage H × Bindings → List BindingEvent
  | [], _ => []
  | name :: rest, s =>
    let (result, t) := free capability name s
    freedBy s.1 name ++ if trapped result then [] else freedEach capability rest t

/-- A sweep writes every free it came to. -/
theorem agrees_releaseEach {ledger : List BindingEvent} {s : Linkage H × Bindings}
    (h : Agrees ledger s.2) (capability : Capability) (names : List DdName) :
    Agrees (ledger ++ freedEach capability names s) (releaseEach capability names s).2.2 := by
  induction names generalizing ledger s with
  | nil =>
      unfold freedEach
      rw [List.append_nil]
      exact h
  | cons name rest ih =>
      have hagrees := agrees_free h capability name
      unfold freedEach
      rcases release_cases capability name s with
        ⟨t, hrelease, hfree⟩ | ⟨failure, r, t, hrelease, hfree, hgoes⟩
      · have hrun : releaseEach capability (name :: rest) s = (.error .trap, t) :=
          Op.run_bind_of_fault hrelease
        rw [hfree] at hagrees ⊢
        rw [hrun]
        simpa [trapped] using hagrees
      · rw [hfree] at hagrees ⊢
        have hrest := ih hagrees
        rw [releaseEach_cons hrelease, Op.run_map_snd]
        simpa [hgoes] using hrest

-- ============================================================ sweeping

/-- The free module stays where it was found. -/
theorem finds_free {s : Linkage H × Bindings} (capability : Capability) (name : DdName)
    (h : s.1.finds "TSODFRE" = true) : (free capability name s).2.1.finds "TSODFRE" = true := by
  by_cases hlive : s.2.isLive name = true
  · obtain ⟨entry, after, hfetch⟩ := Linkage.fetch_of_finds h
    have hknown := ((Linkage.fetch_ends "TSODFRE" s.1).ok hfetch).2.2 entry rfl
    have hmodules := (free_found capability hlive hfetch).2.1
    rw [← hmodules] at hknown
    exact Linkage.finds_of_fetch (Linkage.fetch_known hknown)
  · rw [Bool.not_eq_true] at hlive
    rw [free_unbound capability hlive]
    exact h

/-- A live name is gone after a free that found its module, and every
other name is as it was. -/
theorem isLive_free {s : Linkage H × Bindings} (capability : Capability) (name other : DdName)
    (h : s.1.finds "TSODFRE" = true) :
    (free capability name s).2.2.isLive other = (s.2.isLive other && decide (other ≠ name)) := by
  by_cases hlive : s.2.isLive name = true
  · obtain ⟨entry, after, hfetch⟩ := Linkage.fetch_of_finds h
    rw [(free_found capability hlive hfetch).1]
    exact Table.contains_erase s.2.live name other
  · rw [Bool.not_eq_true] at hlive
    rw [free_unbound capability hlive]
    by_cases hother : other = name
    · rw [hother, hlive]
      rfl
    · simp [hother]

/-- Freeing names one after the other ends with a trap, or all of them are
gone. -/
theorem releaseEach_sweeps {s : Linkage H × Bindings} (capability : Capability)
    (names : List DdName) (h : s.1.finds "TSODFRE" = true) :
    (releaseEach capability names).Ends s fun r t =>
      r = .error .trap ∨ (∃ failures, r = .ok failures)
        ∧ ∀ name, t.2.isLive name = true → s.2.isLive name = true ∧ name ∉ names := by
  induction names generalizing s with
  | nil => exact .inr ⟨⟨[], rfl⟩, fun name hname => ⟨hname, List.not_mem_nil⟩⟩
  | cons first rest ih =>
      have hfinds := finds_free capability first h
      rcases release_cases capability first s with
        ⟨t, hrelease, -⟩ | ⟨failure, r, t, hrelease, hfree, -⟩
      · have hrun : releaseEach capability (first :: rest) s = (.error .trap, t) :=
          Op.run_bind_of_fault hrelease
        unfold Op.Ends
        rw [hrun]
        exact .inl rfl
      · rw [hfree] at hfinds
        have hswept : (releaseEach capability rest >>= fun failures =>
            pure (failure.toList ++ failures)).Ends t fun r u =>
              r = .error .trap ∨ (∃ failures, r = .ok failures)
                ∧ ∀ name, u.2.isLive name = true → t.2.isLive name = true ∧ name ∉ rest := by
          refine (ih hfinds).bind (fun failures u hu => ?_) fun fault u hu => ?_
          · rcases hu with hu | hu
            · cases hu
            · exact .inr ⟨⟨_, rfl⟩, hu.2⟩
          · rcases hu with hu | ⟨⟨failures, hu⟩, -⟩
            · exact .inl (by rw [Except.error.inj hu])
            · cases hu
        unfold Op.Ends
        rw [releaseEach_cons hrelease]
        refine hswept.imp_right fun hrest => ⟨hrest.1, fun name hname => ?_⟩
        obtain ⟨hkept, hnot⟩ := hrest.2 name hname
        have hstill := isLive_free capability first name h
        rw [hfree, hkept, Eq.comm, Bool.and_eq_true, decide_eq_true_eq] at hstill
        exact ⟨hstill.1, by simp [hstill.2, hnot]⟩

end Bindings

-- ================================================================= acts

/-- One use of the bindings. Work with a binding may do anything to the
machine, but it cannot file a module under another's name. -/
inductive Act (H : Type) [Host H] : Type 1 where
  | allocate (capability : Capability) (wanted : AllocationRequest)
  | free (capability : Capability) (name : DdName)
  | withBinding {α : Type} (capability : Capability) (hint : Option String)
      (work : DdName → Op (Linkage H) α)
      (h : ∀ name link, link.Named → (work name link).2.Named)
  | releaseAll (capability : Capability)

namespace Act

open Bindings

variable [Host H]

/-- What a use leaves, however it ends. -/
def after : Act H → Linkage H × Bindings → Linkage H × Bindings
  | .allocate capability wanted, s => (Bindings.allocate capability wanted s).2
  | .free capability name, s => (Bindings.free capability name s).2
  | .withBinding capability hint work _, s => (Bindings.withBinding capability hint work s).2
  | .releaseAll capability, s => (Bindings.releaseAll capability s).2

/-- What the ledger gains from a use. -/
def events : Act H → Linkage H × Bindings → List BindingEvent
  | .allocate capability wanted, s => boundBy (Bindings.allocate capability wanted s).1
  | .free _ name, s => freedBy s.1 name
  | .withBinding capability hint work _, s => bracketedBy capability hint work s
  | .releaseAll capability, s => freedEach capability s.2.liveNames s

/-- What a sequence of uses leaves. -/
def afterAll : List (Act H) → Linkage H × Bindings → Linkage H × Bindings
  | [], s => s
  | act :: rest, s => afterAll rest (act.after s)

/-- The ledger of a sequence of uses. -/
def ledger : List (Act H) → Linkage H × Bindings → List BindingEvent
  | [], _ => []
  | act :: rest, s => act.events s ++ ledger rest (act.after s)

/-- So every act keeps ledger and live names together. -/
theorem agrees_after {log : List BindingEvent} {s : Linkage H × Bindings}
    (h : Agrees log s.2) (act : Act H) : Agrees (log ++ act.events s) (act.after s).2 := by
  cases act with
  | allocate capability wanted => exact agrees_allocate h capability wanted
  | free capability name => exact agrees_free h capability name
  | withBinding capability hint work hwork => exact agrees_withBinding h capability hint work
  | releaseAll capability => exact agrees_releaseEach h capability s.2.liveNames

/-- The live names are the outstanding ones after every sequence of
uses. -/
theorem agrees_afterAll {log : List BindingEvent} {s : Linkage H × Bindings}
    (h : Agrees log s.2) (acts : List (Act H)) :
    Agrees (log ++ ledger acts s) (afterAll acts s).2 := by
  induction acts generalizing log s with
  | nil =>
      unfold ledger
      rw [List.append_nil]
      exact h
  | cons act rest ih =>
      have hrest := ih (agrees_after h act)
      rw [List.append_assoc] at hrest
      exact hrest

variable [Host.LoadsByName H]

/-- Modules stay filed under their names, whatever the act. -/
theorem named_allocate {s : Linkage H × Bindings} (h : s.1.Named) (capability : Capability)
    (wanted : AllocationRequest) : (Bindings.allocate capability wanted s).2.1.Named := by
  have huses : (Bindings.allocate capability wanted :
      Op (Linkage H × Bindings) (DdName × AllocationResult)).Uses Prod.fst (fun _ => True)
        fun _ => True := uses_allocate trivial trivial capability wanted
  exact (huses s h).1.named h

theorem named_free {s : Linkage H × Bindings} (h : s.1.Named) (capability : Capability)
    (name : DdName) : (Bindings.free capability name s).2.1.Named := by
  have huses : (Bindings.free capability name : Op (Linkage H × Bindings) AllocationResult).Uses
      Prod.fst (fun _ => True) fun _ => True := uses_free trivial capability name
  exact (huses s h).1.named h

theorem named_after {s : Linkage H × Bindings} (h : s.1.Named) (act : Act H) :
    (act.after s).1.Named := by
  cases act with
  | allocate capability wanted => exact named_allocate h capability wanted
  | free capability name => exact named_free h capability name
  | releaseAll capability =>
      have huses : (releaseEach capability s.2.liveNames :
          Op (Linkage H × Bindings) (List Error)).Uses Prod.fst (fun _ => True) fun _ => True :=
        uses_releaseEach trivial capability _
      exact (huses s h).1.named h
  | withBinding capability hint work hwork =>
      have hbound := named_allocate h capability (.temporary hint)
      show (Bindings.withBinding capability hint work s).2.1.Named
      rcases withBinding_cases capability hint work s with ⟨fault, t, hallocate, hrun⟩
        | ⟨name, bound, t, worked, hallocate, hran, hrun⟩
        | ⟨name, bound, t, result, worked, hallocate, hran, hrun⟩
      · rw [hallocate] at hbound
        rw [hrun]
        exact hbound
      · rw [hallocate] at hbound
        have hworked := hwork name t.1 hbound
        rw [hran] at hworked
        rw [hrun]
        exact hworked
      · rw [hallocate] at hbound
        have hworked := hwork name t.1 hbound
        rw [hran] at hworked
        rw [hrun, Op.run_map_snd, release_snd]
        exact named_free (s := (worked, t.2)) hworked capability name

theorem named_afterAll {s : Linkage H × Bindings} (h : s.1.Named) (acts : List (Act H)) :
    (afterAll acts s).1.Named := by
  induction acts generalizing s with
  | nil => exact h
  | cons act rest ih => exact ih (named_after h act)

end Act

-- ============================================================== returning

/-- Every call comes back, and leaves storage that is storage. -/
def Host.ComesBack (H : Type) [Host H] : Prop :=
  ∀ (m : Machine H) (entry : EntryPoint) (r1 : Address), m.storage.WellFormed →
    (Host.call m entry r1).1.isSome = true ∧ (Host.call m entry r1).2.storage.WellFormed

namespace Bindings

open Act (named_free)

variable [Host H]

/-- Looking for a module does not trap. -/
theorem fetch_goes (module : String) (link : Linkage H) :
    trapped (Linkage.fetch module link).1 = false := by
  unfold Linkage.fetch
  simp only
  rcases link.modules.get? (Text.upper module) with _ | (_ | entry)
  · rcases Host.load link.host (Text.upper module) with ⟨_ | entry, host⟩ <;> rfl
  · rfl
  · rfl

/-- A request is posted, called and read without a trap. -/
theorem request_goes (hback : Host.ComesBack H) {prepare : Address → Outcome Bytes}
    {link : Linkage H} (hwf : link.storage.WellFormed) (hfills : WorkArea.Fills prepare)
    {block : Nat} (hblock : block + 20 ≤ WorkArea.size) (entry : EntryPoint)
    (capability : Capability) (ddname : String) :
    trapped (request entry capability ddname prepare (WorkArea.decode · block) link).1 = false := by
  rcases request_ends hwf hfills entry capability ddname (WorkArea.decode · block) with
    ⟨cause, -, hr, -⟩ | ⟨storage, bytes, name, rc, catalogRc, area, r1, -, hsent, -, hr, -⟩
  · rw [hr]
    rfl
  · rw [hr]
    obtain ⟨hsome, hwf'⟩ := hback ({ link with storage } : Linkage H).toMachine entry r1
      hsent.wellFormed
    obtain ⟨r15, hr15⟩ := Option.isSome_iff_exists.mp hsome
    have hbranch : Linkage.branch entry r1 { link with storage }
        = (.ok r15, (Linkage.branch entry r1 { link with storage }).2) := by
      refine Prod.ext ?_ rfl
      unfold Linkage.branch
      rcases hcall : Host.call ({ link with storage } : Linkage H).toMachine entry r1 with
        ⟨value, machine⟩
      rw [hcall] at hr15
      cases hr15
      rfl
    have hleft : (Linkage.branch entry r1 { link with storage }).2.storage.WellFormed := by
      have hmachine := (Linkage.branch_modules entry r1 { link with storage }).2.2
      show (Linkage.branch entry r1 { link with storage }).2.toMachine.storage.WellFormed
      rw [hmachine]
      exact hwf'
    have hcalled : (callWith entry (WorkArea.decode · block) (area, r1)).Ends
        { link with storage } fun r _ => trapped r = false := by
      refine Op.Ends.bind_of_ok hbranch ?_
      have hsize : WorkArea.size ≤ Storage.addressLimit := by decide
      rcases Storage.read_cases _ area hsize with ⟨answer, hread⟩ | ⟨cause, hread⟩
      · obtain ⟨base, held, offset, -, -, hfit, rfl⟩ := Storage.read_ok hleft hread
        refine Op.ends_examine_of_ok hread ?_
        exact Op.ends_lift_of_ok (WorkArea.decode_eq (Field.length_slice hfit) hblock) rfl
      · have hrun : Linkage.read area WorkArea.size (Linkage.branch entry r1 { link with storage }).2
            = (.error (.error cause), (Linkage.branch entry r1 { link with storage }).2) :=
          Prod.ext hread rfl
        unfold Op.Ends
        rw [Op.run_bind_of_fault hrun]
        rfl
    exact hcalled

/-- So is a request to free. -/
theorem requestFree_goes (hback : Host.ComesBack H) {link : Linkage H}
    (hwf : link.storage.WellFormed) (capability : Capability) (ddname : String) :
    trapped (requestFree capability ddname link).1 = false := by
  have hgoes := fetch_goes "TSODFRE" link
  unfold requestFree
  rcases hfetch : Linkage.fetch "TSODFRE" link with ⟨fault | entry, after⟩
  · rw [Op.run_bind_of_fault hfetch]
    rw [hfetch] at hgoes
    cases fault with
    | error cause => rfl
    | trap => cases hgoes
  · rw [Op.run_bind_of_ok hfetch]
    have hstorage := ((Linkage.fetch_ends "TSODFRE" link).ok hfetch).2.1
    exact request_goes hback (by rw [hstorage]; exact hwf) (WorkArea.fills_prepareFree ddname)
      (by decide) entry capability ddname

/-- Where calls come back, a free does. -/
theorem free_goes (hback : Host.ComesBack H) {s : Linkage H × Bindings}
    (hwf : s.1.storage.WellFormed) (capability : Capability) (name : DdName) :
    trapped (free capability name s).1 = false := by
  by_cases hlive : s.2.isLive name = true
  · have hgoes := fetch_goes "TSODFRE" s.1
    have hstorage := (Linkage.fetch_ends "TSODFRE" s.1).2.1
    rcases hfetch : Linkage.fetch "TSODFRE" s.1 with ⟨fault | entry, after⟩
    · rw [hfetch] at hgoes
      rw [free_eq_fault capability hlive hfetch]
      cases fault with
      | error cause => rfl
      | trap => cases hgoes
    · rw [hfetch] at hstorage
      have hrequest := requestFree_goes hback (by rw [hstorage]; exact hwf : after.storage.WellFormed)
        capability name.text
      have hfreed : (Op.onFirst (requestFree capability name.text) >>= freedOr name).Ends
          (after, s.2.without name) fun r _ => trapped r = false := by
        have hfirst : (Op.onFirst (requestFree capability name.text)).Ends
            (after, s.2.without name) fun r _ => trapped r = false := hrequest
        refine hfirst.bind (fun result t _ => ?_) fun fault t h => h
        unfold freedOr
        split
        · rfl
        · rfl
      rw [free_eq capability hlive hfetch]
      exact hfreed
  · rw [Bool.not_eq_true] at hlive
    rw [free_unbound capability hlive]
    rfl

variable [Host.LoadsByName H]

/-- Where calls come back, freeing names one after the other does. -/
theorem releaseEach_goes (hback : Host.ComesBack H) {s : Linkage H × Bindings}
    (hnamed : s.1.Named) (hwf : s.1.storage.WellFormed) (capability : Capability)
    (names : List DdName) : trapped (releaseEach capability names s).1 = false := by
  induction names generalizing s with
  | nil => rfl
  | cons name rest ih =>
      have hgoes := free_goes hback hwf capability name
      have huses : (free capability name : Op (Linkage H × Bindings) AllocationResult).Uses
          Prod.fst (fun _ => True) fun _ => True := uses_free trivial capability name
      have hreach := (huses s hnamed).1
      rcases release_cases capability name s with
        ⟨t, hrelease, hfree⟩ | ⟨failure, r, t, hrelease, hfree, -⟩
      · rw [hfree] at hgoes
        cases hgoes
      · rw [hfree] at hreach
        have hrest := ih (hreach.named hnamed)
          (hreach.wellFormed (fun m entry r1 _ hm => (hback m entry r1 hm).2) hwf)
        rw [releaseEach_cons hrelease]
        rcases hrun : releaseEach capability rest t with ⟨(cause | _) | failures, u⟩
        · rw [Op.run_bind_of_fault hrun]
          rfl
        · rw [hrun] at hrest
          cases hrest
        · rw [Op.run_bind_of_ok hrun]
          rfl

-- =============================================================== pairing

/-- What one free does to the session: at most one call, to the free
module; and the name is gone if that module was found, whatever the host
answered. -/
structure Freed (name : DdName) (s t : Linkage H × Bindings) : Prop where
  calls : t.1.calls = s.1.calls ∨ t.1.calls = s.1.calls ++ ["TSODFRE"]
  found : s.1.finds "TSODFRE" = true → t.2 = s.2.without name
  missing : s.1.finds "TSODFRE" = false → t.2 = s.2 ∧ t.1.calls = s.1.calls

/-- A free of a live name takes it away, and calls the free service at most
once. -/
theorem free_freed {s : Linkage H × Bindings} {name : DdName} (hnamed : s.1.Named)
    (capability : Capability) (hlive : s.2.isLive name = true) :
    Freed name s (free capability name s).2 := by
  by_cases hfinds : s.1.finds "TSODFRE" = true
  · obtain ⟨entry, after, hfetch⟩ := Linkage.fetch_of_finds hfinds
    have hentry : entry.module = "TSODFRE" := by
      have huses : (Linkage.fetch "TSODFRE" : Op (Linkage H) EntryPoint).Uses id (fun _ => True)
          fun entry => entry.module = "TSODFRE" := Linkage.uses_fetch_named (Linkage.upper_sought (by simp))
      exact ((huses s.1 hnamed).ok hfetch).2 entry rfl
    have hcalls := ((Linkage.fetch_ends "TSODFRE" s.1).ok hfetch).1
    obtain ⟨hgone, -, hmade⟩ := free_found capability hlive hfetch
    rw [hcalls, hentry] at hmade
    refine ⟨hmade, fun _ => hgone, fun h => ?_⟩
    rw [hfinds] at h
    cases h
  · rw [Bool.not_eq_true] at hfinds
    obtain ⟨-, hkept, hcalls⟩ := free_missing capability name hfinds
    refine ⟨.inl hcalls, fun h => ?_, fun _ => ⟨hkept, hcalls⟩⟩
    rw [hfinds] at h
    cases h

/-- What holds of bindings with a ledger. The live names are the
outstanding ones, and each use of the bindings keeps to its part: an
allocation binds the name it returns or nothing, a free asks once or not
at all, work with a binding is followed by one free of that binding, and
a sweep leaves nothing. -/
structure Paired (ledger : List BindingEvent) (s : Linkage H × Bindings) : Prop where
  live : Agrees ledger s.2
  bound : ∀ capability wanted name result t,
    allocate capability wanted s = (.ok (name, result), t) → t.2.live = s.2.live.insert name ()
  refused : ∀ capability wanted fault t,
    allocate capability wanted s = (.error fault, t) → t.2.live = s.2.live
  unbound : ∀ capability name, s.2.isLive name = false →
    free capability name s = (TsoBridge.fail (.notAllocated name.text), s)
  freed : ∀ capability name, s.2.isLive name = true →
    Freed name s (free capability name s).2
  /-- Without a binding there is neither work nor a free. -/
  skipped : ∀ {α : Type} capability hint (work : DdName → Op (Linkage H) α) fault t,
    allocate capability (.temporary hint) s = (.error fault, t) →
    withBinding capability hint work s = (.error fault, t)
  /-- Work that ended, with a value or an error, is followed by one free of
  the binding, which is live then. -/
  bracketed : ∀ {α : Type} capability hint (work : DdName → Op (Linkage H) α),
    (∀ name link, link.Named → (work name link).2.Named) →
    ∀ name bound t result worked,
      allocate capability (.temporary hint) s = (.ok (name, bound), t) →
      work name t.1 = (Outcome.ofExcept result, worked) →
      t.2.isLive name = true
        ∧ (withBinding capability hint work s).2 = (free capability name (worked, t.2)).2
        ∧ Freed name (worked, t.2) (withBinding capability hint work s).2
  released : ∀ capability, s.1.finds "TSODFRE" = true →
    (releaseAll capability).Ends s fun r t =>
      r = .error .trap ∨ (∃ failures, r = .ok failures) ∧ t.2.liveNames = []
  /-- A sweep that does not return is the host's doing. -/
  returned : Host.ComesBack H → s.1.storage.WellFormed →
    ∀ capability, trapped (releaseAll capability s).1 = false

/-- Named modules and an agreeing ledger are all it takes. -/
theorem paired_of_agrees {ledger : List BindingEvent} {s : Linkage H × Bindings}
    (hnamed : s.1.Named) (hagrees : Agrees ledger s.2) : Paired ledger s where
  live := hagrees
  bound capability wanted name result t h :=
    ((allocate_binds capability wanted s).ok h).1 name result rfl
  refused capability wanted fault t h :=
    ((allocate_binds capability wanted s).fault h).2 fault rfl
  unbound capability name h := free_unbound capability h
  freed capability name h := free_freed hnamed capability h
  skipped capability hint work fault t h := Op.run_bind_of_fault h
  bracketed capability hint work hwork name bound t result worked hallocate hran := by
    have hbound := ((allocate_binds capability (.temporary hint) s).ok hallocate).1 name bound rfl
    have hlive : t.2.isLive name = true := by
      unfold isLive
      rw [hbound, Table.contains_insert]
      simp
    have hallocated := Act.named_allocate hnamed capability (.temporary hint)
    rw [hallocate] at hallocated
    have hworked := hwork name t.1 hallocated
    rw [hran] at hworked
    have hleft : (withBinding capability hint work s).2 = (free capability name (worked, t.2)).2 := by
      rw [withBinding_of_ended hallocate hran, Op.run_map_snd, release_snd]
    rw [hleft]
    exact ⟨hlive, rfl, free_freed (s := (worked, t.2)) hworked capability hlive⟩
  released capability hfinds := by
    refine Op.ends_gets_bind ?_
    refine (releaseEach_sweeps capability s.2.liveNames hfinds).mono fun r t h => ?_
    refine h.imp_right fun hswept => ⟨hswept.1, ?_⟩
    refine List.eq_nil_iff_forall_not_mem.mpr fun name hname => ?_
    obtain ⟨hlive, hnot⟩ := hswept.2 name (Table.mem_keys.mp hname)
    exact hnot (Table.mem_keys.mpr hlive)
  returned hback hwf capability := releaseEach_goes hback hnamed hwf capability s.2.liveNames

/-- Allocations and frees are paired after every sequence of uses, against
every host that finds modules by their names. -/
theorem allocations_paired {link : Linkage H} (hnamed : link.Named) (names : NameGenerator)
    (acts : List (Act H)) :
    Paired (Act.ledger acts (link, { names })) (Act.afterAll acts (link, { names })) := by
  have hstart : Agrees [] ({ names } : Bindings) := by
    intro name
    constructor
    · intro h
      cases h
    · intro h
      exact absurd h Outstanding.nil
  have hagrees : Agrees ([] ++ Act.ledger acts (link, { names }))
      (Act.afterAll acts (link, { names })).2 := Act.agrees_afterAll hstart acts
  exact paired_of_agrees (Act.named_afterAll hnamed acts) hagrees

end Bindings

namespace Sim

open Bindings

/-- A host that refuses every free: the name is gone all the same, and is
not freed again. -/
theorem allocations_paired_refused :
    let link : Linkage SimHost := { host := SimHost.build { freeFailure := some 0x0438 } noon }
    let acts : List (Act SimHost) := [.allocate ⟨0⟩ (.temporary (some "WORK")),
      .allocate ⟨0⟩ (.temporary (some "KEEP")),
      .free ⟨0⟩ { text := "WORK" }, .free ⟨0⟩ { text := "WORK" }, .withBinding ⟨0⟩ none (fun _ => pure ()) fun _ _ h => h]
    link.Named
      ∧ Paired (Act.ledger acts (link, {})) (Act.afterAll acts (link, {}))
      ∧ (Act.afterAll acts (link, {})).2.liveNames = [{ text := "KEEP" }]
      ∧ (Act.afterAll acts (link, {})).1.calls
        = ["TSODALC", "TSODALC", "TSODFRE", "TSODALC", "TSODFRE"] := by
  intro link acts
  have hnamed : link.Named := fun key entry hget => by cases hget
  exact ⟨hnamed, allocations_paired hnamed {} acts, by decide +kernel, by decide +kernel⟩

end Sim
end TsoBridge
