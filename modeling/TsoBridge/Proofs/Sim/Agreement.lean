/-
What the engine holds for allocated the host has allocated. `Sound` is the
invariant: every live name is a DD of the host, and no name is live twice.
The engine learns names from work areas only, so the invariant rests on
what a work area says being what happened (`allocate_ends`); a free takes
the name out of the live names first, so it may fail as it likes.

# Bracketed work

A command keeps the invariant and, unless it traps, leaves the DD table
and the live names it found, if the host frees what it is asked to free
(`Frees`): that is the contract `tidying`. Moves to modules other than the
two of the DD table are tidy because they touch neither. Work with a
binding is tidy because the free undoes the allocation: the request that
went through for the one goes through for the other, in storage that has
kept its shape (`tidy_withBinding`).
-/
import TsoBridge.Proofs.Sim.Binding

namespace TsoBridge.Sim

open DdTable (Entered)
open Bindings (Postable)

variable {σ τ α β : Type} {branches : String → Prop} {link after : Linkage SimHost}

-- ========================================================== the invariant

/-- What an allocation needs of a linkage: its modules are filed by name,
its storage is well formed, and the host allocates under the name asked
for. -/
structure Ready (link : Linkage SimHost) : Prop where
  named : link.Named
  wellFormed : link.storage.WellFormed
  reply : link.host.reply = .requested

/-- A linkage that is ready for requests stays so. -/
theorem Ready.reach (hready : Ready link) (h : Linkage.Reach branches link after) :
    Ready after where
  named := h.named hready.named
  wellFormed := reach_wellFormed h hready.wellFormed
  reply := by
    rw [← reach_setup h]
    exact hready.reply

/-- Every live name is that of a DD, and none is live twice. -/
structure Backed (dds : DdTable) (live : Table DdName Unit) : Prop where
  allocated : ∀ name, live.contains name = true → (dds.lookup name.text).isSome = true
  distinct : live.keys.Nodup

namespace Backed

variable {dds dds' : DdTable} {live : Table DdName Unit} {name : DdName}

/-- Different names are different in upper case as well. -/
theorem upper_ne {other : DdName} (hne : other ≠ name) :
    Text.upper other.text ≠ Text.upper name.text := by
  rw [name.upper, other.upper]
  intro heq
  exact hne (DdName.ext heq)

/-- A name that is new in the table is not live. -/
theorem fresh (h : Backed dds live) (hentered : Entered name.text dds dds') :
    name ∉ live.keys := by
  intro hmem
  have hsome := h.allocated name (Table.mem_keys.mp hmem)
  rw [hentered.new] at hsome
  cases hsome

/-- A name that was entered in the table may be bound. -/
theorem insert (h : Backed dds live) (hentered : Entered name.text dds dds') :
    Backed dds' (live.insert name ()) where
  allocated := by
    intro other hother
    rw [Table.contains_insert, Bool.or_eq_true, decide_eq_true_eq] at hother
    by_cases hname : other = name
    · rw [hname]
      exact hentered.lookup_self
    · rw [hentered.lookup_ne (upper_ne hname)]
      exact h.allocated other (hother.resolve_left hname)
  distinct := by
    rw [(Table.keys_insert_perm () (h.fresh hentered)).nodup_iff, List.nodup_cons]
    exact ⟨h.fresh hentered, h.distinct⟩

/-- A name may be forgotten. -/
theorem erase (h : Backed dds live) (name : DdName) : Backed dds (live.erase name) where
  allocated := by
    intro other hother
    rw [Table.contains_erase, Bool.and_eq_true] at hother
    exact h.allocated other hother.1
  distinct := by
    rw [Table.keys_erase]
    exact h.distinct.filter _

/-- A name that is forgotten may be freed. -/
theorem without (h : Backed dds live) (name : DdName) :
    Backed (dds.without name.text) (live.erase name) where
  allocated := by
    intro other hother
    rw [Table.contains_erase, Bool.and_eq_true, decide_eq_true_eq] at hother
    rw [DdTable.lookup_without_ne _ (upper_ne hother.2)]
    exact h.allocated other hother.1
  distinct := (h.erase name).distinct

/-- DDs may be added. -/
theorem grow (h : Backed dds live)
    (hkept : ∀ ddname, (dds.lookup ddname).isSome = true → (dds'.lookup ddname).isSome = true) :
    Backed dds' live where
  allocated name hname := hkept _ (h.allocated name hname)
  distinct := h.distinct

end Backed

/-- Engine and host agree on what is allocated. -/
structure Sound (s : Linkage SimHost × Bindings) : Prop where
  ready : Ready s.1
  backed : Backed s.1.host.dds s.2.live

/-- Moves to other modules leave engine and host agreed. -/
theorem Sound.reach {bindings bindings' : Bindings} (h : Sound (link, bindings))
    (hreach : Linkage.Reach Elsewhere link after) (hlive : bindings'.live = bindings.live) :
    Sound (after, bindings') where
  ready := h.ready.reach hreach
  backed := by
    show Backed after.host.dds bindings'.live
    rw [reach_elsewhere hreach, hlive]
    exact h.backed

/-- Agreement is kept, however an operation ends. -/
def agreed : Op.Contract (Linkage SimHost × Bindings) where
  given := Sound
  keeps _ _ := True
  traps _ _ := True
  keeps_refl _ := trivial
  keeps_trans _ _ := trivial
  traps_trans _ _ := trivial

/-- Agreement is about the state that is left, however it was. -/
theorem fulfils_agreed {x : Op (Linkage SimHost × Bindings) α}
    (h : ∀ s, Sound s → Sound (x s).2) : x.Fulfils agreed id fun _ => True :=
  fun s hs => ⟨h s hs, fun _ => trivial, fun _ => trivial, fun _ _ => trivial⟩

-- ============================================================== bindings

/-- An allocation binds what it entered. -/
theorem agreed_allocate (capability : Capability) (wanted : AllocationRequest) :
    (Bindings.allocate capability wanted).Fulfils agreed id fun _ => True := by
  refine fulfils_agreed fun s hs => ?_
  have huses : (Bindings.allocate capability wanted : Op (Linkage SimHost × Bindings) _).Uses
      Prod.fst (fun _ => True) fun _ => True :=
    Bindings.uses_allocate trivial trivial capability wanted
  refine ⟨hs.ready.reach (huses s hs.ready.named).1, ?_⟩
  rcases allocate_ends hs.ready.named hs.ready.wellFormed hs.ready.reply capability wanted with
    ⟨-, hdds, hlive⟩ | ⟨name, result, -, hentered, hlive, -⟩
  · rw [hdds, hlive]
    exact hs.backed
  · rw [hlive]
    exact hs.backed.insert hentered

/-- A free takes the name away before the DD. -/
theorem agreed_free (capability : Capability) (name : DdName) :
    (Bindings.free capability name).Fulfils agreed id fun _ => True := by
  refine fulfils_agreed fun s hs => ?_
  have huses : (Bindings.free capability name : Op (Linkage SimHost × Bindings) _).Uses
      Prod.fst (fun _ => True) fun _ => True := Bindings.uses_free trivial capability name
  refine ⟨hs.ready.reach (huses s hs.ready.named).1, ?_⟩
  by_cases hlive : s.2.isLive name = true
  · rcases free_ends hs.ready.named hs.ready.wellFormed hlive capability with
      ⟨-, hdds, hbindings⟩ | ⟨hbindings, hdds | ⟨hdds, -⟩⟩
    · rw [hdds, hbindings]
      exact hs.backed
    · rw [hdds, hbindings]
      exact hs.backed.without name
    · rw [hdds, hbindings]
      exact hs.backed.erase name
  · rw [Bool.not_eq_true] at hlive
    rw [Bindings.free_unbound capability hlive]
    exact hs.backed

-- =============================================================== freeing

/-- The host frees what it is asked to free: it refuses no free, and it
has the module. -/
structure Frees (link : Linkage SimHost) : Prop where
  accepts : link.host.freeFailure = none
  offers : Offers "TSODFRE" link

/-- A host that frees goes on doing so. -/
theorem Frees.reach (hfrees : Frees link) (h : Linkage.Reach branches link after) :
    Frees after where
  accepts := by
    rw [← reach_setup h]
    exact hfrees.accepts
  offers := hfrees.offers.reach h

/-- Its free service is there. -/
theorem Frees.finds (h : Frees link) : link.finds "TSODFRE" = true :=
  h.offers.finds

/-- A host that frees what it is asked to goes on doing so. -/
theorem reachable_frees {host : SimHost} {settings : Settings} {s : Session SimHost}
    (h : Session.Reachable Touched host settings s) (hfailure : host.freeFailure = none)
    (hpresent : (host.modules.get? "TSODFRE").isSome = true) : Frees s.linkage where
  accepts := by
    show s.host.freeFailure = none
    rw [← reachable_setup h]
    exact hfailure
  offers := reachable_offers h (Linkage.upper_sought (by simp)) hpresent

-- ================================================================= tidy

/-- The same DDs and the same live names. -/
def SameDds (s t : Linkage SimHost × Bindings) : Prop :=
  t.1.host.dds = s.1.host.dds ∧ t.2.live = s.2.live

/-- What left the DDs alone twice has left them alone. -/
theorem SameDds.trans {s t u : Linkage SimHost × Bindings} (h : SameDds s t) (h' : SameDds t u) :
    SameDds s u :=
  ⟨h'.1.trans h.1, h'.2.trans h.2⟩

/-- Engine and host agree, and if the host frees what it is asked to, it
goes on doing so and the DDs are as they were, unless the operation
trapped. -/
def tidying : Op.Contract (Linkage SimHost × Bindings) where
  given := Sound
  keeps s t := Frees s.1 → Frees t.1 ∧ SameDds s t
  traps s t := Frees s.1 → Frees t.1
  keeps_refl _ := fun hfrees => ⟨hfrees, rfl, rfl⟩
  keeps_trans h h' := fun hfrees =>
    ⟨(h' (h hfrees).1).1, (h hfrees).2.trans (h' (h hfrees).1).2⟩
  traps_trans h h' := fun hfrees => h' (h hfrees).1

/-- Moves to other modules that leave the live names alone are tidy. -/
theorem tidy_of_uses {parts : σ → Linkage SimHost × Bindings} {value : α → Prop} {x : Op σ α}
    (h : x.Uses (fun s => (parts s).1) Elsewhere value)
    (hlive : ∀ s, (parts (x s).2).2.live = (parts s).2.live) : x.Fulfils tidying parts value := by
  intro s hs
  obtain ⟨hreach, hvalue⟩ := h s hs.ready.named
  exact ⟨hs.reach hreach (hlive s),
    fun _ hfrees => ⟨hfrees.reach hreach, reach_elsewhere hreach, hlive s⟩,
    fun _ hfrees => hfrees.reach hreach, hvalue⟩

/-- What is posted in storage can be posted in storage of the same
shape. -/
theorem postable_sameShape {capability : Capability} {storage other : Storage}
    (h : Storage.SameShape storage other) (hwf : storage.WellFormed) (hwf' : other.WellFormed)
    (hpostable : Postable capability storage.openFrame) :
    Postable capability other.openFrame :=
  ⟨hpostable.1.sameShape h.openFrame (Storage.openFrame_wellFormed hwf)
    (Storage.openFrame_wellFormed hwf'), hpostable.2⟩

/-- The free undoes the allocation: what is done with a binding in between
leaves the DD table and the shape of storage alone. -/
theorem free_undoes {capability : Capability} {s t : Linkage SimHost × Bindings}
    {worked : Linkage SimHost} {name : DdName} (hs : Sound s)
    (hentered : Entered name.text s.1.host.dds t.1.host.dds)
    (hlive : t.2.live = s.2.live.insert name ())
    (hpostable : Postable capability s.1.storage.openFrame)
    (hworked : Ready worked) (hfrees : Frees worked) (hdds : worked.host.dds = t.1.host.dds)
    (hshape : Storage.SameShape s.1.storage worked.storage) :
    SameDds s (Bindings.free capability name (worked, t.2)).2 := by
  have hbound : t.2.isLive name = true := by
    unfold Bindings.isLive
    rw [hlive, Table.contains_insert]
    simp
  have hgone : (t.2.without name).live = s.2.live := by
    show t.2.live.erase name = _
    rw [hlive, Table.erase_insert]
    have hnew := hs.backed.fresh hentered
    rw [Table.mem_keys] at hnew
    exact Option.not_isSome_iff_eq_none.mp hnew
  have hpost := postable_sameShape hshape hs.ready.wellFormed hworked.wellFormed hpostable
  have hends := free_ends (s := (worked, t.2)) hworked.named hworked.wellFormed hbound
    capability
  rcases hends with ⟨hmissing, -⟩ | ⟨hbindings, hwithout | ⟨-, hnot⟩⟩
  · rw [hfrees.finds] at hmissing
    cases hmissing
  · refine ⟨?_, by rw [hbindings]; exact hgone⟩
    rw [hwithout]
    show worked.host.dds.without name.text = _
    rw [hdds]
    exact hentered.undone
  · exact absurd ⟨hfrees.accepts, hpost⟩ hnot

/-- Work with a binding is tidy if it leaves the DD table and the shape of
storage alone. -/
theorem tidy_withBinding {work : DdName → Op (Linkage SimHost) α} (capability : Capability)
    (hint : Option String) (huses : ∀ name, (work name).Uses id Elsewhere fun _ => True)
    (hkeeps : ∀ name, (work name).Keeps fun _ => True) :
    (Bindings.withBinding capability hint work).Fulfils tidying id fun _ => True := by
  intro s hs
  have hallocated := allocate_ends hs.ready.named hs.ready.wellFormed hs.ready.reply capability
    (.temporary hint)
  have hsound : Sound (Bindings.allocate capability (.temporary hint) s).2 :=
    (agreed_allocate capability (.temporary hint) s hs).given
  have hmoves : Linkage.Reach (fun _ => True) s.1
      (Bindings.allocate capability (.temporary hint) s).2.1 :=
    (Bindings.uses_allocate trivial trivial capability (.temporary hint) s hs.ready.named).1
  show tidying.Kept (fun _ => True) s (Bindings.withBinding capability hint work s).1
    (Bindings.withBinding capability hint work s).2
  rcases Bindings.withBinding_cases capability hint work s with ⟨fault, t, hallocate, hrun⟩
    | ⟨name, bound, t, worked, hallocate, hran, hrun⟩
    | ⟨name, bound, t, result, worked, hallocate, hran, hrun⟩
  · rw [hallocate] at hsound hmoves
    rw [hrun]
    refine ⟨hsound, fun _ hfrees => ⟨hfrees.reach hmoves, ?_⟩, fun _ hfrees => hfrees.reach hmoves,
      fun _ _ => trivial⟩
    rcases hallocated.fault hallocate with ⟨-, hsame⟩ | ⟨_, _, hok, -⟩
    · exact hsame
    · cases hok
  · rw [hallocate] at hsound hmoves
    have hreach := ((huses name t.1 hsound.ready.named).fault hran).1
    rw [hrun]
    exact ⟨hsound.reach hreach rfl, fun hgoes => absurd rfl hgoes,
      fun _ hfrees => (hfrees.reach hmoves).reach hreach, fun _ _ => trivial⟩
  · rw [hallocate] at hsound hmoves
    have hworked : Linkage.Reach Elsewhere t.1 worked := by
      have hreach := (huses name t.1 hsound.ready.named).1
      rwa [hran] at hreach
    have hshape : Storage.SameShape t.1.storage worked.storage := by
      have hkept := (hkeeps name t.1 hsound.ready.named hsound.ready.wellFormed).2.2.1
      rwa [hran] at hkept
    have hthere : Sound (worked, t.2) := hsound.reach hworked rfl
    have hleft : (Bindings.withBinding capability hint work s).2
        = (Bindings.free capability name (worked, t.2)).2 := by
      rw [hrun, Op.run_map_snd, Bindings.release_snd]
    have hfreed : Linkage.Reach (fun _ => True) worked
        (Bindings.free capability name (worked, t.2)).2.1 :=
      (Bindings.uses_free trivial capability name (worked, t.2) hthere.ready.named).1
    rw [hleft]
    have hfrees' : Frees s.1 → Frees worked := fun hfrees => (hfrees.reach hmoves).reach hworked
    refine ⟨(agreed_free capability name (worked, t.2) hthere).given,
      fun _ hfrees => ⟨(hfrees' hfrees).reach hfreed, ?_⟩,
      fun _ hfrees => (hfrees' hfrees).reach hfreed, fun _ _ => trivial⟩
    rcases hallocated.ok hallocate with ⟨⟨_, hfault⟩, -⟩
      | ⟨_, _, hok, hentered, hlive, hpostable, hshape', -⟩
    · cases hfault
    · cases hok
      exact free_undoes hs hentered hlive hpostable hthere.ready (hfrees' hfrees)
        (reach_elsewhere hworked) (IsTrans.trans _ _ _ hshape' hshape)

end TsoBridge.Sim
