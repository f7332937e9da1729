/-
What each service of the simulated host can touch. A `Scope` is a part of
the host, given by the host that has this part from one host and everything
else from another. An operation stays within a scope if the host it leaves is
the old one but for that part; sequences of operations compose because a
scope is a preorder.

A scope admits a kind of deed if no change of this kind reaches beyond it.
So a routine stays within every scope that admits its deeds, and a call
within every scope that admits those of its module (`call_holds`). What
stands in no scope, the way the host was set up, no call changes.
-/
import TsoBridge.Proofs.Sim.Service

namespace TsoBridge.Sim

variable {α : Type}

-- ================================================================ scopes

/-- A part of the host: `keep old new` has the part from `new` and the
rest from `old`. -/
structure Scope where
  keep : SimHost → SimHost → SimHost
  same : ∀ host, keep host host = host
  absorb : ∀ a b c, keep (keep a b) c = keep a c

namespace Scope

/-- Only the part of the host changes; storage may evolve. -/
def Holds (scope : Scope) (m t : Machine SimHost) : Prop :=
  scope.keep m.host t.host = t.host ∧ Storage.Evolves m.storage t.storage

instance (scope : Scope) : IsPreorder (Machine SimHost) scope.Holds where
  refl m := ⟨scope.same m.host, Relation.ReflTransGen.refl⟩
  trans m t u h h' := by
    refine ⟨?_, h.2.trans h'.2⟩
    rw [← scope.absorb m.host t.host u.host, h.1]
    exact h'.1

/-- The part of the allocation services. -/
def allocation : Scope where
  keep old new := { old with dds := new.dds, catalog := new.catalog, tempSeq := new.tempSeq,
                             clock := new.clock }
  same _ := rfl
  absorb _ _ _ := rfl

/-- Where output goes. -/
def output : Scope where
  keep old new := { old with catalog := new.catalog, terminal := new.terminal }
  same _ := rfl
  absorb _ _ _ := rfl

/-- Nothing of the host. -/
def nothing : Scope where
  keep old _ := old
  same _ := rfl
  absorb _ _ _ := rfl

/-- What no command sees. -/
def unseen : Scope where
  keep old new := { old with calls := new.calls, tokens := new.tokens, nextToken := new.nextToken,
                             terminal := new.terminal }
  same _ := rfl
  absorb _ _ _ := rfl

/-- What finding out about the environment changes. -/
def probing : Scope where
  keep old new := { old with cppl := new.cppl, probeCount := new.probeCount, calls := new.calls,
                             terminal := new.terminal }
  same _ := rfl
  absorb _ _ _ := rfl

/-- Everything but the DD table. -/
def elsewhere : Scope where
  keep old new := { new with dds := old.dds }
  same _ := rfl
  absorb _ _ _ := rfl

/-- Everything but the command processor list. -/
def unlisting : Scope where
  keep old new := { new with cppl := old.cppl }
  same _ := rfl
  absorb _ _ _ := rfl

/-- All that calls change, but for the commands run. -/
def quiet : Scope where
  keep old new := { old with
    cppl := new.cppl, probeCount := new.probeCount, calls := new.calls, dds := new.dds,
    catalog := new.catalog, tokens := new.tokens, nextToken := new.nextToken,
    tempSeq := new.tempSeq, terminal := new.terminal, clock := new.clock }
  same _ := rfl
  absorb _ _ _ := rfl

/-- All that calls change. -/
def calls : Scope where
  keep old new := { old with
    cppl := new.cppl, probeCount := new.probeCount, calls := new.calls, dds := new.dds,
    catalog := new.catalog, tokens := new.tokens, nextToken := new.nextToken,
    tempSeq := new.tempSeq, executed := new.executed, terminal := new.terminal,
    clock := new.clock }
  same _ := rfl
  absorb _ _ _ := rfl

-- ================================================================ deeds

/-- A scope admits a kind of deed if changes of this kind stay within it. -/
def Admits (scope : Scope) (deed : Deed) : Prop :=
  ∀ host after, Change deed host after → scope.keep host after = after

/-- What is done to storage changes nothing of the host. -/
theorem admits_write (scope : Scope) : scope.Admits .write :=
  fun _ _ h => by cases h

/-- Every kind of deed stays within what calls change. -/
theorem calls_admits (deed : Deed) : calls.Admits deed :=
  fun _ _ h => by cases h <;> rfl

/-- Deeds of a module that runs no command stay within the quiet part. -/
theorem quiet_admits {module : String} (h : Quiet module) (deed : Deed) (hdeed : Does module deed) :
    quiet.Admits deed := by
  intro host after hchange
  cases hchange with
  | ran => exact Bool.noConfusion (h.symm.trans hdeed)
  | _ => rfl

/-- Printing goes to the terminal. -/
theorem output_print : output.Admits .print :=
  fun _ _ h => by cases h; rfl

/-- A line for a DD goes to its dataset. -/
theorem output_append : output.Admits .append :=
  fun _ _ h => by cases h; rfl

end Scope

/-- Deeds that a scope admits stay within it. -/
theorem Acts.holds {scope : Scope} {m t : Machine SimHost} (h : Acts scope.Admits m t) :
    scope.Holds m t := by
  refine ⟨h.carries (P := fun host => scope.keep m.host host = host) ?_ (scope.same _), h.evolves⟩
  intro deed host after hdeed hchange hkept
  rw [← scope.absorb m.host host, hkept]
  exact hdeed _ _ hchange

/-- So a routine stays within every scope that admits its deeds. -/
theorem Serves.holds {scope : Scope} {x : Op (Machine SimHost) α} (h : Serves scope.Admits x) :
    x.Within scope.Holds :=
  fun m => (h.acts m).holds

-- ================================================================= calls

variable {entry : EntryPoint}

/-- A call stays within every scope that admits the deeds of its module and
the counting of calls. -/
theorem call_holds {scope : Scope} (m : Machine SimHost) (r1 : Address)
    (hcount : ∀ host, scope.keep host (host.count entry.module) = host.count entry.module)
    (hadmits : ∀ deed, Does entry.module deed → scope.Admits deed) :
    scope.Holds m (SimHost.call m entry r1).2 := by
  have hcounted : scope.Holds m (counted m entry.module) :=
    ⟨hcount m.host, Relation.ReflTransGen.refl⟩
  exact IsTrans.trans _ _ _ hcounted ((call_acts m entry r1).mono hadmits).holds

/-- No call changes how the host was set up. -/
theorem call_setup (m : Machine SimHost) (entry : EntryPoint) (r1 : Address) :
    Scope.calls.Holds m (SimHost.call m entry r1).2 :=
  call_holds m r1 (fun _ => rfl) fun deed _ => Scope.calls_admits deed

/-- A call that runs no command stays within the quiet part. -/
theorem call_quiet (m : Machine SimHost) (r1 : Address) (h : Quiet entry.module) :
    Scope.quiet.Holds m (SimHost.call m entry r1).2 :=
  call_holds m r1 (fun _ => rfl) (Scope.quiet_admits h)

/-- A prepare call changes nothing a command sees. -/
theorem call_unseen (m : Machine SimHost) (r1 : Address)
    (h : entry.module ∈ Invocation.prepareModules) :
    Scope.unseen.Holds m (SimHost.call m entry r1).2 := by
  refine call_holds m r1 (fun _ => rfl) fun deed hdeed host after hchange => ?_
  have hissue := does_prepare h hdeed
  cases hchange <;> first | rfl | exact absurd hissue (by decide)

/-- The environment service touches its own part. -/
theorem call_probing (m : Machine SimHost) (r1 : Address) (h : entry.module = "IKJTSOEV") :
    Scope.probing.Holds m (SimHost.call m entry r1).2 := by
  refine call_holds m r1 (fun _ => rfl) fun deed hdeed host after hchange => ?_
  rw [h] at hdeed
  cases hchange <;> first | rfl | exact absurd hdeed (by decide)

/-- The modules that leave the DD table alone. -/
abbrev Elsewhere (module : String) : Prop :=
  module ≠ "TSODALC" ∧ module ≠ "TSODFRE"

/-- A call to any module but the two of the DD table leaves it alone. -/
theorem call_elsewhere (m : Machine SimHost) (r1 : Address) (h : Elsewhere entry.module) :
    Scope.elsewhere.Holds m (SimHost.call m entry r1).2 := by
  refine call_holds m r1 (fun _ => rfl) fun deed hdeed host after hchange => ?_
  cases hchange with
  | entered => exact absurd hdeed (not_or.mpr h)
  | removed => exact absurd hdeed (not_or.mpr h)
  | _ => rfl

/-- A call to any module but that of the environment leaves the host its
command processor list. -/
theorem call_unlisting (m : Machine SimHost) (r1 : Address) (h : entry.module ≠ "IKJTSOEV") :
    Scope.unlisting.Holds m (SimHost.call m entry r1).2 := by
  refine call_holds m r1 (fun _ => rfl) fun deed hdeed host after hchange => ?_
  cases hchange with
  | listed => exact absurd hdeed h
  | _ => rfl

end TsoBridge.Sim
