/-
What goes to the terminal. Nothing takes a line back: whatever the engine
does with a simulated host, the lines that were there stay in front
(`reach_printed`). Who adds one is a service that runs commands, or the
engine itself with a message.

So an operation that branches to quiet modules and writes no message adds
none. The moves of the engine do not tell whether a message was among them,
so silence is a contract of its own, one the engine meets as long as the
services it calls do (`served_silent`).
-/
import TsoBridge.Proofs.Sim.Binding

namespace TsoBridge.Sim

open Session

variable {σ α : Type} {branches : String → Prop} {link after : Linkage SimHost}

-- ================================================================ growth

/-- Lines may have been added on the terminal. -/
def Printed (host after : SimHost) : Prop :=
  ∃ lines, after.terminal = host.terminal ++ lines

theorem Printed.same {host after : SimHost} (h : after.terminal = host.terminal) :
    Printed host after :=
  ⟨[], h.trans (List.append_nil _).symm⟩

/-- Lines are added to lines. -/
theorem Printed.trans {host middle after : SimHost} (h : Printed host middle)
    (h' : Printed middle after) : Printed host after := by
  obtain ⟨lines, hlines⟩ := h
  obtain ⟨more, hmore⟩ := h'
  exact ⟨lines ++ more, by rw [hmore, hlines, List.append_assoc]⟩

/-- A change prints, or has nothing to do with the terminal. -/
theorem Change.prints {deed : Deed} {host after : SimHost} (h : Change deed host after) :
    Printed host after := by
  cases h with
  | printed _ lines => exact ⟨lines, rfl⟩
  | _ => exact .same rfl

/-- Every call adds lines at most, and one to a quiet module none. -/
theorem call_prints (m : Machine SimHost) (entry : EntryPoint) (r1 : Address) :
    Printed m.host (SimHost.call m entry r1).2.host
      ∧ (Quiet entry.module → (SimHost.call m entry r1).2.host.terminal = m.host.terminal) := by
  have hacts := call_acts m entry r1
  constructor
  · exact hacts.carries (P := Printed m.host) (fun _ _ _ _ h hstart => hstart.trans h.prints)
      (.same rfl)
  · intro hquiet
    refine hacts.keeps SimHost.terminal fun deed host after hdeed hchange => ?_
    cases hchange with
    | printed => exact Bool.noConfusion (hquiet.symm.trans hdeed)
    | _ => rfl

/-- A branch prints what its call prints. -/
theorem branch_prints (entry : EntryPoint) (r1 : Address) (link : Linkage SimHost) :
    (Linkage.branch entry r1).Ends link fun _ t => Printed link.host t.host
      ∧ (Quiet entry.module → t.host.terminal = link.host.terminal) := by
  have hmachine := (Linkage.branch_modules entry r1 link).2.2
  unfold Op.Ends
  show Printed link.host (Linkage.branch entry r1 link).2.toMachine.host
    ∧ (_ → (Linkage.branch entry r1 link).2.toMachine.host.terminal = _)
  rw [hmachine]
  exact call_prints link.toMachine entry r1

/-- No move takes a line back. -/
theorem reach_printed (h : Linkage.Reach branches link after) : Printed link.host after.host := by
  induction h with
  | refl => exact .same rfl
  | tail _ hmove ih =>
      refine ih.trans ?_
      cases hmove with
      | @load key found host hload _ _ _ =>
          have hhost : _ = host := congrArg Prod.snd hload
          exact .same (congrArg SimHost.terminal hhost.symm)
      | putLine text level => exact ⟨[(level, text)], rfl⟩
      | branch r1 _ => exact (branch_prints _ r1 _).1
      | _ => exact .same rfl

/-- No step of a session takes a line back. -/
theorem step_printed {s t : Session SimHost} (h : Step Touched s t) (hnamed : s.linkage.Named) :
    Printed s.host t.host := by
  rcases h.cases hnamed with ⟨text, options, rfl⟩ | hreach | ⟨host, htouched, hlinkage⟩
  · have hall : Supported fun _ => True := fun _ _ => trivial
    exact reach_printed (uses_run hall trivial text trivial s hnamed).1
  · exact reach_printed hreach
  · have hhost : t.host = host := congrArg (fun link => link.host) hlinkage
    rw [hhost]
    refine .same ?_
    rw [← htouched.scope]
    rfl

-- =============================================================== silence

/-- The terminal is as it was. -/
def Unprinted (link after : Linkage SimHost) : Prop :=
  after.host.terminal = link.host.terminal

instance : IsPreorder (Linkage SimHost) Unprinted where
  refl _ := rfl
  trans _ _ _ h h' := h'.trans h

/-- From a linkage of named modules, the terminal is as it was. -/
def Silent (link : σ → Linkage SimHost) (s t : σ) : Prop :=
  (link s).Named → (link t).Named ∧ Unprinted (link s) (link t)

instance (link : σ → Linkage SimHost) : IsPreorder σ (Silent link) where
  refl _ hnamed := ⟨hnamed, rfl⟩
  trans _ _ _ h h' hnamed :=
    ⟨(h' (h hnamed).1).1, trans_of Unprinted (h hnamed).2 (h' (h hnamed).1).2⟩

/-- Work on storage is not seen on the terminal. -/
theorem unprinted_storage (x : Op Storage α) :
    (Linkage.onMachine (Machine.onStorage x) : Op (Linkage SimHost) α).Within Unprinted :=
  fun _ => rfl

/-- A quiet call is not seen on the terminal. -/
theorem unprinted_call {entry : EntryPoint} (h : Quiet entry.module) (parms : ParmList) :
    (Linkage.call entry parms : Op (Linkage SimHost) Int32).Within Unprinted :=
  (unprinted_storage _).bind fun r1 link => (branch_prints entry r1 link).2 h

/-- A quiet service is called without a sound. -/
theorem silent_posted {entry : EntryPoint} {x y : Op (Linkage SimHost) α}
    (h : Linkage.Posted entry x y) (hquiet : Quiet entry.module) : x.Within (Silent id) := by
  have hreach : x.Within (Linkage.Reach Quiet) := h.reach hquiet
  refine fun link hnamed => ⟨(hreach link).named hnamed, ?_⟩
  cases h with
  | framed h =>
      have hstore : Linkage.Storing Unprinted :=
        ⟨fun _ => unprinted_storage _, fun _ => unprinted_storage _, fun _ _ => unprinted_storage _⟩
      exact h.within hstore (unprinted_call hquiet)
        { link with storage := link.storage.openFrame }

/-- The engine is silent as long as it branches to quiet modules. -/
theorem served_silent : Linkage.Served (.keeping Linkage.Named (Silent id))
    (id : SimHost → SimHost) (.byName Quiet) := by
  refine Linkage.served_keeping (Host.maps_id _) (fun _ _ h hnamed => (h hnamed).1)
    (fun module hmem link hnamed => ?_) (fun _ {_ _ _} hquiet h => silent_posted h hquiet)
    (fun _ => trivial) (fun _ _ hnamed => ⟨hnamed, rfl⟩) fun _ _ hnamed => ⟨hnamed, rfl⟩
  refine (fetch_lookedUp hnamed (Linkage.upper_sought hmem)).mono fun r after hlook => ?_
  exact Op.Contract.kept_keeping hlook.named
    (fun _ => ⟨hlook.named, congrArg SimHost.terminal hlook.host⟩) hlook.filed

/-- Freeing every live binding writes nothing to the terminal. -/
theorem silent_releaseAll :
    (releaseAll : Op (Session SimHost) (List Error)).Within (Silent linkage) := by
  have hmeets : Session.Meets (.keeping Linkage.Named (Silent id)) linkage
      (id : SimHost → SimHost) (fun _ => True) _ releaseAll releaseAll :=
    meets_releaseAll (tended_served served_silent Supported.quiet.allows .any .any)
  exact fun s hnamed => (hmeets.fulfils s hnamed).stays hnamed

end TsoBridge.Sim
