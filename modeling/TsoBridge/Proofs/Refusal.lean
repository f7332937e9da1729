/-
Only the policy denies. No part of the engine below a session's policy
check fails with the cause of a denial, so a request that ends with it was
stopped by the check, before the host was asked anything: the session it
leaves is the session it found.

That is what the reading of the engine says of its causes. The host must
fail with read failures only when it reads a DD; of its answers to calls
nothing is assumed.
-/
import TsoBridge.Proofs.Session

namespace TsoBridge

-- ============================================================= the causes

/-- The cause is no denial by a policy. -/
def Error.Undenied (cause : Error) : Prop :=
  ∀ verb, cause ≠ .policyDenied verb

/-- Storage, control blocks and DDs deny nothing. -/
theorem mechanical_undenied : Error.Mechanical Error.Undenied := by
  rintro cause h verb rfl
  cases h

/-- A module that is not there is no denial. -/
theorem undenied_service (module : String) : Error.Undenied (.serviceUnavailable module) :=
  nofun

/-- The services for commands refuse in other ways. -/
theorem running_undenied : Error.Running Error.Undenied where
  mechanical := mechanical_undenied
  refused _ _ _ := nofun
  command _ := nofun
  order _ _ := nofun
  answer _ := nofun
  prepare _ _ _ := nofun

/-- So does the environment service. -/
theorem asking_undenied : Error.Asking Error.Undenied where
  mechanical := mechanical_undenied
  service := undenied_service
  environment _ _ _ := nofun

/-- So do the allocation services. -/
theorem granting_undenied : Error.Granting Error.Undenied where
  mechanical := mechanical_undenied
  service := undenied_service
  name _ _ := nofun
  refused _ _ _ _ _ := nofun
  unusable _ _ _ _ _ := nofun
  unknown _ := nofun

-- ============================================================ the session

namespace Session

variable {H : Type} [Host H] (hreads : Host.ReadsPlainly H)
include hreads

/-- Past the policy check nothing is denied. -/
theorem raises_runBy (capability : Capability) (route : Route) (text : String)
    (options : CommandOptions) :
    (runBy capability route text options : Op (Session H) CommandOutcome).Raises
      Error.Undenied := by
  have hserved : Linkage.Served .free (id : H → H) .any := Linkage.served_free (Host.maps_id _)
  have hcommanded : Commanded .free linkage (id : H → H) Error.Undenied route text :=
    commanded_served hserved (fun _ _ _ _ => trivial) running_undenied granting_undenied
      (hreads.readsWith mechanical_undenied) (fun _ _ => trivial) (fun _ _ => trivial)
      (fun _ _ _ _ _ => trivial) fun _ => trivial
  exact (meets_runBy hcommanded capability options).raises

omit hreads in
/-- Nor by the question about the environment. -/
theorem raises_establish :
    (establish : Op (Session H) Capability).Raises Error.Undenied := by
  have hserved : Linkage.Served .free (id : H → H) .any := Linkage.served_free (Host.maps_id _)
  exact (meets_establish hserved (fun _ _ _ _ => trivial) asking_undenied).raises

/-- A request that is denied leaves the session as it was. -/
theorem run_denied (text : String) {options : CommandOptions} {s t : Session H} {verb : String}
    (h : run text options s = (.error (.error (.policyDenied verb)), t)) : t = s := by
  have hrun : (run text options : Op (Session H) CommandOutcome).Ends s fun r t =>
      r = .error (.error (.policyDenied verb)) → t = s := by
    refine Op.ends_gets_bind ?_
    simp only
    split
    · exact fun _ => rfl
    split
    · exact fun _ => rfl
    · have hrest : ∀ route, (do
          let capability ← establish
          let outcome ← runBy capability route (Text.trim text) options
          return outcome.limitLines s.settings.lineLimit :
          Op (Session H) CommandOutcome).Raises Error.Undenied := by
        intro route
        refine raises_establish.bind fun capability => ?_
        exact (raises_runBy hreads capability route _ options).bind fun _ => Op.raises_pure _
      exact (hrest _ s).mono fun r t hraises hdenied => absurd rfl (hraises _ hdenied verb)
  exact hrun.fault h rfl

end Session
end TsoBridge
