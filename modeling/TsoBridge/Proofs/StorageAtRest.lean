/-
What a session leaves in storage: nothing, or the command processor list.
Whatever the operations of a session do and however they end, between two
of them no frame is open and no block of the engine is there. The list is
made once, in a step that calls the environment service on a host that has
none, always at the same place and always the same; from then on storage
does not change at all.

The hosts are all there can be: the first state of the host is arbitrary,
and between the operations of a session somebody else may touch it.
-/
import TsoBridge.Proofs.Sim.Rest

namespace TsoBridge.Sim

open Session
open Storage (established listAddress)

variable {host : SimHost} {settings : Settings} {s t : Session SimHost}

/-- A step after which the host knows another list called the environment
service. -/
theorem step_listing (h : Step Touched s t) (hnamed : s.linkage.Named)
    (hcppl : t.host.cppl ≠ s.host.cppl) :
    ∃ calls, t.linkage.calls = s.linkage.calls ++ calls ∧ "IKJTSOEV" ∈ calls := by
  have hcalled : ∀ {branches}, Linkage.Reach branches s.linkage t.linkage →
      ∃ calls, t.linkage.calls = s.linkage.calls ++ calls ∧ "IKJTSOEV" ∈ calls := by
    intro branches hreach
    obtain ⟨calls, hcalls, htaken⟩ := hreach.taken
    refine ⟨calls, hcalls, ?_⟩
    by_contra hnot
    exact hcppl (reach_unlisting (htaken.widen fun _ hmem heq => hnot (heq ▸ hmem)))
  rcases h.cases hnamed with ⟨text, options, rfl⟩ | hreach | ⟨after, htouched, hlinkage⟩
  · have hall : Supported fun _ => True := fun _ _ => trivial
    exact hcalled (uses_run hall trivial text trivial s hnamed).1
  · exact hcalled hreach
  · have hkept := congrArg SimHost.cppl (Touched.scope htouched)
    have hsame : t.host = after := congrArg (fun link => link.host) hlinkage
    exact absurd (by rw [hsame]; exact hkept.symm) hcppl

/-- Storage that holds a block is kept by every further operation. -/
theorem storage_stays (h : Relation.ReflTransGen (Step Touched) s t) (hs : Resting s.linkage)
    (hheld : s.linkage.storage ≠ {}) :
    Resting t.linkage ∧ t.linkage.storage = s.linkage.storage := by
  induction h with
  | refl => exact ⟨hs, rfl⟩
  | tail _ hstep ih =>
      obtain ⟨hrest, hsame⟩ := ih
      have hkept := step_conserved hstep hrest
      refine ⟨hrest.kept hkept, ?_⟩
      rcases hkept.storage with ⟨hstorage, -⟩ | ⟨⟨hempty, -⟩, -⟩
      · exact hstorage.trans hsame
      · exact absurd (hsame.symm.trans hempty) hheld

/-- After each operation of a session no frame is open and no block of the
engine is left. Storage is empty, or it is that of the list; it changes
only in a step that calls the environment service where the host has no
list, and never again. -/
theorem storage_left (hs : Reachable Touched host settings s) :
    s.linkage.storage.frames = []
      ∧ (∀ entry ∈ s.linkage.storage.blocks.entries, entry.2.subpool = Storage.hostSubpool)
      ∧ (s.linkage.storage.blocks.entries = []
        ∨ s.linkage.storage = established ∧ s.host.cppl = some listAddress)
      ∧ (∀ t, Step Touched s t → t.linkage.storage ≠ s.linkage.storage →
        s.linkage.storage.blocks.entries = [] ∧ s.host.cppl = none
          ∧ t.linkage.storage = established ∧ t.host.cppl = some listAddress
          ∧ ∃ calls, t.linkage.calls = s.linkage.calls ++ calls ∧ "IKJTSOEV" ∈ calls)
      ∧ ∀ t, Relation.ReflTransGen (Step Touched) s t → s.linkage.storage.blocks.entries ≠ [] →
        t.linkage.storage = s.linkage.storage := by
  have hrest := reachable_resting hs
  have hhost : ∀ entry ∈ established.blocks.entries, entry.2.subpool = Storage.hostSubpool := by
    decide +kernel
  refine ⟨?_, ?_, ?_, fun t hstep hchanged => ?_, fun t hlater hheld => ?_⟩
  · rcases hrest.storage with hempty | ⟨hestablished, -⟩
    · rw [hempty]
    · rw [hestablished]
      rfl
  · rcases hrest.storage with hempty | ⟨hestablished, -⟩
    · rw [hempty]
      exact fun entry hmem => absurd hmem List.not_mem_nil
    · rw [hestablished]
      exact hhost
  · rcases hrest.storage with hempty | hestablished
    · exact .inl (by rw [hempty])
    · exact .inr hestablished
  · rcases (step_conserved hstep hrest).storage with ⟨hsame, -⟩ | ⟨⟨hempty, hnone⟩, hmade, hlisted⟩
    · exact absurd hsame hchanged
    · have hcppl : t.host.cppl ≠ s.host.cppl := by
        intro hsame
        have hboth : some listAddress = none := hlisted.symm.trans (hsame.trans hnone)
        cases hboth
      exact ⟨by rw [hempty], hnone, hmade, hlisted, step_listing hstep hrest.named hcppl⟩
  · exact (storage_stays hlater hrest fun hempty => hheld (by rw [hempty])).2

/-- A session whose first operation fails at the host and whose second is a
command. -/
theorem storage_left_after_establish :
    let start : Session SimHost := Session.start (SimHost.build {} noon) {}
    let s := (Session.establish start).2
    let t := (Session.run "LISTALC" {} s).2
    Reachable Touched (SimHost.build {} noon) {} s
      ∧ s.linkage.storage = established ∧ t.linkage.storage = established
      ∧ "IKJTSOEV" ∈ s.linkage.calls := by
  intro start s t
  have hfirst : Step Touched start s := .establish start
  have hs : Reachable Touched (SimHost.build {} noon) {} s := .single hfirst
  have hchanged : s.linkage.storage ≠ start.linkage.storage := by decide +kernel
  obtain ⟨-, -, -, hmaking, -⟩ := storage_left (s := start) (.refl : Reachable Touched _ _ _)
  obtain ⟨-, -, hmade, -, calls, hcalls, hmem⟩ := hmaking s hfirst hchanged
  obtain ⟨-, -, -, -, hlater⟩ := storage_left hs
  have hheld : s.linkage.storage.blocks.entries ≠ [] := by
    rw [hmade]
    exact List.cons_ne_nil _ _
  refine ⟨hs, hmade, ?_, ?_⟩
  · exact (hlater t (.single (.run s "LISTALC" {})) hheld).trans hmade
  · rw [hcalls]
    exact List.mem_append_right _ hmem

end TsoBridge.Sim
