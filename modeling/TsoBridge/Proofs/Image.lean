/-
Two hosts under one engine. A function from the states of one host to
those of another is a map of hosts (`Host.Maps`) if every service does the
same on both sides of it; a map may be asked to agree on some modules
only. An operation on one side and one on the other match (`Op.Matches`)
if they have the same outcome, and what one leaves is the image of what
the other leaves.

The lemmas of this file are about the moves of a linkage. That the engine
as a whole matches itself is part of its reading (`Op.Meets`), for the
modules the map agrees on.
-/
import TsoBridge.Proofs.Op
import TsoBridge.Session

namespace TsoBridge

variable {H H' : Type} {σ σ' τ' ρ α β : Type}

-- ================================================================ images

/-- The machine with the image of its host. -/
def Machine.mapHost (g : H → H') (machine : Machine H) : Machine H' :=
  { host := g machine.host, storage := machine.storage }

/-- The linkage with the image of its host. -/
def Linkage.mapHost (g : H → H') (link : Linkage H) : Linkage H' :=
  { toMachine := link.toMachine.mapHost g, modules := link.modules, calls := link.calls }

/-- The session with the image of its host. -/
def Session.mapHost (g : H → H') (s : Session H) : Session H' :=
  { linkage := s.linkage.mapHost g, environment := s.environment, bindings := s.bindings
    capture := s.capture, settings := s.settings, failures := s.failures }

/-- Every service does the same on both sides of `g`; of the modules, those
in `branches` do. -/
structure Host.Maps [Host H] [Host H'] (g : H → H') (branches : String → Prop) : Prop where
  load : ∀ host module,
    Host.load (g host) module = ((Host.load host module).1, g (Host.load host module).2)
  call : ∀ (machine : Machine H) (entry : EntryPoint) (r1 : Address), branches entry.module →
    Host.call (machine.mapHost g) entry r1
      = ((Host.call machine entry r1).1, (Host.call machine entry r1).2.mapHost g)
  openRecords : ∀ host ddname, Host.openRecords (g host) ddname
    = ((Host.openRecords host ddname).1, g (Host.openRecords host ddname).2)
  openStream : ∀ host ddname, Host.openStream (g host) ddname
    = ((Host.openStream host ddname).1, g (Host.openStream host ddname).2)
  putLine : ∀ host text level, Host.putLine (g host) text level
    = ((Host.putLine host text level).1, g (Host.putLine host text level).2)

/-- Every host is the image of itself. -/
theorem Host.maps_id [Host H] (branches : String → Prop) : Host.Maps (id : H → H) branches where
  load _ _ := rfl
  call _ _ _ _ := rfl
  openRecords _ _ := rfl
  openStream _ _ := rfl
  putLine _ _ _ := rfl

-- ============================================================ operations

namespace Op

/-- From `s` and its image both operations end alike: with the same
outcome, and with a state and its image. -/
def Matches (image : σ → σ') (x : Op σ α) (y : Op σ' α) (s : σ) : Prop :=
  y (image s) = ((x s).1, image (x s).2)

section Matches

variable {image : σ → σ'} {x : Op σ α} {y : Op σ' α} {s t : σ}

/-- Where one side is known to end, the other ends at the image. -/
theorem Matches.run {r : Outcome α} (h : Matches image x y s) (hx : x s = (r, t)) :
    y (image s) = (r, image t) := by
  unfold Matches at h
  rw [hx] at h
  exact h

/-- What one side leaves is the image of what the other leaves. -/
theorem Matches.snd (h : Matches image x y s) : image (x s).2 = (y (image s)).2 :=
  (congrArg Prod.snd h).symm

/-- Sequences match if their first parts do, and their second parts from
where the first returned. -/
theorem Matches.bind {f : α → Op σ β} {f' : α → Op σ' β} (hx : Matches image x y s)
    (hf : ∀ a t, x s = (.ok a, t) → Matches image (f a) (f' a) t) :
    Matches image (x >>= f) (y >>= f') s := by
  unfold Matches
  rcases hr : x s with ⟨fault | a, t⟩
  · rw [run_bind_of_fault hr, run_bind_of_fault (hx.run hr)]
  · rw [run_bind_of_ok hr, run_bind_of_ok (hx.run hr)]
    exact hf a t hr

/-- Attempts match if what is attempted does. -/
theorem Matches.attempt (h : Matches image x y s) :
    Matches image x.attempt y.attempt s := by
  unfold Matches
  rcases hr : x s with ⟨(cause | _) | a, t⟩
  · rw [run_attempt_of_error hr, run_attempt_of_error (h.run hr)]
  · rw [run_attempt_of_trap hr, run_attempt_of_trap (h.run hr)]
  · rw [run_attempt_of_ok hr, run_attempt_of_ok (h.run hr)]

/-- Operations on parts match if the parts do and are put back alike. -/
theorem Matches.on {part : ρ → σ} {put : ρ → σ → ρ} {part' : τ' → σ'} {put' : τ' → σ' → τ'}
    {image' : ρ → τ'} {s : ρ} (h : Matches image x y (part s))
    (hpart : part' (image' s) = image (part s))
    (hput : ∀ t, put' (image' s) (image t) = image' (put s t)) :
    Matches image' (x.on part put) (y.on part' put') s := by
  unfold Matches Op.on
  rw [hpart, h]
  exact Prod.ext rfl (hput _)

end Matches

end Op

-- ============================================================== linkages

variable {g : H → H'} {branches : String → Prop}

namespace Linkage

/-- Framed operations match if they do from the open frame. -/
theorem matches_framed {x : Op (Linkage H) α} {y : Op (Linkage H') α} {link : Linkage H}
    (h : Op.Matches (mapHost g) x y { link with storage := link.storage.openFrame }) :
    Op.Matches (mapHost g) (framed x) (framed y) link := by
  rcases hx : x { link with storage := link.storage.openFrame } with ⟨r, after⟩
  have hy := h.run hx
  change y { mapHost g link with storage := (mapHost g link).storage.openFrame } = _ at hy
  unfold Op.Matches framed
  simp only [hx, hy]
  rfl

variable [Host H] [Host H'] (hmaps : Host.Maps g branches)
include hmaps

/-- A branch to a module the map agrees on. -/
theorem matches_branch {entry : EntryPoint} (h : branches entry.module) (r1 : Address)
    (link : Linkage H) : Op.Matches (mapHost g) (branch entry r1) (branch entry r1) link := by
  have hcall := hmaps.call link.toMachine entry r1 h
  change Host.call (mapHost g link).toMachine entry r1 = _ at hcall
  unfold Op.Matches branch
  simp only [hcall]
  rcases Host.call link.toMachine entry r1 with ⟨_ | r15, machine⟩
  · rfl
  · rfl

/-- Looking for a module: the same answer, also from the cache. -/
theorem matches_fetch (module : String) (link : Linkage H) :
    Op.Matches (mapHost g) (fetch module) (fetch module) link := by
  unfold Op.Matches fetch
  simp only
  have hmodules : (mapHost g link).modules = link.modules := rfl
  rw [hmodules]
  cases link.modules.get? (Text.upper module) with
  | some known => cases known <;> rfl
  | none =>
      have hload := hmaps.load link.host (Text.upper module)
      change Host.load (mapHost g link).host (Text.upper module) = _ at hload
      simp only [hload]
      rcases Host.load link.host (Text.upper module) with ⟨_ | entry, host⟩
      · rfl
      · rfl


end Linkage

variable [Host H] [Host H'] (hmaps : Host.Maps g branches)
include hmaps

namespace Output

/-- Opening a DD by record. -/
theorem matches_openRecords (ddname : String) (link : Linkage H) :
    Op.Matches (Linkage.mapHost g) (openRecords ddname) (openRecords ddname) link := by
  have hopen := hmaps.openRecords link.host ddname
  change Host.openRecords (link.mapHost g).host ddname = _ at hopen
  unfold Op.Matches openRecords
  simp only [hopen]
  rfl

/-- Opening a DD as a stream. -/
theorem matches_openStream (ddname : String) (link : Linkage H) :
    Op.Matches (Linkage.mapHost g) (openStream ddname) (openStream ddname) link := by
  have hopen := hmaps.openStream link.host ddname
  change Host.openStream (link.mapHost g).host ddname = _ at hopen
  unfold Op.Matches openStream
  simp only [hopen]
  rfl

end Output

/-- A line for the terminal. -/
theorem Session.matches_message (text : String) (level : MessageLevel) (s : Session H) :
    Op.Matches (mapHost g) (message text level) (message text level) s := by
  have hput := hmaps.putLine s.linkage.host text level
  change Host.putLine (s.linkage.mapHost g).host text level = _ at hput
  unfold Op.Matches message onLinkage Op.on
  simp only
  rw [show (mapHost g s).linkage = s.linkage.mapHost g from rfl, hput]
  rfl

end TsoBridge
