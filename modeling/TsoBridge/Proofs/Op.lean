/-
How operations end, said once for all of them. `Op.Ends x s post` is the
whole reading of an operation: whatever `x` returns from `s`, value, error
or trap, the outcome and the state it leaves meet `post`. Nothing is lost
on the failing side, which is where the claims about a failed command
live.

# Two ways through a sequence

Every engine operation and every service routine is a chain of binds, and
there are two questions about a chain.

- What holds however it ends? `Ends.bind` hands the postcondition of the
  first part to the second and keeps the failing outcomes.
- What happened, given that it returned a value? `bind_ok` takes the chain
  apart: the first part returned, and the rest returned from there.

The lemmas below it are the same two readings of `attempt`, `on` and the
lifts, so that no later proof unfolds an operation of this file.
-/
import Mathlib.Order.Defs.Unbundled
import TsoBridge.Outcome

namespace TsoBridge.Op

variable {σ τ α β : Type}

-- =============================================================== endings

/-- The outcome of `x` from `s` and the state it leaves meet `post`. -/
def Ends (x : Op σ α) (s : σ) (post : Outcome α → σ → Prop) : Prop :=
  post (x s).1 (x s).2

/-- A postcondition may be weakened. -/
theorem Ends.mono {x : Op σ α} {s : σ} {post post' : Outcome α → σ → Prop}
    (h : x.Ends s post) (hpost : ∀ r t, post r t → post' r t) :
    x.Ends s post' :=
  hpost _ _ h

/-- Two postconditions hold together. -/
theorem Ends.and {x : Op σ α} {s : σ} {post post' : Outcome α → σ → Prop}
    (h : x.Ends s post) (h' : x.Ends s post') :
    x.Ends s fun r t => post r t ∧ post' r t :=
  ⟨h, h'⟩

/-- An ending with a value meets the postcondition. -/
theorem Ends.ok {x : Op σ α} {s t : σ} {a : α} {post : Outcome α → σ → Prop}
    (h : x.Ends s post) (hx : x s = (.ok a, t)) : post (.ok a) t := by
  unfold Ends at h
  rw [hx] at h
  exact h

/-- An ending with a fault meets the postcondition. -/
theorem Ends.fault {x : Op σ α} {s t : σ} {fault : Fault}
    {post : Outcome α → σ → Prop}
    (h : x.Ends s post) (hx : x s = (.error fault, t)) :
    post (.error fault) t := by
  unfold Ends at h
  rw [hx] at h
  exact h

/-- Where an operation has an outcome, it has left some state. -/
theorem ends_of_fst {x : Op σ α} {s : σ} {r : Outcome α} (h : (x s).1 = r) :
    ∃ t, x s = (r, t) :=
  ⟨(x s).2, Prod.ext h rfl⟩

/-- A sequence ends as its second part does from where the first part
returned, or with the fault of the first part. -/
theorem Ends.bind {x : Op σ α} {f : α → Op σ β} {s : σ}
    {mid : Outcome α → σ → Prop} {post : Outcome β → σ → Prop}
    (hx : x.Ends s mid)
    (hok : ∀ a t, mid (.ok a) t → (f a).Ends t post)
    (hfault : ∀ fault t, mid (.error fault) t → post (.error fault) t) :
    (x >>= f).Ends s post := by
  unfold Ends at *
  show post (andThen x f s).1 (andThen x f s).2
  unfold andThen
  cases hr : x s with
  | mk r t =>
      rw [hr] at hx
      cases r with
      | ok a => exact hok a t hx
      | error fault => exact hfault fault t hx

-- ================================================================== runs

/-- A sequence whose first part returned goes on with the second. -/
theorem run_bind_of_ok {x : Op σ α} {f : α → Op σ β} {s t : σ} {a : α}
    (h : x s = (.ok a, t)) : (x >>= f) s = f a t := by
  show andThen x f s = f a t
  unfold andThen
  rw [h]

/-- A sequence whose first part failed fails with it. -/
theorem run_bind_of_fault {x : Op σ α} {f : α → Op σ β} {s t : σ} {fault : Fault}
    (h : x s = (.error fault, t)) : (x >>= f) s = (.error fault, t) := by
  show andThen x f s = _
  unfold andThen
  rw [h]

/-- A sequence whose first part traps traps. -/
theorem trap_bind {x : Op σ α} {s : σ} (h : (x s).1 = trap) (f : α → Op σ β) :
    ((x >>= f) s).1 = trap := by
  obtain ⟨t, hrun⟩ := ends_of_fst h
  exact congrArg Prod.fst (run_bind_of_fault hrun)

/-- The first part of a sequence is known to have returned. -/
theorem Ends.bind_of_ok {x : Op σ α} {f : α → Op σ β} {s t : σ} {a : α}
    {post : Outcome β → σ → Prop} (h : x s = (.ok a, t)) (hf : (f a).Ends t post) :
    (x >>= f).Ends s post := by
  unfold Ends
  rw [run_bind_of_ok h]
  exact hf

instance : LawfulMonad (Op σ) := by
  refine LawfulMonad.mk' (Op σ) (fun x => ?_) (fun _ _ => rfl) fun x f g => ?_
  · funext s
    show andThen x (fun a => pure (id a)) s = x s
    unfold andThen
    rcases x s with ⟨_ | _, _⟩ <;> rfl
  · funext s
    show andThen (andThen x f) g s = andThen x (fun a => andThen (f a) g) s
    unfold andThen
    rcases x s with ⟨_ | _, _⟩ <;> rfl

/-- What is made of a value leaves the state alone. -/
theorem run_map_snd (x : Op σ α) (f : α → β) (s : σ) :
    ((x >>= fun a => pure (f a)) s).2 = (x s).2 := by
  rcases hx : x s with ⟨fault | a, t⟩
  · rw [run_bind_of_fault hx]
  · rw [run_bind_of_ok hx]
    rfl

/-- A sequence that returned: its first part returned and its second did
from there. -/
theorem bind_ok {x : Op σ α} {f : α → Op σ β} {s t : σ} {b : β}
    (h : (x >>= f) s = (.ok b, t)) :
    ∃ a u, x s = (.ok a, u) ∧ f a u = (.ok b, t) := by
  cases hx : x s with
  | mk r u =>
      cases r with
      | ok a => exact ⟨a, u, rfl, by rwa [run_bind_of_ok hx] at h⟩
      | error fault =>
          rw [run_bind_of_fault hx] at h
          exact absurd (congrArg Prod.fst h) (by simp)

/-- A sequence that failed: its first part did, or its second did from
where the first returned. -/
theorem bind_fault {x : Op σ α} {f : α → Op σ β} {s t : σ} {fault : Fault}
    (h : (x >>= f) s = (.error fault, t)) :
    x s = (.error fault, t) ∨ ∃ a u, x s = (.ok a, u) ∧ f a u = (.error fault, t) := by
  cases hx : x s with
  | mk r u =>
      cases r with
      | ok a => exact .inr ⟨a, u, rfl, by rwa [run_bind_of_ok hx] at h⟩
      | error fault' =>
          rw [run_bind_of_fault hx] at h
          cases h
          exact .inl rfl

/-- What is known of a value that was returned: the operations that cannot
fail first. -/
theorem pure_ok {a b : α} {s t : σ} (h : (pure a : Op σ α) s = (.ok b, t)) :
    a = b ∧ s = t := by
  cases h
  exact ⟨rfl, rfl⟩

theorem fail_ok {cause : Error} {s t : σ} {a : α}
    (h : (fail cause : Op σ α) s = (.ok a, t)) : False := by
  cases h

theorem gets_ok {f : σ → α} {s t : σ} {a : α} (h : gets f s = (.ok a, t)) :
    a = f s ∧ t = s := by
  cases h
  exact ⟨rfl, rfl⟩

/-- A computation on the state that returned gave value and state. -/
theorem update_ok {f : σ → Outcome (α × σ)} {s t : σ} {a : α}
    (h : update f s = (.ok a, t)) : f s = .ok (a, t) := by
  unfold update at h
  cases hf : f s with
  | ok pair =>
      rw [hf] at h
      cases h
      rfl
  | error fault =>
      rw [hf] at h
      cases h

/-- And so it runs. -/
theorem update_of_ok {f : σ → Outcome (α × σ)} {s t : σ} {a : α} (h : f s = .ok (a, t)) :
    update f s = (.ok a, t) := by
  unfold update
  rw [h]

theorem update_of_fault {f : σ → Outcome (α × σ)} {s : σ} {fault : Fault}
    (h : f s = .error fault) : update f s = (.error fault, s) := by
  unfold update
  rw [h]

/-- A lifted check that returned had no cause to fail. -/
theorem lift_except_ok {result : Except Error α} {s t : σ} {a : α}
    (h : (liftM result : Op σ α) s = (.ok a, t)) : result = .ok a ∧ t = s := by
  cases result with
  | ok b =>
      cases h
      exact ⟨rfl, rfl⟩
  | error cause => cases h

/-- If `x` returns a value, it is `a`. -/
def Returns (x : Op σ α) (a : α) : Prop :=
  ∀ s t b, x s = (.ok b, t) → b = a

theorem returns_pure (a : α) : (pure a : Op σ α).Returns a :=
  fun _ _ _ h => (pure_ok h).1.symm

/-- A sequence returns what its second part does, if it returns. -/
theorem returns_bind {x : Op σ α} {f : α → Op σ β} {b : β} (h : ∀ a, (f a).Returns b) :
    (x >>= f).Returns b := by
  intro s t c hrun
  obtain ⟨a, u, -, hf⟩ := bind_ok hrun
  exact h a u t c hf

-- =========================================================== attempts

/-- An attempt ends as the operation does, with its error as a value. -/
theorem Ends.attempt {x : Op σ α} {s : σ} {mid : Outcome α → σ → Prop}
    {post : Outcome (Except Error α) → σ → Prop} (hx : x.Ends s mid)
    (hok : ∀ a t, mid (.ok a) t → post (.ok (.ok a)) t)
    (herror : ∀ e t, mid (.error (.error e)) t → post (.ok (.error e)) t)
    (htrap : ∀ t, mid (.error .trap) t → post (.error .trap) t) :
    x.attempt.Ends s post := by
  unfold Ends at *
  unfold Op.attempt
  rcases hr : x s with ⟨r, t⟩
  rw [hr] at hx
  rcases r with (e | _) | a
  · exact herror e t hx
  · exact htrap t hx
  · exact hok a t hx

/-- How an attempt ends, by how what was attempted did. -/
theorem run_attempt_of_ok {x : Op σ α} {s t : σ} {a : α} (h : x s = (.ok a, t)) :
    x.attempt s = (.ok (.ok a), t) := by
  unfold Op.attempt
  rw [h]

theorem run_attempt_of_error {x : Op σ α} {s t : σ} {e : Error}
    (h : x s = (.error (.error e), t)) : x.attempt s = (.ok (.error e), t) := by
  unfold Op.attempt
  rw [h]

theorem run_attempt_of_trap {x : Op σ α} {s t : σ} (h : x s = (.error .trap, t)) :
    x.attempt s = (.error .trap, t) := by
  unfold Op.attempt
  rw [h]

/-- A trap goes through an attempt. -/
theorem trap_attempt {x : Op σ α} {s : σ} (h : (x s).1 = trap) : (x.attempt s).1 = trap := by
  obtain ⟨t, hrun⟩ := ends_of_fst h
  exact congrArg Prod.fst (run_attempt_of_trap hrun)

/-- An attempt that returned a value: the operation returned it. -/
theorem attempt_ok {x : Op σ α} {s t : σ} {a : α}
    (h : x.attempt s = (.ok (.ok a), t)) : x s = (.ok a, t) := by
  unfold Op.attempt at h
  rcases hr : x s with ⟨r, u⟩
  rw [hr] at h
  rcases r with (e | _) | b
  · cases h
  · cases h
  · cases h
    rfl

/-- An attempt that returned an error: the operation failed with it. -/
theorem attempt_error {x : Op σ α} {s t : σ} {e : Error}
    (h : x.attempt s = (.ok (.error e), t)) : x s = (.error (.error e), t) := by
  unfold Op.attempt at h
  rcases hr : x s with ⟨r, u⟩
  rw [hr] at h
  rcases r with (e' | _) | b
  · cases h
    rfl
  · cases h
  · cases h

/-- An operation on a part ends as the part does. -/
theorem Ends.on {part : σ → τ} {put : σ → τ → σ} {x : Op τ α} {s : σ}
    {mid : Outcome α → τ → Prop} {post : Outcome α → σ → Prop}
    (hx : x.Ends (part s) mid) (h : ∀ r t, mid r t → post r (put s t)) :
    (x.on part put).Ends s post :=
  h _ _ hx

/-- An operation on a part that returned: it returned on the part. -/
theorem on_ok {part : σ → τ} {put : σ → τ → σ} {x : Op τ α} {s s' : σ} {a : α}
    (h : x.on part put s = (.ok a, s')) :
    ∃ t, x (part s) = (.ok a, t) ∧ s' = put s t := by
  unfold Op.on at h
  rcases hr : x (part s) with ⟨r, t⟩
  rw [hr] at h
  cases h
  exact ⟨t, rfl, rfl⟩

/-- Work on a part ends as the work does, and the part is put back. -/
theorem run_on {part : σ → τ} {put : σ → τ → σ} {x : Op τ α} {s : σ} {t : τ} {r : Outcome α}
    (h : x (part s) = (r, t)) : x.on part put s = (r, put s t) := by
  unfold Op.on
  rw [h]

/-- An operation on the first of two components leaves the second. -/
theorem Ends.onFirst {x : Op σ α} {s : σ × τ} {mid : Outcome α → σ → Prop}
    (hx : x.Ends s.1 mid) :
    (onFirst x : Op (σ × τ) α).Ends s fun r t => mid r t.1 ∧ t.2 = s.2 :=
  hx.on fun _ _ hmid => ⟨hmid, rfl⟩

theorem run_onFirst {x : Op σ α} {s t : σ} {u : τ} {r : Outcome α} (h : x s = (r, t)) :
    (onFirst x : Op (σ × τ) α) (s, u) = (r, (t, u)) :=
  run_on h

/-- What returned on the first part left the second alone. -/
theorem onFirst_ok {x : Op σ α} {s s' : σ × τ} {a : α}
    (h : (onFirst x : Op (σ × τ) α) s = (.ok a, s')) :
    x s.1 = (.ok a, s'.1) ∧ s'.2 = s.2 := by
  obtain ⟨t, ht, rfl⟩ := on_ok h
  exact ⟨ht, rfl⟩

/-- A look at the state in front of an operation: it fails there, or the
operation goes on from the same state. -/
theorem ends_examine_bind {f : σ → Outcome α} {g : α → Op σ β} {s : σ}
    {post : Outcome β → σ → Prop} (hfault : ∀ fault, post (.error fault) s)
    (hok : ∀ a, f s = .ok a → (g a).Ends s post) : (examine f >>= g).Ends s post := by
  have hlook : (examine f).Ends s fun r t => r = f s ∧ t = s := ⟨rfl, rfl⟩
  refine hlook.bind (fun a t h => ?_) fun fault t h => ?_
  · obtain ⟨ha, rfl⟩ := h
    exact hok a ha.symm
  · obtain ⟨-, rfl⟩ := h
    exact hfault fault

/-- A computation first: it fails, or the rest goes on with its value. -/
theorem ends_lift_bind {result : Outcome α} {g : α → Op σ β} {s : σ}
    {post : Outcome β → σ → Prop} (hfault : ∀ fault, post (.error fault) s)
    (hok : ∀ a, result = .ok a → (g a).Ends s post) : ((liftM result : Op σ α) >>= g).Ends s post :=
  ends_examine_bind (f := fun _ => result) hfault hok

/-- The same where it is known to return. -/
theorem ends_examine_of_ok {f : σ → Outcome α} {g : α → Op σ β} {s : σ} {a : α}
    {post : Outcome β → σ → Prop} (h : f s = .ok a) (hg : (g a).Ends s post) :
    (examine f >>= g).Ends s post :=
  Ends.bind_of_ok (Prod.ext h rfl) hg

theorem ends_lift_of_ok {result : Outcome α} {g : α → Op σ β} {s : σ} {a : α}
    {post : Outcome β → σ → Prop} (h : result = .ok a) (hg : (g a).Ends s post) :
    ((liftM result : Op σ α) >>= g).Ends s post :=
  Ends.bind_of_ok (Prod.ext h rfl) hg

/-- A look at the state in front of an operation that returned. -/
theorem examine_bind_ok {f : σ → Outcome α} {g : α → Op σ β} {s t : σ} {b : β}
    (h : (examine f >>= g) s = (.ok b, t)) : ∃ a, f s = .ok a ∧ g a s = (.ok b, t) := by
  obtain ⟨a, u, hf, hg⟩ := bind_ok h
  have hstate : s = u := congrArg Prod.snd hf
  subst hstate
  exact ⟨a, congrArg Prod.fst hf, hg⟩

/-- A sequence that returned, from a computation that did. -/
theorem lift_bind_ok {result : Outcome α} {g : α → Op σ β} {s t : σ} {b : β}
    (h : ((liftM result : Op σ α) >>= g) s = (.ok b, t)) :
    ∃ a, result = .ok a ∧ g a s = (.ok b, t) :=
  examine_bind_ok (f := fun _ => result) h

theorem lift_except_bind_ok {result : Except Error α} {g : α → Op σ β} {s t : σ} {b : β}
    (h : ((liftM result : Op σ α) >>= g) s = (.ok b, t)) :
    ∃ a, result = .ok a ∧ g a s = (.ok b, t) := by
  obtain ⟨a, u, hlift, hg⟩ := bind_ok h
  obtain ⟨hresult, rfl⟩ := lift_except_ok hlift
  exact ⟨a, hresult, hg⟩

/-- A look at the state first. -/
theorem ends_gets_bind {f : σ → α} {g : α → Op σ β} {s : σ} {post : Outcome β → σ → Prop}
    (h : (g (f s)).Ends s post) : (gets f >>= g).Ends s post :=
  h

-- ============================================================ preorders

/-- However `x` ends, it takes a state to one in relation to it. -/
def Within (R : σ → σ → Prop) (x : Op σ α) : Prop :=
  ∀ s, x.Ends s fun _ t => R s t

section Within

variable {R : σ → σ → Prop} [IsPreorder σ R]

/-- An operation that leaves the state alone. -/
theorem within_still {x : Op σ α} (h : ∀ s, (x s).2 = s) : x.Within R := by
  intro s
  show R s (x s).2
  rw [h s]
  exact refl s

/-- What leaves the state alone stays within every preorder. -/
theorem within_pure (a : α) : (pure a : Op σ α).Within R :=
  within_still fun _ => rfl

theorem within_fail (cause : Error) : (fail cause : Op σ α).Within R :=
  within_still fun _ => rfl

theorem within_gets (f : σ → α) : (gets f).Within R :=
  within_still fun _ => rfl

theorem within_examine (f : σ → Outcome α) : (examine f).Within R :=
  within_still fun _ => rfl

theorem within_lift (result : Outcome α) : (liftM result : Op σ α).Within R :=
  within_still fun _ => rfl

theorem within_lift_except (result : Except Error α) : (liftM result : Op σ α).Within R :=
  within_still fun _ => rfl

/-- A sequence stays where its parts stay. -/
theorem Within.bind {x : Op σ α} {f : α → Op σ β} (hx : x.Within R)
    (hf : ∀ a, (f a).Within R) : (x >>= f).Within R := by
  intro s
  refine (hx s).bind (fun a t hst => ?_) fun _ _ hst => hst
  exact (hf a t).mono fun _ u htu => IsTrans.trans s t u hst htu

end Within

/-- A sequence of two parts that stay in different relations. -/
theorem Within.andThen {R S T : σ → σ → Prop} {x : Op σ α} {f : α → Op σ β} (hx : x.Within R)
    (hf : ∀ a, (f a).Within S) (hfault : ∀ s t, R s t → T s t)
    (htrans : ∀ s t u, R s t → S t u → T s u) : (x >>= f).Within T := by
  intro s
  refine (hx s).bind (fun a t hst => ?_) fun _ t hst => hfault s t hst
  exact (hf a t).mono fun _ u htu => htrans s t u hst htu

/-- An attempt leaves what the operation leaves. -/
theorem Within.attempt {R : σ → σ → Prop} {x : Op σ α} (h : x.Within R) : x.attempt.Within R :=
  fun s => (h s).attempt (fun _ _ hst => hst) (fun _ _ hst => hst) fun _ hst => hst

/-- On a part, the relation is put back with it. -/
theorem Within.on {R : σ → σ → Prop} {R' : τ → τ → Prop} {part : σ → τ} {put : σ → τ → σ}
    {x : Op τ α} (h : x.Within R') (hput : ∀ s t, R' (part s) t → R s (put s t)) :
    (x.on part put).Within R :=
  fun s => (h (part s)).on fun _ t ht => hput s t ht

-- ============================================================ completion

/-- The operation traps, or it returns and what it leaves meets `post`. -/
def Completes (x : Op σ α) (s : σ) (post : α → σ → Prop) : Prop :=
  x.Ends s fun r t => r = .error .trap ∨ ∃ a, r = .ok a ∧ post a t

/-- A value is always reached. -/
theorem completes_pure {a : α} {s : σ} {post : α → σ → Prop} (h : post a s) :
    (pure a : Op σ α).Completes s post :=
  .inr ⟨a, rfl, h⟩

/-- A sequence completes if its parts do. -/
theorem Completes.bind {x : Op σ α} {f : α → Op σ β} {s : σ} {mid : α → σ → Prop}
    {post : β → σ → Prop} (hx : x.Completes s mid)
    (hf : ∀ a t, mid a t → (f a).Completes t post) : (x >>= f).Completes s post := by
  refine Ends.bind hx (fun a t ha => ?_) fun fault t hfault => ?_
  · obtain htrap | ⟨b, hok, hb⟩ := ha
    · cases htrap
    · cases hok
      exact hf a t hb
  · obtain htrap | ⟨b, hok, -⟩ := hfault
    · exact .inl (congrArg Except.error (Except.error.inj htrap))
    · cases hok

end TsoBridge.Op
