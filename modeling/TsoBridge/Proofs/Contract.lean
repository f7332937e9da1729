/-
What an operation is held to. A `Contract` says what is given of a state,
how the state an operation leaves stands to the one it found, and what it
means that the operation trapped. `Op.Meets` holds an operation to a
contract however it ends, and beside it a second operation, which does the
same on the image of the state: it also bounds the causes of a failure
and says what is known of a value.

# One reading for every question

Which modules an operation branches to, which hosts it cannot tell apart,
what it leaves in storage, what it can fail with: each of these is a
contract, or a part of every contract. The rules for sequences, attempts
and parts of a state are proved here, once for all contracts. So an
operation that is read for every contract at once has been read for each of
these questions, and nothing but the leaves is left to be settled.
-/
import TsoBridge.Proofs.Cause
import TsoBridge.Proofs.Image

namespace TsoBridge.Op

variable {σ σ' τ τ' κ α β : Type}

/-- What an operation on states of one kind is held to. -/
structure Contract (κ : Type) where
  /-- What is given of the state it finds, and of the one it leaves. -/
  given : κ → Prop
  /-- How the state it leaves stands to the one it found. -/
  keeps : κ → κ → Prop
  /-- The same where it traps. -/
  traps : κ → κ → Prop
  keeps_refl (s : κ) : keeps s s
  keeps_trans {s t u : κ} : keeps s t → keeps t u → keeps s u
  traps_trans {s t u : κ} : keeps s t → traps t u → traps s u

namespace Contract

/-- States that are `given` stay so, in the relation `R`, also where the
operation traps. -/
def keeping (given : κ → Prop) (R : κ → κ → Prop) [IsPreorder κ R] : Contract κ where
  given := given
  keeps := R
  traps := R
  keeps_refl s := refl_of R s
  keeps_trans h h' := trans_of R h h'
  traps_trans h h' := trans_of R h h'

/-- Nothing is asked. -/
def free : Contract κ where
  given _ := True
  keeps _ _ := True
  traps _ _ := True
  keeps_refl _ := trivial
  keeps_trans _ _ := trivial
  traps_trans _ _ := trivial

/-- An ending that is as the contract has it; a value meets `value`. -/
structure Kept (C : Contract κ) (value : α → Prop) (s : κ) (r : Outcome α) (t : κ) : Prop where
  given : C.given t
  keeps : r ≠ .error .trap → C.keeps s t
  traps : r = .error .trap → C.traps s t
  value : ∀ a, r = .ok a → value a

variable {C : Contract κ} {value value' : α → Prop} {s t u : κ}

/-- What was kept since `t` was kept since `s`. -/
theorem Kept.since {r : Outcome α} (hkeeps : C.keeps s t) (h : C.Kept value t r u) :
    C.Kept value s r u where
  given := h.given
  keeps hsafe := C.keeps_trans hkeeps (h.keeps hsafe)
  traps htrap := C.traps_trans hkeeps (h.traps htrap)
  value := h.value

/-- A fault is the same for every type of values. -/
theorem Kept.fault {fault : Fault} {value : β → Prop}
    (h : C.Kept value' s (.error fault) t) :
    C.Kept value s (.error fault) t where
  given := h.given
  keeps hsafe := h.keeps fun htrap => hsafe (congrArg Except.error (Except.error.inj htrap))
  traps htrap := h.traps (congrArg Except.error (Except.error.inj htrap))
  value _ heq := by cases heq

/-- A state that was found in order and is still the same. -/
theorem kept_still (hs : C.given s) {r : Outcome α} (hsafe : r ≠ .error .trap)
    (hvalue : ∀ a, r = .ok a → value a) : C.Kept value s r s :=
  ⟨hs, fun _ => C.keeps_refl s, fun htrap => absurd htrap hsafe, hvalue⟩

section Keeping

variable {given : κ → Prop} {R : κ → κ → Prop} [IsPreorder κ R] {r : Outcome α}

/-- A relation that is kept however the operation ends. -/
theorem kept_keeping (hgiven : given t) (h : R s t) (hvalue : ∀ a, r = .ok a → value a) :
    (keeping given R).Kept value s r t :=
  ⟨hgiven, fun _ => h, fun _ => h, hvalue⟩

/-- So the relation holds between the state found and the state left. -/
theorem Kept.stays (h : (keeping given R).Kept value s r t) : R s t := by
  by_cases htrap : r = .error .trap
  · exact h.traps htrap
  · exact h.keeps htrap

end Keeping

end Contract

-- ============================================================== fulfilling

variable {C : Contract κ} {link : σ → κ} {image : σ → σ'} {causes : Error → Prop}
  {value : α → Prop} {value' : β → Prop} {x : Op σ α} {y : Op σ' α}

/-- However `x` ends, it keeps the contract; a value meets `value`. The
contract is about the part `link` of the state. -/
def Fulfils (C : Contract κ) (link : σ → κ) (value : α → Prop) (x : Op σ α) : Prop :=
  ∀ s, C.given (link s) → x.Ends s fun r t => C.Kept value (link s) r (link t)

/-- However `x` ends, it keeps the contract, and `y` does the same on the
image of the state. Its cause is among `causes`, and a value meets
`value`. -/
def Meets (C : Contract κ) (link : σ → κ) (image : σ → σ') (causes : Error → Prop)
    (value : α → Prop) (x : Op σ α) (y : Op σ' α) : Prop :=
  ∀ s, C.given (link s) → Matches image x y s
    ∧ x.Ends s fun r t => C.Kept value (link s) r (link t) ∧ r.Raises causes

/-- The three parts of meeting a contract may be shown apart. -/
theorem Fulfils.meets (h : x.Fulfils C link value) (hmatch : ∀ s, Matches image x y s)
    (hraises : x.Raises causes) : Meets C link image causes value x y :=
  fun s hs => ⟨hmatch s, (h s hs).and (hraises s)⟩

/-- An operation that meets a contract fulfils it. -/
theorem Meets.fulfils (h : Meets C link image causes value x y) : x.Fulfils C link value :=
  fun s hs => (h s hs).2.mono fun _ _ ht => ht.1

/-- An operation that meets the contract that asks nothing has the causes
it may have. -/
theorem Meets.raises {link : σ → κ} (h : Meets .free link image causes value x y) :
    x.Raises causes :=
  fun s => (h s trivial).2.mono fun _ _ ht => ht.2

/-- What is known of a value besides may be added. -/
theorem Fulfils.knowing {known : α → Prop} (h : x.Fulfils C link known)
    (hvalue : ∀ s t a, x s = (.ok a, t) → value a) : x.Fulfils C link value :=
  fun s hs => ⟨(h s hs).given, (h s hs).keeps, (h s hs).traps,
    fun a ha => hvalue s (x s).2 a (Prod.ext ha rfl)⟩

/-- An operation that stays in a relation keeps what the relation keeps. -/
theorem Within.fulfils {given : σ → Prop} {R : σ → σ → Prop} [IsPreorder σ R]
    (h : x.Within R) (hgiven : ∀ s t, R s t → given s → given t) :
    x.Fulfils (.keeping given R) id fun _ => True :=
  fun s hs => (h s).mono fun _ t ht => Contract.kept_keeping (hgiven s t ht hs) ht fun _ _ => trivial

/-- An operation that keeps a relation from every state stays in it. -/
theorem Fulfils.within {R : σ → σ → Prop} [IsPreorder σ R]
    (h : x.Fulfils (.keeping (fun _ => True) R) id value) : x.Within R :=
  fun s => (h s trivial).stays

/-- Nothing is easy to keep. -/
theorem fulfils_free (x : Op σ α) (link : σ → κ) : x.Fulfils .free link fun _ => True :=
  fun _ _ => ⟨trivial, fun _ => trivial, fun _ => trivial, fun _ _ => trivial⟩

-- =================================================================== rules

/-- An operation that leaves the part of the contract alone and does not
trap. -/
theorem meets_still (hmatch : ∀ s, Matches image x y s) (hlink : ∀ s, link (x s).2 = link s)
    (hsafe : ∀ s, (x s).1 ≠ .error .trap) (hraises : x.Raises causes)
    (hvalue : ∀ s a, (x s).1 = .ok a → value a) : Meets C link image causes value x y := by
  refine fun s hs => ⟨hmatch s, ?_, hraises s⟩
  rw [hlink]
  exact Contract.kept_still hs (hsafe s) (hvalue s)

/-- A value does nothing to the state. -/
theorem meets_pure {a : α} (h : value a) : Meets C link image causes value (pure a) (pure a) :=
  meets_still (fun _ => rfl) (fun _ => rfl) (fun _ => nofun) (raises_pure a)
    fun _ _ heq => Except.ok.inj heq ▸ h

/-- A value nothing is asked of. -/
theorem meets_return (a : α) : Meets C link image causes (fun _ => True) (pure a) (pure a) :=
  meets_pure trivial

/-- A failure has its cause, and does nothing to the state. -/
theorem meets_fail {cause : Error} (h : causes cause) :
    Meets C link image causes value (fail cause) (fail cause) :=
  meets_still (fun _ => rfl) (fun _ => rfl) (fun _ => nofun) (raises_fail h) fun _ _ => nofun

/-- A computation that fails with one of the causes, or returns its
value. -/
theorem meets_lift {result : Except Error α} (h : (Outcome.ofExcept result).Raises causes) :
    Meets C link image causes (fun a => result = .ok a) (liftM result) (liftM result) := by
  cases result with
  | ok a => exact meets_pure rfl
  | error cause => exact meets_fail (h cause rfl)

/-- A look at the state, if its image looks the same. -/
theorem meets_gets (f : σ → α) (f' : σ' → α) (h : ∀ s, f' (image s) = f s) :
    Meets C link image causes (fun _ => True) (gets f) (gets f') :=
  meets_still (fun s => Prod.ext (congrArg Except.ok (h s)) rfl) (fun _ => rfl) (fun _ => nofun)
    (raises_gets f) fun _ _ _ => trivial

/-- A contract about more of the state is met, if what it asks for is kept
with the part. -/
theorem Meets.via {κ' : Type} {C' : Contract κ'} {link' : σ → κ'}
    (h : Meets C link image causes value x y) (hgiven : ∀ s, C'.given (link' s) ↔ C.given (link s))
    (hkeeps : ∀ s, C.keeps (link s) (link (x s).2) → C'.keeps (link' s) (link' (x s).2))
    (htraps : ∀ s, C.traps (link s) (link (x s).2) → C'.traps (link' s) (link' (x s).2)) :
    Meets C' link' image causes value x y := by
  intro s hs
  obtain ⟨hmatch, hkept, hraises⟩ := h s ((hgiven s).mp hs)
  exact ⟨hmatch, ⟨(hgiven _).mpr hkept.given, fun hsafe => hkeeps s (hkept.keeps hsafe),
    fun htrap => htraps s (hkept.traps htrap), hkept.value⟩, hraises⟩

/-- What is known of a value or a cause may be less. -/
theorem Meets.mono {causes' : Error → Prop} {weaker : α → Prop}
    (h : Meets C link image causes value x y) (hcauses : ∀ cause, causes cause → causes' cause)
    (hvalue : ∀ a, value a → weaker a) : Meets C link image causes' weaker x y :=
  fun s hs => ⟨(h s hs).1, (h s hs).2.mono fun _ _ ht =>
    ⟨⟨ht.1.given, ht.1.keeps, ht.1.traps, fun a ha => hvalue a (ht.1.value a ha)⟩,
      fun cause hcause => hcauses cause (ht.2 cause hcause)⟩⟩

/-- Forgets what is known of the value. -/
theorem Meets.any (h : Meets C link image causes value x y) :
    Meets C link image causes (fun _ => True) x y :=
  h.mono (fun _ hcause => hcause) fun _ _ => trivial

/-- Sequences of operations that meet a contract meet it. -/
theorem Meets.bind {f : α → Op σ β} {f' : α → Op σ' β} (hx : Meets C link image causes value x y)
    (hf : ∀ a, value a → Meets C link image causes value' (f a) (f' a)) :
    Meets C link image causes value' (x >>= f) (y >>= f') := by
  intro s hs
  obtain ⟨hmatch, hends⟩ := hx s hs
  constructor
  · refine hmatch.bind fun a t hrun => ?_
    obtain ⟨hkept, -⟩ := hends.ok hrun
    exact (hf a (hkept.value a rfl) t hkept.given).1
  · refine hends.bind (fun a t ht => ?_) fun fault t ht => ⟨ht.1.fault, ht.2.fault⟩
    refine (hf a (ht.1.value a rfl) t ht.1.given).2.mono fun _ u hu => ⟨?_, hu.2⟩
    exact hu.1.since (ht.1.keeps nofun)

/-- A sequence whose second part asks nothing of the value. -/
theorem Meets.andThen {f : α → Op σ β} {f' : α → Op σ' β}
    (hx : Meets C link image causes value x y)
    (hf : ∀ a, Meets C link image causes value' (f a) (f' a)) :
    Meets C link image causes value' (x >>= f) (y >>= f') :=
  hx.bind fun a _ => hf a

/-- What is known of the result of an attempt: of its value, or of its
cause. -/
def Tried (causes : Error → Prop) (value : α → Prop) : Except Error α → Prop
  | .ok a => value a
  | .error cause => causes cause

/-- Where every cause may be, every result is as it may be. -/
theorem tried_any (result : Except Error α) : Tried (fun _ => True) (fun _ => True) result := by
  cases result <;> trivial

/-- An attempt has no cause of its own; its result has those of the
operation. -/
theorem Meets.attempt {causes' : Error → Prop} (h : Meets C link image causes value x y) :
    Meets C link image causes' (Tried causes value) x.attempt y.attempt := by
  intro s hs
  obtain ⟨hmatch, hends⟩ := h s hs
  refine ⟨hmatch.attempt, hends.attempt (fun a t ht => ?_) (fun cause t ht => ?_) fun t ht => ?_⟩
  · refine ⟨⟨ht.1.given, fun _ => ht.1.keeps nofun, nofun, fun result hresult => ?_⟩,
      Outcome.raises_ok _⟩
    cases hresult
    exact ht.1.value a rfl
  · refine ⟨⟨ht.1.given, fun _ => ht.1.keeps nofun, nofun, fun result hresult => ?_⟩,
      Outcome.raises_ok _⟩
    cases hresult
    exact ht.2 cause rfl
  · exact ⟨⟨ht.1.given, fun hsafe => absurd rfl hsafe, fun _ => ht.1.traps rfl, fun _ => nofun⟩,
      Outcome.raises_trap⟩

/-- An operation on a part of the state that holds the part of the
contract. -/
theorem Meets.on {link' : τ → κ} {image' : τ → τ'} {part : τ → σ} {put : τ → σ → τ}
    {part' : τ' → σ'} {put' : τ' → σ' → τ'} (h : Meets C link image causes value x y)
    (hlink : ∀ s, link (part s) = link' s) (hput : ∀ s t, link' (put s t) = link t)
    (hpart : ∀ s, part' (image' s) = image (part s))
    (hback : ∀ s t, put' (image' s) (image t) = image' (put s t)) :
    Meets C link' image' causes value (x.on part put) (y.on part' put') := by
  intro s hs
  rw [← hlink] at hs
  obtain ⟨hmatch, hends⟩ := h (part s) hs
  refine ⟨hmatch.on (hpart s) (hback s), hends.on fun r t ht => ?_⟩
  rw [hput, ← hlink]
  exact ht

end TsoBridge.Op
