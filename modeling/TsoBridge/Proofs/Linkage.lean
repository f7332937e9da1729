/-
What the engine can do to its host. Every engine operation is a chain of a
few kinds of moves: obtain and write storage, open and close a frame, look
a module up, open a DD, write to the terminal, and branch to a module.
`Move` lists them, and `Reach` is a run of moves. An operation is read
once, as the moves it may make and the modules it may branch to (`Uses`);
what a host keeps under the moves it then keeps under every operation.

# The module cache

A branch is known by the name of the entry point it goes to, and the
entry point comes from the cache. `Named` is the invariant of the cache:
what was found is filed under its own name. It holds of every host that
finds modules by their names (`LoadsByName`), so the name an operation
looks up is the module it branches to.
-/
import Mathlib.Logic.Relation
import TsoBridge.Linkage
import TsoBridge.Proofs.Op
import TsoBridge.Proofs.Storage
import TsoBridge.Proofs.Verb

namespace TsoBridge

variable {H : Type} [Host H] {σ τ α β : Type}

/-- A host that finds a module under its own name. Modules are looked for
in upper case, so nothing is asked of other names. -/
class Host.LoadsByName (H : Type) [Host H] : Prop where
  named : ∀ (host after : H) (module : String) (entry : EntryPoint),
    Text.upper module = module → Host.load host module = (some entry, after) →
    entry.module = module

/-- Whether a module runs commands. -/
def isExecute (module : String) : Bool :=
  module = "IKJEFTSR" || module = "TSOEFTR" || module = "IRXEXEC"

/-- The modules that run no command. -/
abbrev Quiet (module : String) : Prop :=
  isExecute module = false

namespace Linkage

-- ================================================================ moves

/-- Every module that was found is filed under its own name. -/
def Named (link : Linkage H) : Prop :=
  ∀ key entry, link.modules.get? key = some (some entry) → entry.module = key

/-- One move of the engine, which branches to `branches` only. -/
inductive Move (branches : String → Prop) : Linkage H → Linkage H → Prop where
  | storage {link : Linkage H} {storage : Storage} (h : Storage.Step link.storage storage) :
      Move branches link { link with storage }
  | openFrame (link : Linkage H) :
      Move branches link { link with storage := link.storage.openFrame }
  | closeFrame (link : Linkage H) :
      Move branches link { link with storage := link.storage.closeFrame }
  | load {link : Linkage H} {key : String} {found : Option EntryPoint} {host : H}
      (h : Host.load link.host key = (found, host))
      (hnew : link.modules.get? key = none) (hupper : Text.upper key = key)
      (hnamed : ∀ entry, found = some entry → entry.module = key) :
      Move branches link { link with host, modules := link.modules.insert key found }
  | openRecords (link : Linkage H) (ddname : String) :
      Move branches link { link with host := (Host.openRecords link.host ddname).2 }
  | openStream (link : Linkage H) (ddname : String) :
      Move branches link { link with host := (Host.openStream link.host ddname).2 }
  | putLine (link : Linkage H) (text : String) (level : MessageLevel) :
      Move branches link { link with host := (Host.putLine link.host text level).2 }
  | branch (link : Linkage H) {entry : EntryPoint} (r1 : Address)
      (h : branches entry.module) : Move branches link (branch entry r1 link).2

/-- A run of moves. -/
def Reach (branches : String → Prop) : Linkage H → Linkage H → Prop :=
  Relation.ReflTransGen (Move branches)

variable {branches : String → Prop} {link after : Linkage H}

theorem Reach.refl (link : Linkage H) : Reach branches link link :=
  Relation.ReflTransGen.refl

/-- Runs of moves are joined. -/
theorem Reach.trans {third : Linkage H} (h : Reach branches link after)
    (h' : Reach branches after third) : Reach branches link third :=
  Relation.ReflTransGen.trans h h'

instance : IsPreorder (Linkage H) (Reach branches) where
  refl := Reach.refl
  trans _ _ _ := Reach.trans

/-- More modules allow the same moves. -/
theorem Reach.widen {branches' : String → Prop} (h : Reach branches link after)
    (hbranches : ∀ module, branches module → branches' module) :
    Reach branches' link after := by
  refine Relation.ReflTransGen.mono (fun _ _ hmove => ?_) _ _ h
  cases hmove with
  | storage h => exact .storage h
  | openFrame => exact .openFrame _
  | closeFrame => exact .closeFrame _
  | load h hnew hupper hnamed => exact .load h hnew hupper hnamed
  | openRecords => exact .openRecords _ _
  | openStream => exact .openStream _ _
  | putLine => exact .putLine _ _ _
  | branch r1 h => exact .branch _ r1 (hbranches _ h)

/-- One move is a run. -/
theorem Move.reach (h : Move branches link after) : Reach branches link after :=
  Relation.ReflTransGen.single h

/-- A branch leaves the cache alone and notes the module. -/
theorem branch_modules (entry : EntryPoint) (r1 : Address) (link : Linkage H) :
    (branch entry r1 link).2.modules = link.modules
      ∧ (branch entry r1 link).2.calls = link.calls ++ [entry.module]
      ∧ (branch entry r1 link).2.toMachine = (Host.call link.toMachine entry r1).2 := by
  unfold branch
  rcases Host.call link.toMachine entry r1 with ⟨_ | r15, machine⟩
  · exact ⟨rfl, rfl, rfl⟩
  · exact ⟨rfl, rfl, rfl⟩

/-- A move files modules under their names. -/
theorem Move.named (h : Move branches link after) (hnamed : link.Named) : after.Named := by
  cases h with
  | @load loaded found host h _ _ hfound =>
      intro key entry hget
      by_cases hkey : key = loaded
      · subst hkey
        rw [Table.get?_insert_self] at hget
        exact hfound entry (Option.some.inj hget)
      · rw [Table.get?_insert_ne _ _ hkey] at hget
        exact hnamed key entry hget
  | branch r1 _ =>
      intro key entry hget
      rw [(branch_modules _ r1 link).1] at hget
      exact hnamed key entry hget
  | _ => exact hnamed

/-- The cache stays named. -/
theorem Reach.named (h : Reach branches link after) (hnamed : link.Named) : after.Named := by
  induction h with
  | refl => exact hnamed
  | tail _ hmove ih => exact hmove.named ih

/-- A move branches to the modules it adds to the calls, and to no
other. -/
theorem Move.taken (h : Move branches link after) :
    ∃ new, after.calls = link.calls ++ new ∧ Move (· ∈ new) link after := by
  have hnone : link.calls = link.calls ++ [] := (List.append_nil _).symm
  cases h with
  | storage h => exact ⟨[], hnone, .storage h⟩
  | openFrame => exact ⟨[], hnone, .openFrame _⟩
  | closeFrame => exact ⟨[], hnone, .closeFrame _⟩
  | load h hnew hupper hnamed => exact ⟨[], hnone, .load h hnew hupper hnamed⟩
  | openRecords => exact ⟨[], hnone, .openRecords _ _⟩
  | openStream => exact ⟨[], hnone, .openStream _ _⟩
  | putLine => exact ⟨[], hnone, .putLine _ _ _⟩
  | @branch entry r1 h =>
      exact ⟨[entry.module], (branch_modules entry r1 link).2.1,
        .branch _ r1 (List.mem_singleton.mpr rfl)⟩

/-- So does a run of moves. -/
theorem Reach.taken (h : Reach branches link after) :
    ∃ new, after.calls = link.calls ++ new ∧ Reach (· ∈ new) link after := by
  induction h with
  | refl => exact ⟨[], (List.append_nil _).symm, Reach.refl link⟩
  | tail _ hmove ih =>
      obtain ⟨new, hcalls, hreach⟩ := ih
      obtain ⟨last, hlast, hmove⟩ := hmove.taken
      refine ⟨new ++ last, by rw [hlast, hcalls, List.append_assoc], ?_⟩
      exact (hreach.widen fun _ => List.mem_append_left _).trans
        (hmove.reach.widen fun _ => List.mem_append_right _)

/-- Storage stays well formed if the calls keep it so. -/
theorem Reach.wellFormed (h : Reach branches link after)
    (hcall : ∀ (m : Machine H) (entry : EntryPoint) (r1 : Address), branches entry.module →
      m.storage.WellFormed → (Host.call m entry r1).2.storage.WellFormed)
    (hwf : link.storage.WellFormed) : after.storage.WellFormed := by
  induction h with
  | refl => exact hwf
  | @tail middle last _ hmove ih =>
      cases hmove with
      | storage hstep => exact hstep.wellFormed ih
      | openFrame => exact Storage.openFrame_wellFormed ih
      | closeFrame => exact Storage.closeFrame_wellFormed ih
      | @branch entry r1 hbranch =>
          show (Linkage.branch entry r1 middle).2.toMachine.storage.WellFormed
          rw [(branch_modules entry r1 middle).2.2]
          exact hcall middle.toMachine entry r1 hbranch ih
      | _ => exact ih

/-- The only modules branched to are those of the run. -/
theorem Reach.calls (h : Reach branches link after) :
    ∃ new, after.calls = link.calls ++ new ∧ ∀ module ∈ new, branches module := by
  induction h with
  | refl => exact ⟨[], (List.append_nil _).symm, fun _ h => absurd h List.not_mem_nil⟩
  | @tail middle last _ hmove ih =>
      obtain ⟨new, hnew, hall⟩ := ih
      cases hmove with
      | @branch entry r1 hbranch =>
          refine ⟨new ++ [entry.module], ?_, ?_⟩
          · rw [(branch_modules _ r1 middle).2.1, hnew, List.append_assoc]
          · intro module hmodule
            rcases List.mem_append.mp hmodule with h | h
            · exact hall module h
            · rw [List.mem_singleton.mp h]
              exact hbranch
      | _ => exact ⟨new, hnew, hall⟩

end Linkage

-- =========================================================== operations

namespace Op

open Linkage (Reach Named)

variable {branches : String → Prop} {link : σ → Linkage H}

/-- From a linkage of named modules, `x` makes moves that branch to
`branches` only, and a value it returns meets `value`. The linkage is the
part `link` of the state. -/
def Uses (link : σ → Linkage H) (branches : String → Prop) (value : α → Prop)
    (x : Op σ α) : Prop :=
  ∀ s, (link s).Named → x.Ends s fun r t =>
    Reach branches (link s) (link t) ∧ ∀ a, r = .ok a → value a

/-- More may be allowed, and less known of the value. -/
theorem Uses.mono {branches' : String → Prop} {value value' : α → Prop} {x : Op σ α}
    (h : x.Uses link branches value) (hbranches : ∀ module, branches module → branches' module)
    (hvalue : ∀ a, value a → value' a) : x.Uses link branches' value' := by
  intro s hs
  refine (h s hs).mono fun r t hrt => ⟨?_, fun a ha => hvalue a (hrt.2 a ha)⟩
  exact hrt.1.widen hbranches

/-- Forgets what is known of the value. -/
theorem Uses.any {value : α → Prop} {x : Op σ α} (h : x.Uses link branches value) :
    x.Uses link branches fun _ => True :=
  h.mono (fun _ hmodule => hmodule) fun _ _ => trivial

/-- An operation that leaves the linkage alone. -/
theorem uses_still {value : α → Prop} {x : Op σ α}
    (h : ∀ s, x.Ends s fun r t => link t = link s ∧ ∀ a, r = .ok a → value a) :
    x.Uses link branches value := by
  intro s _
  refine (h s).mono fun r t hrt => ⟨?_, hrt.2⟩
  rw [hrt.1]
  exact Reach.refl _

/-- Moves that are made whatever is known of the modules. -/
theorem Within.uses {x : Op (Linkage H) α} (h : x.Within (Reach branches)) :
    x.Uses id branches fun _ => True :=
  fun link _ => (h link).mono fun _ _ hreach => ⟨hreach, fun _ _ => trivial⟩

/-- Values, failures and looks at the state make no move. -/
theorem uses_pure {value : α → Prop} {a : α} (h : value a) :
    (pure a : Op σ α).Uses link branches value :=
  uses_still fun _ => ⟨rfl, fun _ heq => Except.ok.inj heq ▸ h⟩

theorem uses_fail {value : α → Prop} (cause : Error) :
    (fail cause : Op σ α).Uses link branches value :=
  uses_still fun _ => ⟨rfl, fun _ heq => by cases heq⟩

theorem uses_gets (f : σ → α) : (gets f).Uses link branches fun _ => True :=
  uses_still fun _ => ⟨rfl, fun _ _ => trivial⟩

theorem uses_lift_except (result : Except Error α) :
    (liftM result : Op σ α).Uses link branches fun _ => True :=
  uses_still fun _ => ⟨rfl, fun _ _ => trivial⟩

/-- A computation that fails or returns its value. -/
theorem uses_lift_value (result : Except Error α) :
    (liftM result : Op σ α).Uses link branches fun a => result = .ok a := by
  refine uses_still fun s => ⟨rfl, fun a h => ?_⟩
  exact (lift_except_ok (Prod.ext h rfl)).1

/-- A sequence makes the moves of its parts. -/
theorem Uses.bind {value : α → Prop} {value' : β → Prop} {x : Op σ α} {f : α → Op σ β}
    (hx : x.Uses link branches value) (hf : ∀ a, value a → (f a).Uses link branches value') :
    (x >>= f).Uses link branches value' := by
  intro s hs
  refine (hx s hs).bind (fun a t hat => ?_) fun fault t hft => ⟨hft.1, fun _ h => by cases h⟩
  refine (hf a (hat.2 a rfl) t (hat.1.named hs)).mono fun r u hru => ⟨?_, hru.2⟩
  exact hat.1.trans hru.1

/-- A sequence whose second part asks nothing of the value. -/
theorem Uses.andThen {value : β → Prop} {x : Op σ α} {f : α → Op σ β}
    (hx : x.Uses link branches fun _ => True) (hf : ∀ a, (f a).Uses link branches value) :
    (x >>= f).Uses link branches value :=
  hx.bind fun a _ => hf a

/-- An operation on a part of the state that holds the linkage. -/
theorem Uses.on {link' : τ → Linkage H} {part : σ → τ} {put : σ → τ → σ} {value : α → Prop}
    {x : Op τ α} (h : x.Uses link' branches value) (hpart : ∀ s, link' (part s) = link s)
    (hput : ∀ s t, link (put s t) = link' t) : (x.on part put).Uses link branches value := by
  intro s hs
  rw [← hpart s] at hs
  refine (h (part s) hs).on fun r t hrt => ⟨?_, hrt.2⟩
  rw [← hpart s, hput]
  exact hrt.1

theorem Uses.onFirst {value : α → Prop} {x : Op (Linkage H) α}
    (h : x.Uses id branches value) :
    (onFirst x : Op (Linkage H × τ) α).Uses Prod.fst branches value :=
  h.on (fun _ => rfl) fun _ _ => rfl

/-- Nor does work beside the linkage. -/
theorem uses_onSecond (x : Op τ α) :
    (onSecond x : Op (Linkage H × τ) α).Uses Prod.fst branches fun _ => True :=
  uses_still fun _ => ⟨rfl, fun _ _ => trivial⟩

end Op

-- ============================================================== storage

namespace Linkage

variable {branches : String → Prop}

/-- Steps of the storage are moves. -/
theorem reach_of_evolves {link : Linkage H} {storage : Storage}
    (h : Storage.Evolves link.storage storage) :
    Reach branches link { link with storage } := by
  induction h with
  | refl => exact Reach.refl link
  | @tail middle last _ hstep ih =>
      have hmove : Move branches { link with storage := middle } { link with storage := last } :=
        Move.storage hstep
      exact ih.trans hmove.reach

/-- Work on storage that evolves it moves the linkage. -/
theorem reach_update {f : Storage → Outcome (α × Storage)}
    (h : ∀ storage a after, f storage = .ok (a, after) → Storage.Evolves storage after) :
    (onMachine (Machine.onStorage (Op.update f)) : Op (Linkage H) α).Within (Reach branches) := by
  intro link
  show Reach branches link (onMachine (Machine.onStorage (Op.update f)) link).2
  unfold onMachine Machine.onStorage Op.on Op.update
  cases hf : f link.storage with
  | ok pair => exact reach_of_evolves (h _ _ _ hf)
  | error fault => exact Reach.refl link

/-- Obtaining and filling are two steps of storage. -/
theorem evolves_obtainWith {storage after : Storage} {subpool : UInt8} {data : Bytes}
    {address : Address} (h : storage.obtainWith subpool data = .ok (address, after)) :
    Storage.Evolves storage after := by
  unfold Storage.obtainWith at h
  obtain ⟨⟨base, larger⟩, hobtain, h⟩ := Outcome.bind_ok h
  obtain ⟨written, hwrite, h⟩ := Outcome.bind_ok h
  cases h
  exact (Relation.ReflTransGen.single (.obtain hobtain)).tail (.write hwrite)

/-- The engine's own work on storage is made of such steps. -/
theorem reach_obtain (length : Nat) :
    (obtain length : Op (Linkage H) Address).Within (Reach branches) :=
  reach_update fun _ _ _ h => Relation.ReflTransGen.single (.obtain h)

theorem reach_obtainWith (data : Bytes) :
    (obtainWith data : Op (Linkage H) Address).Within (Reach branches) :=
  reach_update fun _ _ _ h => evolves_obtainWith h

theorem reach_write (address : Address) (data : Bytes) :
    (write address data : Op (Linkage H) Unit).Within (Reach branches) := by
  refine reach_update fun storage a after h => ?_
  obtain ⟨written, hwrite, h⟩ := Outcome.bind_ok h
  cases h
  exact Relation.ReflTransGen.single (.write hwrite)

/-- Opening and closing the frame are moves like any others. -/
theorem reach_framed {x : Op (Linkage H) α} (h : x.Within (Reach branches)) :
    (framed x).Within (Reach branches) := by
  intro link
  have hopen : Move branches link { link with storage := link.storage.openFrame } :=
    .openFrame link
  have hx := h { link with storage := link.storage.openFrame }
  exact (hopen.reach.trans hx).trans (Move.closeFrame _).reach

-- ============================================================== modules

/-- Placing a parameter list for a call. -/
theorem reach_place (parms : ParmList) :
    (onMachine (Machine.onStorage (Op.update parms.place)) :
      Op (Linkage H) Address).Within (Reach branches) := by
  refine reach_update fun storage a after hplace => ?_
  obtain ⟨bytes, _, hplace⟩ := Outcome.bind_ok hplace
  exact evolves_obtainWith hplace

/-- A call is a placement and a branch. -/
theorem reach_call {entry : EntryPoint} (h : branches entry.module) (parms : ParmList) :
    (call entry parms : Op (Linkage H) Int32).Within (Reach branches) :=
  (reach_place parms).bind fun r1 link => (Move.branch link r1 h).reach

/-- A module that was found once is found again, at no cost. -/
theorem fetch_known {link : Linkage H} {module : String} {entry : EntryPoint}
    (h : link.modules.get? (Text.upper module) = some (some entry)) :
    fetch module link = (.ok entry, link) := by
  unfold fetch
  simp only [h]

/-- A module that was not looked for yet is found if the host has it. -/
theorem fetch_new {link : Linkage H} {module : String} {entry : EntryPoint} {host : H}
    (hget : link.modules.get? (Text.upper module) = none)
    (hload : Host.load link.host (Text.upper module) = (some entry, host)) :
    ∃ after, fetch module link = (.ok entry, after) := by
  unfold fetch
  simp only [hget, hload]
  exact ⟨_, rfl⟩

/-- Looking for a module touches the host and the cache only, and a module
that is found is in the cache. -/
theorem fetch_ends (module : String) (link : Linkage H) :
    (fetch module).Ends link fun r after =>
      after.calls = link.calls ∧ after.storage = link.storage
        ∧ ∀ entry, r = .ok entry →
          after.modules.get? (Text.upper module) = some (some entry) := by
  unfold Op.Ends fetch
  simp only
  cases hget : link.modules.get? (Text.upper module) with
  | some known =>
      cases known with
      | none => exact ⟨rfl, rfl, fun _ h => by cases h⟩
      | some entry =>
          refine ⟨rfl, rfl, fun _ h => ?_⟩
          cases h
          exact hget
  | none =>
      rcases Host.load link.host (Text.upper module) with ⟨_ | entry, host⟩
      · exact ⟨rfl, rfl, fun _ h => by cases h⟩
      · refine ⟨rfl, rfl, fun _ h => ?_⟩
        cases h
        exact Table.get?_insert_self _ _ _

/-- A module that is not found is unavailable. -/
theorem fetch_fault {module : String} {link after : Linkage H} {fault : Fault}
    (h : fetch module link = (.error fault, after)) :
    fault = .error (.serviceUnavailable (Text.upper module)) := by
  unfold fetch at h
  simp only at h
  split at h
  · cases h
  · cases h
    rfl

variable [Host.LoadsByName H]

/-- A module that was fetched is the one asked for, in upper case. -/
theorem uses_fetch (module : String) :
    (fetch module : Op (Linkage H) EntryPoint).Uses id branches
      fun entry => entry.module = Text.upper module := by
  intro link hnamed
  show Reach branches link (fetch module link).2 ∧ ∀ entry, (fetch module link).1 = .ok entry → _
  unfold fetch
  simp only
  cases hget : link.modules.get? (Text.upper module) with
  | some known =>
      cases known with
      | none => exact ⟨Reach.refl link, fun _ h => by cases h⟩
      | some entry =>
          refine ⟨Reach.refl link, fun _ h => ?_⟩
          cases h
          exact hnamed _ entry hget
  | none =>
      cases hload : Host.load link.host (Text.upper module) with
      | mk found host =>
          have hfound : ∀ entry, found = some entry → entry.module = Text.upper module := by
            rintro entry rfl
            exact Host.LoadsByName.named _ _ _ _ (Text.upper_upper module) hload
          have hmove : Move branches link
              { link with host, modules := link.modules.insert (Text.upper module) found } :=
            .load hload hget (Text.upper_upper module) hfound
          cases found with
          | none => exact ⟨hmove.reach, fun _ h => by cases h⟩
          | some entry =>
              refine ⟨hmove.reach, fun _ h => ?_⟩
              cases h
              exact hfound entry rfl

end Linkage
end TsoBridge
