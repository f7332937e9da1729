/-
What the calls of a script are held to. A call is an operation of the
session whose errors become values. So it meets every contract that the
operation meets, and it fails with nothing. Each call is read here once,
for all contracts: whether scripts keep a counter, the order of sessions or
the DDs they found is then a matter of the session alone.
-/
import TsoBridge.Proofs.Session
import TsoBridge.Script

namespace TsoBridge.Script

open Op (Contract)
open Session (Meets)

variable {H H' κ α : Type} {C : Contract κ} {link : Session H → κ} {g : H → H'}
  {causes : Error → Prop}

/-- What the engine fails with is a value of the call. -/
theorem meets_engine (operation : ScriptOp) {x : Op (Session H) α} {y : Op (Session H') α}
    (h : Meets C link g (fun _ => True) (fun _ => True) x y) :
    Meets C link g causes (fun _ => True) (engine operation x) (engine operation y) := by
  refine h.attempt.andThen fun result => ?_
  split
  · exact Op.meets_return _
  · exact Op.meets_return _

variable [Host H] [Host H']

/-- A command is run, and the failures are taken away behind it. -/
theorem meets_cmd {text : String} {options : CommandOptions}
    (hrun : Meets C link g (fun _ => True) (fun _ => True) (Session.run text options)
      (Session.run text options))
    (htake : Meets C link g (fun _ => True) (fun _ => True) Session.takeFailures
      Session.takeFailures) :
    Meets C link g causes (fun _ => True) (cmd text options) (cmd text options) :=
  meets_engine .cmd (hrun.andThen fun _ => htake.andThen fun _ => Op.meets_return _)

/-- The operands of an allocation are read first. -/
theorem meets_alloc (operands : String)
    (h : ∀ request, Meets C link g (fun _ => True) (fun _ => True) (Session.allocate request)
      (Session.allocate request)) :
    Meets C link g causes (fun _ => True) (alloc operands) (alloc operands) := by
  refine meets_engine .alloc ((Op.meets_lift fun _ _ => trivial).andThen fun request => ?_)
  exact (h request).andThen fun _ => Op.meets_return _

/-- So are those of a free. -/
theorem meets_free (operands : String)
    (h : ∀ name, Meets C link g (fun _ => True) (fun _ => True) (Session.free name)
      (Session.free name)) :
    Meets C link g causes (fun _ => True) (free operands) (free operands) := by
  refine meets_engine .free ((Op.meets_lift fun _ _ => trivial).andThen fun name => ?_)
  exact (h name).andThen fun _ => Op.meets_return _

/-- A message of no known level is not written. -/
theorem meets_msg (text : String) (level : Option Int)
    (h : ∀ level, Meets C link g (fun _ => True) (fun _ => True) (Session.message text level)
      (Session.message text level)) :
    Meets C link g causes (fun _ => True) (msg text level) (msg text level) := by
  unfold msg
  simp only
  split
  · exact Op.meets_return _
  · exact meets_engine .msg ((h _).andThen fun _ => Op.meets_return _)

/-- An exit sweeps, and looks at its code then. -/
theorem meets_exit (code : Option Int)
    (h : Meets C link g causes (fun _ => True) Session.releaseAll Session.releaseAll) :
    Meets C link g causes (fun _ => True) (exit code) (exit code) := by
  refine (Op.meets_gets _ _ fun _ => rfl).andThen fun live => h.andThen fun failures => ?_
  split
  · exact Op.meets_return _
  · exact Op.meets_return _

end TsoBridge.Script
