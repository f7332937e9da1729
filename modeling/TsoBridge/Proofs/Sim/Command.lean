/-
Which commands the simulated host runs, and on whose word. A call runs no
command, or one, and then what the caller handed over says which: the text
behind the parameter list for an execute call, the second argument of the
table for an exec. `Runs` gives the three ways a command comes to run,
with all the checks the services make on each.

Nothing is assumed of the storage of a call. The reads of a service come
before its writes, so what it saw is what the caller left there.
-/
import TsoBridge.Proofs.Sim.Scope

namespace TsoBridge.Sim

open Service (ExecuteParms)

-- ==================================================== what is handed over

/-- What an execute service finds behind the list at `r1`. -/
structure Handed (storage : Storage) (r1 : Address) (p : ExecuteParms) (flags : CallFlags)
    (text : String) (token : Bytes) : Prop where
  list : ∃ words, ParmList.decode storage r1 = .ok words ∧ ExecuteParms.ofList words = .ok p
  flags : ∃ bytes, storage.read p.flags 4 = .ok bytes ∧ flags = CallFlags.ofBytes bytes
  text : ∃ length bytes, storage.readFull p.length = .ok length
    ∧ storage.read p.text length.toNat = .ok bytes ∧ text = CodePage.decode bytes
  token : storage.read p.token tokenSize = .ok token

theorem one_lt_parmCount : 1 < ExecArea.parmCount := by decide

/-- What the interpreter service finds behind the list at `r1`. -/
def HandedExec (storage : Storage) (r1 : Address) (arguments : List String) : Prop :=
  ∃ (p : Vector Address ExecArea.parmCount) (table : Address),
    ParmList.decodeExact storage r1 ExecArea.parmCount = .ok p
    ∧ storage.readFull (getElem p 1 one_lt_parmCount) = .ok table
    ∧ Service.readArguments storage table = .ok arguments

/-- The ways a call comes to run a command. -/
inductive Runs (m : Machine SimHost) (r1 : Address) : String → Command → Prop where
  /-- The execute service, for a token that was handed out, unauthorized,
  and no verb that has to run authorized. -/
  | standard {p : ExecuteParms} {flags : CallFlags} {text : String} {token : Bytes}
      (h : Handed m.storage r1 p flags text token) (htoken : token ∈ m.host.tokens)
      (hflags : flags.authorized = false)
      (hverb : (Command.parse text).name ∉ m.host.authcmd) :
      Runs m r1 "IKJEFTSR" (Command.parse text)
  /-- The authorized command processor, for a token that was handed out,
  authorized, and with the marker in front of the command. -/
  | authorized {p : ExecuteParms} {flags : CallFlags} {text command : String} {token : Bytes}
      (h : Handed m.storage r1 p flags text token) (htoken : token ∈ m.host.tokens)
      (hflags : flags.authorized = true) (hmarker : text = Route.marker ++ command) :
      Runs m r1 "TSOEFTR" (Command.parse command)
  /-- The interpreter, for a verb that may run unauthorized. -/
  | exec {function command : String} {rest : List String}
      (h : HandedExec m.storage r1 (function :: command :: rest))
      (hverb : (Command.parse command).name ∉ m.host.authcmd) :
      Runs m r1 "IRXEXEC" (Command.parse command)

namespace Service

-- ======================================================== running a command

/-- What an execute service does after its command ran stays within the
output. -/
theorem told_holds (p : ExecuteParms) (output : String) (result : CommandResult) :
    (do
      sendOutput output result.output
      leave p (if result.rc = 0 then ServiceRc.ok else ServiceRc.commandRc) result.rc 0 :
      Op (Machine SimHost) Int32).Within Scope.output.Holds :=
  Serves.holds ((serves_sendOutput Scope.output_append Scope.output_print _ _).bind fun _ =>
    serves_leave Scope.output.admits_write p _ _ _)

/-- A command that is performed is noted, whatever becomes of its
output. -/
theorem perform_executed (p : ExecuteParms) (output command : String)
    (m : Machine SimHost) :
    (perform p output command).Ends m fun _ t =>
      t.host.executed = m.host.executed ++ [Command.parse command] := by
  have hrun : (runCommand command).Ends m fun r t =>
      (∃ result, r = .ok result) ∧ t.host.executed = m.host.executed ++ [Command.parse command] :=
    ⟨⟨_, rfl⟩, rfl⟩
  refine hrun.bind (fun result t ht => ?_) fun fault t ht => ?_
  · refine (told_holds p output result t).mono fun _ u hu => ?_
    rw [← hu.1]
    exact ht.2
  · obtain ⟨⟨result, hresult⟩, -⟩ := ht
    cases hresult

/-- The code an execute service leaves is the one it returns. -/
theorem leave_ok {p : ExecuteParms} {r15 rc value : Int32} {reason : UInt32}
    {m t : Machine SimHost} (h : leave p r15 rc reason m = (.ok value, t)) : value = r15 := by
  obtain ⟨_, _, _, h⟩ := Op.bind_ok h
  obtain ⟨_, _, _, h⟩ := Op.bind_ok h
  obtain ⟨_, _, _, h⟩ := Op.bind_ok h
  exact (Op.pure_ok h).1.symm

/-- A call that was refused: nothing of the host changed, and the caller
is not told that a command ran. -/
def Refused (m : Machine SimHost) (r : Outcome Int32) (t : Machine SimHost) : Prop :=
  Scope.nothing.Holds m t ∧ r ≠ .ok ServiceRc.ok ∧ r ≠ .ok ServiceRc.commandRc

/-- A fault before anything was done is a refusal. -/
theorem refused_fault (m : Machine SimHost) (fault : Fault) : Refused m (.error fault) m :=
  ⟨⟨rfl, Relation.ReflTransGen.refl⟩, (fun h => by cases h), fun h => by cases h⟩

/-- So are the codes of a refusal. -/
theorem refused_leave (p : ExecuteParms) {r15 : Int32} (rc : Int32) (reason : UInt32)
    (m : Machine SimHost) (hok : r15 ≠ ServiceRc.ok) (hrc : r15 ≠ ServiceRc.commandRc) :
    (leave p r15 rc reason).Ends m (Refused m) := by
  refine ⟨(serves_leave Scope.nothing.admits_write p r15 rc reason).holds m, fun h => ?_,
    fun h => ?_⟩
  · exact hok (leave_ok (Prod.ext h rfl)).symm
  · exact hrc (leave_ok (Prod.ext h rfl)).symm

/-- The text of a call holds a command for its service. -/
theorem commandText?_eq_some {viaProcessor : Bool} {flags : CallFlags} {text command : String}
    (h : commandText? viaProcessor flags text = some command) :
    viaProcessor = false ∧ flags.authorized = false ∧ text = command
      ∨ viaProcessor = true ∧ flags.authorized = true ∧ text = Route.marker ++ command := by
  unfold commandText? at h
  split at h
  · next hvia =>
    split at h
    · next hflags =>
      refine .inr ⟨hvia, hflags, ?_⟩
      unfold stripMarker? at h
      split at h
      · next hprefix =>
        cases h
        obtain ⟨rest, hrest⟩ := List.isPrefixOf_iff_prefix.mp hprefix
        apply String.toList_inj.mp
        rw [String.toList_append, String.toList_ofList, ← hrest, List.drop_left]
      · cases h
    · cases h
  · next hvia =>
    split at h
    · cases h
    · next hflags =>
      cases h
      exact .inl ⟨by simpa using hvia, by simpa using hflags, rfl⟩

/-- A call that is accepted: its token was handed out, its text holds a
command for the service, and its output DD, if it names one, is there. -/
structure Accepted (m : Machine SimHost) (viaProcessor : Bool) (r1 : Address)
    (p : ExecuteParms) (output command : String) : Prop where
  handed : ∃ flags text token, Handed m.storage r1 p flags text token
    ∧ token ∈ m.host.tokens ∧ commandText? viaProcessor flags text = some command
  verb : viaProcessor = false → (Command.parse command).name ∉ m.host.authcmd
  named : outputName p m = (.ok output, m)
  allocated : output = "" ∨ (m.host.dds.lookup output).isSome

/-- How a call is decided: it is refused, or accepted and performed. -/
def Decided (m : Machine SimHost) (viaProcessor : Bool) (r1 : Address) (r : Outcome Int32)
    (t : Machine SimHost) : Prop :=
  Refused m r t
    ∨ ∃ p output command, Accepted m viaProcessor r1 p output command
      ∧ perform p output command m = (r, t)

/-- A refusal decides the call. -/
theorem leave_decided {viaProcessor : Bool} {r1 : Address} {m : Machine SimHost}
    {p : ExecuteParms} {r15 : Int32} {rc : Int32} {reason : UInt32}
    (hok : r15 ≠ ServiceRc.ok) (hrc : r15 ≠ ServiceRc.commandRc) :
    (leave p r15 rc reason).Ends m (Decided m viaProcessor r1) :=
  (refused_leave p rc reason m hok hrc).mono fun _ _ h => .inl h

/-- A text that was handed over with a known token runs, or is refused. -/
theorem runText_decided {viaProcessor : Bool} {r1 : Address} {m : Machine SimHost}
    {p : ExecuteParms} {flags : CallFlags} {text : String} {token : Bytes}
    (h : Handed m.storage r1 p flags text token) (htoken : token ∈ m.host.tokens) :
    (runText viaProcessor p flags text).Ends m (Decided m viaProcessor r1) := by
  refine Op.ends_examine_bind (fun fault => .inl (refused_fault m fault))
    fun output houtput => ?_
  split
  · exact leave_decided (by decide) (by decide)
  · next command hcommand =>
    refine Op.ends_gets_bind ?_
    split
    · exact leave_decided (by decide) (by decide)
    · next hverb =>
      split
      · exact leave_decided (by decide) (by decide)
      · next hdd =>
        refine .inr ⟨p, output, command, ⟨⟨flags, text, token, h, htoken, hcommand⟩, ?_, ?_, ?_⟩,
          rfl⟩
        · intro hvia hmem
          simp [hvia, hmem] at hverb
        · exact Prod.ext houtput rfl
        · by_cases hempty : output = ""
          · exact .inl hempty
          · refine .inr ?_
            cases hlookup : m.host.dds.lookup output with
            | none => exact absurd ⟨hempty, by rw [hlookup]; rfl⟩ hdd
            | some entry => rfl

/-- Every execute call is refused, or performs the command it was
handed. -/
theorem execute_decided (viaProcessor : Bool) (r1 : Address) (m : Machine SimHost) :
    (execute viaProcessor r1).Ends m (Decided m viaProcessor r1) := by
  have hfault : ∀ fault, Decided m viaProcessor r1 (.error fault) m :=
    fun fault => .inl (refused_fault m fault)
  refine Op.ends_examine_bind hfault fun words hwords => ?_
  refine Op.ends_lift_bind hfault fun p hp => ?_
  refine Op.ends_examine_bind hfault fun bytes hbytes => ?_
  simp only
  split
  · exact leave_decided (by decide) (by decide)
  · refine Op.ends_examine_bind hfault fun length hlength => ?_
    split
    · exact leave_decided (by decide) (by decide)
    · refine Op.ends_examine_bind hfault fun text htext => ?_
      refine Op.ends_examine_bind hfault fun token htoken => ?_
      refine Op.ends_gets_bind ?_
      split
      · next hcontains =>
        have hhanded : Handed m.storage r1 p (CallFlags.ofBytes bytes) (CodePage.decode text)
            token :=
          ⟨⟨words, hwords, hp⟩, ⟨bytes, hbytes, rfl⟩, ⟨length, text, hlength, htext, rfl⟩, htoken⟩
        exact runText_decided hhanded (by simpa using hcontains)
      · exact leave_decided (by decide) (by decide)

-- ============================================================= tokens

theorem ends_modifyHost_bind {f : SimHost → SimHost} {α : Type}
    {x : Unit → Op (Machine SimHost) α} {m : Machine SimHost}
    {post : Outcome α → Machine SimHost → Prop}
    (h : (x ()).Ends { m with host := f m.host } post) : (modifyHost f >>= x).Ends m post :=
  h

/-- A prepare call hands out no token, or one. -/
theorem prepare_tokens (r1 : Address) (m : Machine SimHost) :
    (prepare r1).Ends m fun _ t =>
      t.host.tokens = m.host.tokens ∨ ∃ token, t.host.tokens = token :: m.host.tokens := by
  have hwrites := fun (p : Vector Address 6) token rc reason =>
    (serves_prepared Scope.nothing.admits_write p[2] p[3] p[4] p[5] token rc reason).holds
  refine Op.ends_examine_bind (fun _ => .inl rfl) fun p _ => ?_
  refine Op.ends_gets_bind ?_
  split
  · next rc reason _ =>
    refine (hwrites p _ rc reason m).mono fun _ t ht => .inl ?_
    rw [← ht.1]
    rfl
  · refine Op.ends_lift_bind (fun _ => .inl rfl) fun nextToken _ => ?_
    refine ends_modifyHost_bind ?_
    refine (hwrites p _ 0 0 _).mono fun _ t ht => .inr ⟨tokenOf m.host.nextToken, ?_⟩
    rw [← ht.1]
    rfl

-- ============================================================= execs

/-- A command run for an exec is noted, unless it has to run
authorized. -/
theorem performExec_executed (p : Vector Address ExecArea.parmCount) (command ddname : String)
    (m : Machine SimHost) :
    (performExec p command ddname).Ends m fun _ t => t.host.executed = m.host.executed
      ∨ (Command.parse command).name ∉ m.host.authcmd
        ∧ t.host.executed = m.host.executed ++ [Command.parse command] := by
  have hrun : (runForExec command).Ends m fun _ t => t.host.executed = m.host.executed
      ∨ (Command.parse command).name ∉ m.host.authcmd
        ∧ t.host.executed = m.host.executed ++ [Command.parse command] := by
    refine Op.ends_gets_bind ?_
    split
    · exact .inl rfl
    · next hverb => exact .inr ⟨by simpa using hverb, rfl⟩
  refine hrun.bind (fun result t ht => ?_) fun _ _ ht => ht
  have hrest := serves_told Scope.output.admits_write Scope.output_print Scope.output_append p
    ddname result
  refine (hrest.holds t).mono fun _ u hu => ?_
  rw [← hu.1]
  exact ht

/-- An exec call runs no command, or the one in its argument table, which
then may run unauthorized. -/
theorem interpret_executed (r1 : Address) (m : Machine SimHost) :
    (interpret r1).Ends m fun _ t => t.host.executed = m.host.executed
      ∨ ∃ function command rest, HandedExec m.storage r1 (function :: command :: rest)
        ∧ (Command.parse command).name ∉ m.host.authcmd
        ∧ t.host.executed = m.host.executed ++ [Command.parse command] := by
  have hrefuse : ∀ p, (refuseExec p).Ends m fun _ t => t.host.executed = m.host.executed
      ∨ ∃ function command rest, HandedExec m.storage r1 (function :: command :: rest)
        ∧ (Command.parse command).name ∉ m.host.authcmd
        ∧ t.host.executed = m.host.executed ++ [Command.parse command] := by
    intro p
    refine ((serves_refuseExec Scope.nothing.admits_write p).holds m).mono fun _ t ht => .inl ?_
    rw [← ht.1]
    rfl
  refine Op.ends_examine_bind (fun _ => .inl rfl) fun p hp => ?_
  refine Op.ends_examine_bind (fun _ => .inl rfl) fun pointer _ => ?_
  refine Op.ends_examine_bind (fun _ => .inl rfl) fun block _ => ?_
  refine Op.ends_gets_bind ?_
  split
  · split
    · refine Op.ends_examine_bind (fun _ => .inl rfl) fun table htable => ?_
      refine Op.ends_examine_bind (fun _ => .inl rfl) fun arguments harguments => ?_
      split
      · next function command rest =>
        split
        · refine (performExec_executed p command _ m).mono fun _ t ht => ?_
          exact ht.imp_right fun h =>
            ⟨function, command, rest, ⟨p, table, hp, htable, harguments⟩, h⟩
        · exact hrefuse p
      · exact hrefuse p
    · exact hrefuse p
  · exact hrefuse p

end Service

-- =============================================================== calls

open Service

/-- What a service did about commands: nothing, or it ran one. -/
def RanAtMostOne (m : Machine SimHost) (r1 : Address) (module : String)
    (t : Machine SimHost) : Prop :=
  t.host.executed = m.host.executed
    ∨ ∃ command, Runs m r1 module command ∧ t.host.executed = m.host.executed ++ [command]

/-- A call that is accepted runs its command. -/
theorem Service.Accepted.runs {m : Machine SimHost} {viaProcessor : Bool} {r1 : Address}
    {p : ExecuteParms} {output command : String}
    (h : Accepted m viaProcessor r1 p output command) :
    Runs m r1 (if viaProcessor then "TSOEFTR" else "IKJEFTSR") (Command.parse command) := by
  obtain ⟨flags, text, token, hhanded, htoken, htext⟩ := h.handed
  rcases commandText?_eq_some htext with ⟨rfl, hflags, rfl⟩ | ⟨rfl, hflags, hmarker⟩
  · exact .standard hhanded htoken hflags (h.verb rfl)
  · exact .authorized hhanded htoken hflags hmarker

/-- An execute service runs one command at most, the one it was handed. -/
theorem execute_ranAtMostOne (viaProcessor : Bool) (r1 : Address) (m : Machine SimHost) :
    (execute viaProcessor r1).Ends m fun _ t =>
      RanAtMostOne m r1 (if viaProcessor then "TSOEFTR" else "IKJEFTSR") t := by
  refine (execute_decided viaProcessor r1 m).mono fun r t h => ?_
  rcases h with hrefused | ⟨p, output, command, haccepted, hperform⟩
  · exact .inl (by rw [← hrefused.1.1]; rfl)
  · have hnoted := perform_executed p output command m
    rw [Op.Ends, hperform] at hnoted
    exact .inr ⟨Command.parse command, haccepted.runs, hnoted⟩

/-- No service runs more, and those of quiet modules run none. -/
theorem service_ranAtMostOne (module : String) (r1 : Address) (m : Machine SimHost) :
    ((SimHost.service module).1 r1).Ends m fun _ t => RanAtMostOne m r1 module t := by
  cases hmodule : isExecute module with
  | false =>
      refine ((service_serves module r1).1 m).mono fun _ t hacts => .inl ?_
      have hquiet : Scope.quiet.Holds m t := (hacts.mono (Scope.quiet_admits hmodule)).holds
      rw [← hquiet.1]
      rfl
  | true =>
      rcases isExecute_cases hmodule with rfl | rfl | rfl
      · exact execute_ranAtMostOne false r1 m
      · exact execute_ranAtMostOne true r1 m
      · refine (interpret_executed r1 m).mono fun _ t ht => ht.imp_right ?_
        exact fun ⟨_, _, _, hhanded, hverb, hnoted⟩ => ⟨_, .exec hhanded hverb, hnoted⟩

/-- Counting a call changes nothing a service looks at. -/
theorem Runs.of_counted {m : Machine SimHost} {name : String} {r1 : Address} {module : String}
    {command : Command} (h : Runs (counted m name) r1 module command) :
    Runs m r1 module command := by
  cases h with
  | standard h htoken hflags hverb => exact .standard h htoken hflags hverb
  | authorized h htoken hflags hmarker => exact .authorized h htoken hflags hmarker
  | exec h hverb => exact .exec h hverb

/-- A call runs no command or one. -/
theorem call_ranAtMostOne (m : Machine SimHost) (entry : EntryPoint) (r1 : Address) :
    RanAtMostOne m r1 entry.module (SimHost.call m entry r1).2 := by
  rw [call_snd]
  have hran := service_ranAtMostOne entry.module r1 (counted m entry.module)
  exact hran.imp_right fun ⟨command, hruns, hnoted⟩ => ⟨command, hruns.of_counted, hnoted⟩

/-- Tokens are handed out by prepare calls only, one a call. -/
theorem call_tokens (m : Machine SimHost) (entry : EntryPoint) (r1 : Address) :
    (SimHost.call m entry r1).2.host.tokens = m.host.tokens
      ∨ entry.module ∈ Invocation.prepareModules
        ∧ ∃ token, (SimHost.call m entry r1).2.host.tokens = token :: m.host.tokens := by
  by_cases hmodule : entry.module ∈ Invocation.prepareModules
  · rw [call_snd, service_prepare hmodule]
    exact (prepare_tokens r1 (counted m entry.module)).imp_right fun h => ⟨hmodule, h⟩
  · refine .inl ?_
    have hkept : (SimHost.call m entry r1).2.host.tokens = (counted m entry.module).host.tokens := by
      refine (call_acts m entry r1).keeps SimHost.tokens fun deed host after hdeed hchange => ?_
      cases hchange with
      | issued => exact absurd hdeed hmodule
      | _ => rfl
    exact hkept

end TsoBridge.Sim
