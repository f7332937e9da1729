/-
What the services of the simulated host find of what the engine handed
over. Every parameter points into the block the engine filled, so the
command the service reads is the command that was sent, as it arrives
through the code page: the text of a call block behind the marker of its
route, the second argument of an exec.
-/
import TsoBridge.Proofs.Handover
import TsoBridge.Proofs.Sim.Command

namespace TsoBridge

open CodePage (carried)

theorem Address.shift_plus {base : Address} {first second : Nat}
    (h : base.toNat + first + second < 0x100000000) :
    (base.shift first).plus second = .ok (base.shift (first + second)) := by
  have hfirst : (base.shift first).toNat = base.toNat + first :=
    Address.toNat_shift (by omega)
  rw [Address.plus_eq (by rw [hfirst]; exact h), Address.shift_shift (by omega)]

namespace Sim

-- ============================================================ call blocks

/-- The parameters of an execute call with its block at `base`. -/
def parmsAt (base : Address) : Service.ExecuteParms :=
  { flags := base.shift CallBlock.flagsAt
    text := base.shift CallBlock.commandAt
    length := base.shift CallBlock.lengthAt
    rc := base.shift CallBlock.rcAt
    reason := base.shift CallBlock.reasonAt
    abend := base.shift CallBlock.abendAt
    token := base.shift CallBlock.tokenAt
    output := some (base.shift CallBlock.outputAt) }

/-- An execute service finds what the call block says. -/
theorem Handed.of_sent {storage : Storage} {block : CallBlock} {cppl base r1 : Address}
    {p : Service.ExecuteParms} {flags : CallFlags} {text : String} {token : Bytes}
    (h : Handed storage r1 p flags text token)
    (hsent : CallBlock.Sent storage block cppl base r1) :
    p = parmsAt base ∧ flags = block.flags ∧ text = CodePage.decode block.command := by
  obtain ⟨words, hwords, hparms⟩ := h.list
  rw [hsent.decode] at hwords
  cases hwords
  have hp : p = parmsAt base := (Except.ok.inj hparms).symm
  subst hp
  obtain ⟨bytes, hbytes, rfl⟩ := h.flags
  obtain ⟨length, bytes', hlength, htext, rfl⟩ := h.text
  rw [show (parmsAt base).flags = base.shift CallBlock.flagsAt from rfl, hsent.flags] at hbytes
  rw [show (parmsAt base).length = base.shift CallBlock.lengthAt from rfl, hsent.length.1] at hlength
  cases hbytes
  cases hlength
  rw [hsent.length.2, show (parmsAt base).text = base.shift CallBlock.commandAt from rfl,
    hsent.command] at htext
  cases htext
  exact ⟨rfl, CallFlags.ofBytes_toBytes block.flags, rfl⟩

theorem toList_marker_latin : ∀ c ∈ Route.marker.toList, c.toNat < 256 := by
  have hall : (Route.marker.toList.all fun c => decide (c.toNat < 256)) = true := by
    decide +kernel
  intro c hc
  exact of_decide_eq_true (List.all_eq_true.mp hall c hc)

/-- The command an execute service runs is the one that was sent, as it
arrived. -/
theorem Runs.of_sent {m : Machine SimHost} {block : CallBlock} {cppl base r1 : Address}
    {route : Route} {text : String} {command : Command}
    (hsent : CallBlock.Sent m.storage block cppl base r1)
    (hcommand : block.command = CodePage.encode (route.textOf text))
    (h : Runs m r1 route.module command) : command = Command.parse (carried text) := by
  have harrived : CodePage.decode block.command = carried (route.textOf text) := by
    rw [hcommand, CodePage.decode_encode]
  generalize hmodule : route.module = module at h
  cases h with
  | @standard p flags found token hhanded htoken hflags hverb =>
      cases route with
      | standard =>
          rw [(hhanded.of_sent hsent).2.2, harrived]
          rfl
      | authorizedProcessor => exact absurd hmodule (by decide)
  | @authorized p flags found rest token hhanded htoken hflags hmarker =>
      cases route with
      | standard => exact absurd hmodule (by decide)
      | authorizedProcessor =>
          have hfound := (hhanded.of_sent hsent).2.2
          rw [harrived] at hfound
          change found = carried (Route.marker ++ text) at hfound
          rw [CodePage.carried_append, CodePage.carried_of_latin toList_marker_latin, hmarker]
            at hfound
          rw [String.append_right_inj] at hfound
          rw [hfound]
  | exec => cases route <;> exact absurd hmodule (by decide)

-- ============================================================= call areas

/-- A word of a block, from the slice it was written to. -/
theorem readFull_slice {storage : Storage} (hwf : storage.WellFormed) {base : Address}
    {bytes : Bytes} {word : UInt32} {offset : Nat} (h : storage.contents base = some bytes)
    (hfit : offset + 4 ≤ bytes.length) (hslice : Field.slice bytes offset 4 = Word.ofFull word) :
    storage.readFull (base.shift offset) = .ok word := by
  refine Storage.readFull_field hwf h hfit ?_
  rw [Word.length_ofFull]
  exact hslice

/-- The arguments of a table are those that were written, as they
arrive. -/
theorem argumentsFrom_written {storage : Storage} (hwf : storage.WellFormed) {base : Address}
    {arguments : List String} {area out : Bytes} {entry text room : Nat}
    (h : ExecArea.writeArguments base area entry text arguments = .ok out)
    (hcontents : storage.contents base = some out)
    (htable : entry + 8 * (arguments.length + 1) ≤ text) (hroom : arguments.length < room) :
    Service.argumentsFrom storage (base.shift entry) room
      = .ok (arguments.map carried) := by
  have hlimit := hwf.contents_le hcontents
  unfold Storage.addressLimit at hlimit
  induction arguments generalizing area entry text room with
  | nil =>
      obtain ⟨room, rfl⟩ : ∃ n, room = n + 1 := ⟨room - 1, by simp at hroom; omega⟩
      obtain ⟨hfit, hfirst, hsecond⟩ := ExecArea.writeArguments_nil h
      unfold Service.argumentsFrom
      rw [readFull_slice hwf hcontents (by omega) hfirst, Address.shift_plus (by omega)]
      show (storage.readFull (base.shift (entry + 4)) >>= _) = _
      rw [readFull_slice hwf hcontents (by omega) hsecond]
      rfl
  | cons argument rest ih =>
      obtain ⟨room, rfl⟩ : ∃ n, room = n + 1 := ⟨room - 1, by simp at hroom; omega⟩
      rw [List.length_cons] at htable hroom
      obtain ⟨hfit, hpointer, hlength, htext, next, hnext⟩ :=
        ExecArea.writeArguments_cons h htable
      have hshift : (base.shift text).toNat = base.toNat + text :=
        Address.toNat_shift (by omega)
      have hsize : (UInt32.ofNat (CodePage.encode argument).length).toNat
          = (CodePage.encode argument).length := by
        rw [UInt32.toNat_ofNat']
        omega
      have hread : storage.read (base.shift text) (CodePage.encode argument).length
          = .ok (CodePage.encode argument) := by
        rw [Storage.read_contents hwf hcontents hfit, htext]
      have hend : base.shift text ≠ ExecArea.argumentEnd := by
        intro heq
        rw [heq] at hshift
        have : ExecArea.argumentEnd.toNat = 0xFFFFFFFF := rfl
        omega
      have htail := ih hnext (by omega) (show rest.length < room by omega)
      unfold Service.argumentsFrom
      rw [readFull_slice hwf hcontents (by omega) hpointer, Address.shift_plus (by omega)]
      show (storage.readFull (base.shift (entry + 4)) >>= _) = _
      rw [readFull_slice hwf hcontents (by omega) hlength]
      show (if base.shift text = ExecArea.argumentEnd ∧ _ then _ else _) = _
      rw [if_neg (fun hboth => hend hboth.1), hsize, hread, Address.shift_plus (by omega)]
      show (if room = 0 then _ else _) = _
      rw [if_neg (by omega), htail]
      show Except.ok (CodePage.decode (CodePage.encode argument) :: rest.map carried) = _
      rw [CodePage.decode_encode, List.map_cons]

/-- The arguments of an area that stands, as they arrive. -/
theorem readArguments_area {storage : Storage} (hwf : storage.WellFormed) {request : ExecRequest}
    {base : Address} {bytes : Bytes} (hencode : ExecArea.encode request base = .ok bytes)
    (hcontents : storage.contents base = some bytes)
    (hcount : request.arguments.length ≤ Service.maxArguments) :
    Service.readArguments storage (base.shift ExecArea.arguments)
      = .ok (request.arguments.map carried) := by
  obtain ⟨area, -, hbytes⟩ := ExecArea.encode_parts hencode
  refine argumentsFrom_written hwf hbytes hcontents ?_ (by omega)
  unfold ExecArea.tableSize
  omega

/-- The interpreter service finds the arguments of the request, as they
arrive. -/
theorem HandedExec.of_sent {storage : Storage} {request : ExecRequest} {cppl base r1 : Address}
    {arguments : List String} (h : HandedExec storage r1 arguments)
    (hsent : ExecArea.Sent storage request cppl base r1)
    (hcount : request.arguments.length ≤ Service.maxArguments) :
    arguments = request.arguments.map carried := by
  obtain ⟨p, table, hp, htable, harguments⟩ := h
  have hlist := ParmList.decodeExact_ok hp
  rw [hsent.decode] at hlist
  have hpointer : p[1] = base.shift ExecArea.argumentPointer := by
    have hone : p.toList[1]? = some p[1] := by simp
    rw [← Except.ok.inj hlist] at hone
    exact (Option.some.inj hone).symm
  rw [hpointer, hsent.table] at htable
  cases htable
  obtain ⟨bytes, hencode, hcontents⟩ := hsent.area
  rw [readArguments_area hsent.wellFormed hencode hcontents hcount] at harguments
  exact (Except.ok.inj harguments).symm

/-- The command an exec runs is the one that was sent, as it arrived. -/
theorem Runs.of_sentExec {m : Machine SimHost} {request : ExecRequest}
    {cppl base r1 : Address} {function text outDd : String} {command : Command}
    (hsent : ExecArea.Sent m.storage request cppl base r1)
    (harguments : request.arguments = [function, text, outDd])
    (h : Runs m r1 "IRXEXEC" command) : command = Command.parse (carried text) := by
  generalize hmodule : "IRXEXEC" = module at h
  cases h with
  | standard => exact absurd hmodule (by decide)
  | authorized => exact absurd hmodule (by decide)
  | exec hhanded hverb =>
      have hfound := hhanded.of_sent hsent (by simp [harguments, Service.maxArguments])
      rw [harguments] at hfound
      rw [(List.cons.inj (List.cons.inj hfound).2).1]

end Sim
end TsoBridge
