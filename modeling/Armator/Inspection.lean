import Armator.Session

/-!
# Inspection

Some requests only look at the target: the answer is all that comes of them, so that what a debugger
looks at on the way does not change where the target comes to (`inspection_unnoticed`). And `k` is the
last request of a session: behind it no packet is read and nothing is sent (`killed_session`).
-/

namespace Armator

open CString Packet

/-! ## Requests that only look -/

/-- The handler runs the target, writes to it, or ends the session. -/
def GdbHandler.disturbs : GdbHandler → Bool
  | cont | killRequest | step | writeGeneralRegisters | writeMemoryBinary | writeRegister => true
  | query | readGeneralRegisters | readMemory | readRegister | reason | setThread => false

/-- The event is a request for such a handler. -/
def Disturbs (b : Build) : ScannerEvent → Prop
  | .packet token beyond =>
    SumAccepted b token beyond ∧ (commandOf token beyond).any GdbHandler.disturbs = true
  | _ => False

instance (b : Build) : DecidablePred (Disturbs b)
  | .packet token beyond => inferInstanceAs (Decidable (IsRequest b (.packet token beyond) ∧ _))
  | .ack | .retransmission | .character _ | .newline | .endOfFile =>
    inferInstanceAs (Decidable False)

section
variable {b : Build} {turns : Nat} {data data' data0 : ParserData} {event : ScannerEvent}

theorem isRequest_of_disturbs (hdisturbs : Disturbs b event) : IsRequest b event := by
  cases event with
  | packet token beyond => exact hdisturbs.1
  | _ => exact hdisturbs

theorem GdbHandler.core_of_inspects {handler : GdbHandler} (hinspects : handler.disturbs = false)
    (b : Build) (turns : Nat) (g : GdbProtocolData) (t : Text) (i : Nat) :
    handler.core b turns g t i = g.arm ∧ handler.exception b turns g = g.targetException := by
  cases handler with
  | query | readGeneralRegisters | readMemory | readRegister | reason | setThread =>
    exact ⟨rfl, rfl⟩
  | _ => cases hinspects

theorem target_inspection (hrequest : IsRequest b event) (hinspects : ¬ Disturbs b event)
    (hok : scannerAction b turns data event = .ok data') : data'.gdb.target = data.gdb.target := by
  cases event with
  | packet token beyond =>
    obtain ⟨g, hsame, hreceive⟩ := packet_ok hok
    rw [← target_of_session hsame]
    obtain ⟨-, ⟨hkill, -⟩ | ⟨arm, exception, payload, heffect, -, hreplied⟩⟩ :=
      receive_ok hrequest hreceive
    · exact absurd ⟨hrequest, by rw [hkill]; rfl⟩ hinspects
    · have htarget : data'.gdb.target = (arm, exception, g.fd.shut) :=
        congrArg (fun s : Session => (s.arm, s.targetException, s.shut)) (session_of_replied hreplied)
      cases heffect with
      | unsupported => exact htarget
      | handled handler hcommand =>
        have hlooks : handler.disturbs = false := by
          by_contra hnot
          refine hinspects ⟨hrequest, ?_⟩
          rw [hcommand]
          exact Bool.of_not_eq_false hnot
        obtain ⟨hcore, hexception⟩ :=
          GdbHandler.core_of_inspects hlooks b turns g (textOf token beyond) 2
        rw [htarget, hcore, hexception]
        rfl
  | _ => exact hrequest.elim

theorem disturbing_of_run (hstored : Stored data.gdb) (hsame : data.gdb.target = data0.gdb.target)
    {events : List ScannerEvent} (hok : scannerRun b turns data events = .ok data') :
    ∃ data1, scannerRun b turns data0 (events.filter (Disturbs b)) = .ok data1 ∧
      data1.gdb.target = data'.gdb.target := by
  induction events generalizing data data0 with
  | nil =>
    cases hok
    exact ⟨data0, rfl, hsame.symm⟩
  | cons event events ih =>
    obtain ⟨data1, haction, hok⟩ := ok_of_bind hok
    have hstored1 := stored_action hstored haction
    by_cases hdisturbs : Disturbs b event
    · obtain ⟨data2, haction0, htarget, -⟩ :=
        target_request (isRequest_of_disturbs hdisturbs) hsame haction
      rw [List.filter_cons_of_pos (by simpa using hdisturbs), scannerRun_cons haction0]
      exact ih hstored1 htarget.symm hok
    · rw [List.filter_cons_of_neg (by simpa using hdisturbs)]
      refine ih hstored1 (Eq.trans ?_ hsame) hok
      by_cases hrequest : IsRequest b event
      · exact target_inspection hrequest hdisturbs haction
      · exact target_of_session (session_noise hstored hrequest haction)

end

section
variable {b : Build} {turns : Nat} {data data' : ParserData} {event : ScannerEvent}

variable (hshut : data.gdb.fd.shut = true)
include hshut

theorem handleError_of_shut (hok : handleError data = .ok data') : data' = data := by
  rw [handleError] at hok
  split at hok
  · rw [gdbRequireRetransmission, rioWriten_of_shut hshut (by decide)] at hok
    cases hok
  · exact (Except.ok.inj hok).symm

theorem gdbTransmitPacket_of_shut {g : GdbProtocolData} (hok : gdbTransmitPacket data.gdb = .ok g) :
    g = data.gdb := by
  obtain ⟨fd, hwrite, hok⟩ := ok_of_bind hok
  cases hok
  rw [rioWriten] at hwrite
  split at hwrite
  · cases hwrite
    rfl
  · cases hwrite

theorem action_of_shut (hok : scannerAction b turns data event = .ok data') :
    data'.gdb = data.gdb ∧ ∀ token beyond, event ≠ .packet token beyond := by
  cases event with
  | ack =>
    rw [handleError_of_shut hshut hok]
    exact ⟨rfl, by simp⟩
  | endOfFile =>
    rw [handleError_of_shut hshut hok]
    exact ⟨rfl, by simp⟩
  | newline =>
    cases hok
    exact ⟨rfl, by simp⟩
  | character c =>
    rw [scannerAction, addCharacterToError] at hok
    split at hok
    · obtain ⟨data1, herror, hok⟩ := ok_of_bind hok
      cases hok
      rw [handleError_of_shut hshut herror]
      exact ⟨rfl, by simp⟩
    · cases hok
      exact ⟨rfl, by simp⟩
  | retransmission =>
    obtain ⟨data1, herror, hok⟩ := ok_of_bind hok
    obtain ⟨g, htransmit, hok⟩ := ok_of_bind hok
    cases hok
    rw [handleError_of_shut hshut herror] at htransmit
    exact ⟨gdbTransmitPacket_of_shut hshut htransmit, by simp⟩
  | packet token beyond =>
    obtain ⟨data1, herror, hok⟩ := ok_of_bind hok
    obtain ⟨g, hreceive, -⟩ := ok_of_bind hok
    rw [handleError_of_shut hshut herror] at hreceive
    by_cases hsum : SumAccepted b token beyond
    · have hopen := (receive_ok hsum hreceive).1
      cases hopen.symm.trans hshut
    · rw [receive_noise hsum, gdbRequireRetransmission, rioWriten_of_shut hshut (by decide)]
        at hreceive
      cases hreceive

theorem run_of_shut {events : List ScannerEvent}
    (hok : scannerRun b turns data events = .ok data') :
    data'.gdb = data.gdb ∧ ∀ token beyond, .packet token beyond ∉ events := by
  induction events generalizing data with
  | nil =>
    cases hok
    exact ⟨rfl, fun _ _ => List.not_mem_nil⟩
  | cons event events ih =>
    obtain ⟨data1, haction, hok⟩ := ok_of_bind hok
    obtain ⟨hgdb, hevent⟩ := action_of_shut hshut haction
    obtain ⟨hgdb', hevents⟩ := ih (by rwa [hgdb]) hok
    refine ⟨hgdb'.trans hgdb, fun token beyond => ?_⟩
    exact List.not_mem_cons_of_ne_of_not_mem (hevent token beyond).symm (hevents token beyond)

end

theorem shut_of_kill {b : Build} {turns : Nat} {data data' : ParserData} {token : Chars}
    {beyond : Nat → Byte} (hsum : SumAccepted b token beyond)
    (hkill : commandOf token beyond = some .killRequest)
    (hok : scannerAction b turns data (.packet token beyond) = .ok data') :
    data'.gdb.fd.shut = true ∧ data'.gdb.arm = data.gdb.arm ∧
      data'.gdb.targetException = data.gdb.targetException := by
  obtain ⟨g, hsame, hreceive⟩ := packet_ok hok
  simp only [GdbProtocolData.session, Session.mk.injEq] at hsame
  rw [← hsame.1, ← hsame.2.1]
  rw [receive_request hsum, hkill] at hreceive
  obtain ⟨g1, hack, hreceive⟩ := ok_of_bind hreceive
  obtain ⟨fd, -, hack⟩ := ok_of_bind hack
  cases hack
  rw [← Except.ok.inj hreceive]
  exact ⟨rfl, rfl, rfl⟩

/-- **The session ends with `k`**: of what is received behind it, nothing is a packet, nothing is
answered and nothing reaches the target, or the process ends. -/
theorem killed_session (b : Build) (turns : Nat) (data data' : ParserData) (token : Chars)
    (beyond : Nat → Byte) (events : List ScannerEvent) (hsum : SumAccepted b token beyond)
    (hkill : commandOf token beyond = some .killRequest)
    (hok : scannerRun b turns data (.packet token beyond :: events) = .ok data') :
    data'.gdb.arm = data.gdb.arm ∧ data'.gdb.targetException = data.gdb.targetException ∧
    (∃ data1, scannerAction b turns data (.packet token beyond) = .ok data1 ∧
      data'.gdb.fd.sent = data1.gdb.fd.sent) ∧
    ∀ token' beyond', .packet token' beyond' ∉ events := by
  obtain ⟨data1, haction, hok⟩ := ok_of_bind hok
  obtain ⟨hshut, harm, hexception⟩ := shut_of_kill hsum hkill haction
  obtain ⟨hgdb, hevents⟩ := run_of_shut hshut hok
  rw [hgdb]
  exact ⟨harm, hexception, ⟨data1, haction, rfl⟩, hevents⟩

/-- A newline is received behind `k`. -/
theorem killed_session_newline :
    ∃ data', scannerRun .x86 0 (gdbScanner (coreAt 0) (fun _ => 0) fun _ => 0)
        [.packet (frame (ofString "k")) fun _ => 0, .newline] = .ok data' ∧
      data'.gdb.arm = coreAt 0 ∧ data'.gdb.targetException = 0 := by
  obtain ⟨data', hrun⟩ : ∃ data', scannerRun .x86 0
      (gdbScanner (coreAt 0) (fun _ => 0) fun _ => 0)
      [.packet (frame (ofString "k")) fun _ => 0, .newline] = .ok data' := exists_ok (by decide)
  obtain ⟨harm, hexception, -⟩ := killed_session .x86 0 _ data' _ _ [.newline]
    (sumAccepted_frame _ _ _) (by decide) hrun
  exact ⟨data', hrun, harm, hexception⟩

end Armator
