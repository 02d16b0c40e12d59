import Armator.Continue
import Armator.ScannerErrors

/-!
# Sessions

A session is what the events of the scanner do one after the other. Only the packets whose sum is
right are requests. The other events are answered and change neither the core nor the connection, so
that each request is executed once, in the order of the events, whatever stands between them and
however often a reply is sent again (`session_exactly_once`).
-/

namespace Armator

open CString Packet

/-! ## Requests -/

theorem exists_ok {ε α : Type} {x : Except ε α} (hok : x.isOk = true) : ∃ a, x = .ok a := by
  cases x with
  | error fault => cases hok
  | ok a => exact ⟨a, rfl⟩

/-- The event is a packet with the right sum. -/
def IsRequest (b : Build) : ScannerEvent → Prop
  | .packet token beyond => SumAccepted b token beyond
  | _ => False

instance (b : Build) : DecidablePred (IsRequest b) := fun event => by
  cases event with
  | packet token beyond => exact inferInstanceAs (Decidable (_ = _))
  | _ => exact inferInstanceAs (Decidable False)

/-- What the requests of a session work on. -/
structure Session where
  arm : ArmCoreData
  targetException : Int
  shut : Bool
  reply : Chars

def GdbProtocolData.session (g : GdbProtocolData) : Session where
  arm := g.arm
  targetException := g.targetException
  shut := g.fd.shut
  reply := lastReply g.fd.sent

/-- What handlers look at. -/
def GdbProtocolData.target (g : GdbProtocolData) : ArmCoreData × Int × Bool :=
  (g.arm, g.targetException, g.fd.shut)

section
variable {b : Build} {turns : Nat} {g g' k : GdbProtocolData} {token : Chars} {beyond : Nat → Byte}

theorem session_eq_iff : g.session = k.session ↔
    g.target = k.target ∧ lastReply g.fd.sent = lastReply k.fd.sent := by
  simp only [GdbProtocolData.session, GdbProtocolData.target, Session.mk.injEq, Prod.mk.injEq,
    and_assoc]

theorem target_of_session (hsame : g.session = k.session) : g.target = k.target :=
  (session_eq_iff.mp hsame).1

theorem shut_of_session (hsame : g.session = k.session) : g.fd.shut = k.fd.shut :=
  congrArg Session.shut hsame

theorem eq_of_target (hsame : g.target = k.target) :
    k = { g with fd := { g.fd with sent := k.fd.sent }, packet := k.packet, len := k.len } := by
  obtain ⟨arm, exc, ⟨sent, shut⟩, packet, len⟩ := g
  obtain ⟨arm', exc', ⟨sent', shut'⟩, packet', len'⟩ := k
  simp only [GdbProtocolData.target, Prod.mk.injEq] at hsame
  obtain ⟨rfl, rfl, rfl⟩ := hsame
  rfl

theorem GdbHandler.congr_target (handler : GdbHandler) (t : Text) (data : Nat)
    (hsame : g.target = k.target) :
    (handler.Answers b turns g t data ↔ handler.Answers b turns k t data) ∧
      handler.core b turns g t data = handler.core b turns k t data ∧
      handler.exception b turns g = handler.exception b turns k ∧
      handler.answer b turns g t data = handler.answer b turns k t data := by
  rw [eq_of_target hsame]
  cases handler <;> exact ⟨Iff.rfl, rfl, rfl, rfl⟩

theorem session_wrote {bytes : Chars} (hother : bytes.head? ≠ some (ascii '$')) :
    (g.wrote bytes).session = g.session := by
  simp only [GdbProtocolData.session, lastReply_wrote hother]
  rfl

theorem session_wrote_lastReply : (g.wrote (lastReply g.fd.sent)).session = g.session := by
  simp only [GdbProtocolData.session, lastReply_wrote_lastReply]
  rfl

theorem session_replied {payload : Chars} (hreplied : Replied g g' payload) :
    g'.session = { g.session with reply := frame payload } := by
  simp only [GdbProtocolData.session, hreplied.arm, hreplied.targetException, hreplied.fd,
    lastReply_concat_reply g.fd.sent (show (frame payload).head? = some (ascii '$') from rfl)]

/-! ## What a request does -/

/-- What a request other than `k` comes to: the core, the exception, and the reply. -/
inductive Effect (b : Build) (turns : Nat) (g : GdbProtocolData) (token : Chars)
    (beyond : Nat → Byte) : ArmCoreData → Int → Chars → Prop where
  | unsupported (hcommand : commandOf token beyond = none) :
    Effect b turns g token beyond g.arm g.targetException []
  | handled (handler : GdbHandler) (hcommand : commandOf token beyond = some handler)
    (hkill : handler ≠ .killRequest) (hanswers : handler.Answers b turns g (textOf token beyond) 2) :
    Effect b turns g token beyond (handler.core b turns g (textOf token beyond) 2)
      (handler.exception b turns g) (handler.answer b turns g (textOf token beyond) 2)

variable {arm : ArmCoreData} {exception : Int} {payload : Chars}

theorem Effect.isReply (heffect : Effect b turns g token beyond arm exception payload) :
    IsReply payload := by
  cases heffect with
  | unsupported => exact (isReply_iff _).mpr rfl
  | handled handler => exact GdbHandler.isReply_answer ..

theorem Effect.congr_target (heffect : Effect b turns g token beyond arm exception payload)
    (hsame : g.target = k.target) : Effect b turns k token beyond arm exception payload := by
  cases heffect with
  | unsupported hcommand =>
    rw [eq_of_target hsame]
    exact .unsupported hcommand
  | handled handler hcommand hkill hanswers =>
    obtain ⟨hiff, hcore, hexception, hanswer⟩ :=
      @GdbHandler.congr_target b turns g k handler (textOf token beyond) 2 hsame
    rw [hcore, hexception, hanswer]
    exact .handled handler hcommand hkill (hiff.mp hanswers)

theorem lastReply_acked : lastReply (acked g).fd.sent = lastReply g.fd.sent :=
  lastReply_concat_other _ (by decide)

theorem receive_ok (hsum : SumAccepted b token beyond)
    (hok : receive b turns g token beyond = .ok g') :
    g.fd.shut = false ∧
      ((commandOf token beyond = some .killRequest ∧
          g' = { acked g with fd := shutdown (acked g).fd }) ∨
        ∃ arm exception payload, Effect b turns g token beyond arm exception payload ∧
          payload.length ≤ 1019 ∧
          Replied { acked g with arm := arm, targetException := exception } g' payload) := by
  rw [receive_request hsum] at hok
  obtain ⟨g1, hack, hok⟩ := ok_of_bind hok
  have hopen : g.fd.shut = false := by
    cases hshut : g.fd.shut with
    | false => rfl
    | true =>
      rw [gdbSendAck, rioWriten_of_shut hshut (by decide)] at hack
      cases hack
  rw [gdbSendAck_of_open g hopen] at hack
  cases hack
  refine ⟨hopen, ?_⟩
  cases hcommand : commandOf token beyond with
  | none =>
    rw [hcommand] at hok
    have hsends : Sends (acked g) (ofString "") (gdbSendData (acked g) (ofString "")) :=
      sends_gdbSendData ((isReply_iff _).mpr rfl)
    exact Or.inr ⟨_, _, _, .unsupported hcommand, by simp, (hsends.replied hok).2.2⟩
  | some handler =>
    rw [hcommand] at hok
    by_cases hkill : handler = .killRequest
    · subst hkill
      cases hok
      exact Or.inl ⟨rfl, rfl⟩
    · have hanswers := GdbHandler.answers_of_run hok
      obtain ⟨hlength, -, hreplied⟩ := (GdbHandler.sends_run hkill hanswers).replied hok
      rw [answers_acked] at hanswers
      rw [answer_acked] at hlength hreplied
      rw [core_acked] at hreplied
      exact Or.inr ⟨_, _, _, .handled handler hcommand hkill hanswers, hlength, hreplied⟩

theorem receive_of_effect (hsum : SumAccepted b token beyond) (hopen : g.fd.shut = false)
    (heffect : Effect b turns g token beyond arm exception payload)
    (hlength : payload.length ≤ 1019) :
    ∃ g', receive b turns g token beyond = .ok g' ∧
      Replied { acked g with arm := arm, targetException := exception } g' payload := by
  rw [receive_request hsum, gdbSendAck_of_open g hopen]
  cases heffect with
  | unsupported hcommand =>
    have hsends : Sends (acked g) (ofString "") (gdbSendData (acked g) (ofString "")) :=
      sends_gdbSendData ((isReply_iff _).mpr rfl)
    rw [hcommand]
    exact hsends.ok hlength hopen
  | handled handler hcommand hkill hanswers =>
    rw [← answers_acked] at hanswers
    have hsends := GdbHandler.sends_run hkill hanswers
    rw [answer_acked, core_acked] at hsends
    rw [hcommand]
    exact hsends.ok hlength hopen

theorem session_of_replied
    (hreplied : Replied { acked g with arm := arm, targetException := exception } g' payload) :
    g'.session = ⟨arm, exception, g.fd.shut, frame payload⟩ := by
  rw [session_replied hreplied]
  rfl

theorem Answered.shut (hanswered : Answered g g' arm payload) : g'.fd.shut = g.fd.shut := by
  rw [hanswered.fd]

theorem Answered.lastReply (hanswered : Answered g g' arm payload) :
    lastReply g'.fd.sent = frame payload := by
  have hsent : g'.fd.sent = g.fd.sent ++ [ofString "+"] ++ [frame payload] := by
    rw [hanswered.fd, List.append_assoc]
    rfl
  rw [hsent]
  exact lastReply_concat_reply (g.fd.sent ++ [ofString "+"])
    (show (frame payload).head? = some (ascii '$') from rfl)

theorem receive_target (hsum : SumAccepted b token beyond) (hsame : g.target = k.target)
    (hok : receive b turns g token beyond = .ok g') :
    ∃ k', receive b turns k token beyond = .ok k' ∧ k'.target = g'.target ∧
      (lastReply g.fd.sent = lastReply k.fd.sent →
        lastReply k'.fd.sent = lastReply g'.fd.sent) := by
  have hshut : g.fd.shut = k.fd.shut := congrArg (·.2.2) hsame
  obtain ⟨hopen, hcase⟩ := receive_ok hsum hok
  rw [hshut] at hopen
  rcases hcase with ⟨hcommand, rfl⟩ | ⟨arm, exception, payload, heffect, hlength, hreplied⟩
  · refine ⟨{ acked k with fd := shutdown (acked k).fd }, ?_, ?_, fun hreply => ?_⟩
    · rw [receive_request hsum, gdbSendAck_of_open k hopen, hcommand]
      rfl
    · rw [eq_of_target hsame]
      rfl
    · have hacked : lastReply (acked k).fd.sent = lastReply (acked g).fd.sent := by
        rw [lastReply_acked, lastReply_acked, hreply]
      exact hacked
  · obtain ⟨k', hok', hreplied'⟩ :=
      receive_of_effect hsum hopen (heffect.congr_target hsame) hlength
    have hsession : k'.session = g'.session := by
      rw [session_of_replied hreplied', session_of_replied hreplied, hshut]
    obtain ⟨htarget, hreply⟩ := session_eq_iff.mp hsession
    exact ⟨k', hok', htarget, fun _ => hreply⟩

end

/-! ## Noise -/

section
variable {b : Build} {turns : Nat} {data data' : ParserData} {event : ScannerEvent}

theorem session_handleError (hok : handleError data = .ok data') :
    data'.gdb.session = data.gdb.session := by
  rw [(handleError_ok hok).1]
  exact session_wrote (head?_errorAnswer data)

theorem session_noise (hstored : Stored data.gdb) (hnoise : ¬ IsRequest b event)
    (hok : scannerAction b turns data event = .ok data') :
    data'.gdb.session = data.gdb.session := by
  cases event with
  | ack => exact session_handleError hok
  | retransmission =>
    obtain ⟨hgdb, -⟩ := retransmission_ok hstored hok
    rw [hgdb, ← lastReply_wrote (g := data.gdb) (head?_errorAnswer data), session_wrote_lastReply]
    exact session_wrote (head?_errorAnswer data)
  | packet token beyond =>
    obtain ⟨data1, herror, hok⟩ := ok_of_bind hok
    obtain ⟨g, hreceive, hok⟩ := ok_of_bind hok
    cases hok
    rw [receive_noise hnoise] at hreceive
    rw [gdbRequireRetransmission_ok hreceive, session_wrote (by decide)]
    exact session_handleError herror
  | character c =>
    rw [scannerAction, addCharacterToError] at hok
    split at hok
    · obtain ⟨data1, herror, hok⟩ := ok_of_bind hok
      have hsame := session_handleError herror
      cases hok
      exact hsame
    · cases hok
      rfl
  | newline =>
    cases hok
    rfl
  | endOfFile => exact session_handleError hok

theorem handleError_of_open (hopen : data.gdb.fd.shut = false) :
    ∃ data', handleError data = .ok data' := by
  rw [handleError]
  split
  · rw [gdbRequireRetransmission_of_open _ hopen]
    exact ⟨_, rfl⟩
  · exact ⟨data, rfl⟩

theorem open_handleError (hok : handleError data = .ok data') :
    data'.gdb.fd.shut = data.gdb.fd.shut :=
  shut_of_session (session_handleError hok)

section
variable {token : Chars} {beyond : Nat → Byte}

theorem packet_ok
    (hok : scannerAction b turns data (.packet token beyond) = .ok data') :
    ∃ g, g.session = data.gdb.session ∧ receive b turns g token beyond = .ok data'.gdb := by
  obtain ⟨data1, herror, hok⟩ := ok_of_bind hok
  obtain ⟨g, hreceive, hok⟩ := ok_of_bind hok
  cases hok
  exact ⟨data1.gdb, session_handleError herror, hreceive⟩

theorem action_of_open (hopen : data.gdb.fd.shut = false) {P : GdbProtocolData → Prop}
    (hreceive : ∀ g, g.session = data.gdb.session →
      ∃ g', receive b turns g token beyond = .ok g' ∧ P g') :
    ∃ data', scannerAction b turns data (.packet token beyond) = .ok data' ∧ P data'.gdb := by
  obtain ⟨data1, herror⟩ := handleError_of_open hopen
  obtain ⟨g, hok, hP⟩ := hreceive data1.gdb (session_handleError herror)
  refine ⟨{ data1 with gdb := g }, ?_, hP⟩
  rw [scannerAction, herror]
  show (receive b turns data1.gdb token beyond >>= _) = _
  rw [hok]
  rfl

theorem action_of_effect (hsum : SumAccepted b token beyond) (hopen : data.gdb.fd.shut = false)
    {arm : ArmCoreData} {exception : Int} {payload : Chars}
    (heffect : Effect b turns data.gdb token beyond arm exception payload)
    (hlength : payload.length ≤ 1019) :
    ∃ data', scannerAction b turns data (.packet token beyond) = .ok data' ∧
      data'.gdb.session = ⟨arm, exception, false, frame payload⟩ := by
  refine action_of_open (P := fun g' => g'.session = _) hopen fun g hsame => ?_
  have hopen' : g.fd.shut = false := (shut_of_session hsame).trans hopen
  obtain ⟨g', hok, hreplied⟩ :=
    receive_of_effect hsum hopen' (heffect.congr_target (target_of_session hsame.symm)) hlength
  refine ⟨g', hok, ?_⟩
  rw [session_of_replied hreplied, hopen']

end

theorem noise_of_open (hopen : data.gdb.fd.shut = false) (hnoise : ¬ IsRequest b event) :
    ∃ data', scannerAction b turns data event = .ok data' := by
  obtain ⟨data1, herror⟩ := handleError_of_open hopen
  cases event with
  | ack => exact ⟨data1, herror⟩
  | retransmission =>
    obtain ⟨data', hok, -⟩ := @retransmission_of_open b turns data hopen
    exact ⟨data', hok⟩
  | packet token beyond =>
    have hreceive : ∀ g, g.session = data.gdb.session →
        ∃ g', receive b turns g token beyond = .ok g' ∧ True := by
      intro g hsame
      have hopen' : g.fd.shut = false := (shut_of_session hsame).trans hopen
      rw [receive_noise hnoise, gdbRequireRetransmission_of_open _ hopen']
      exact ⟨_, rfl, trivial⟩
    obtain ⟨data', hok, -⟩ := action_of_open hopen hreceive
    exact ⟨data', hok⟩
  | character c =>
    rw [scannerAction, addCharacterToError]
    split
    · rw [herror]
      exact ⟨_, rfl⟩
    · exact ⟨_, rfl⟩
  | newline => exact ⟨data, rfl⟩
  | endOfFile => exact ⟨data1, herror⟩

/-! ## Runs -/

theorem open_of_request (hrequest : IsRequest b event)
    (hok : scannerAction b turns data event = .ok data') : data.gdb.fd.shut = false := by
  cases event with
  | packet token beyond =>
    obtain ⟨data1, herror, hok⟩ := ok_of_bind hok
    obtain ⟨g, hreceive, -⟩ := ok_of_bind hok
    rw [← open_handleError herror]
    exact (receive_ok hrequest hreceive).1
  | _ => exact hrequest.elim

theorem target_request {data0 : ParserData} (hrequest : IsRequest b event)
    (hsame : data.gdb.target = data0.gdb.target)
    (hok : scannerAction b turns data event = .ok data') :
    ∃ data1, scannerAction b turns data0 event = .ok data1 ∧
      data1.gdb.target = data'.gdb.target ∧
      (lastReply data.gdb.fd.sent = lastReply data0.gdb.fd.sent →
        lastReply data1.gdb.fd.sent = lastReply data'.gdb.fd.sent) := by
  have hopen := open_of_request hrequest hok
  have hopen0 : data0.gdb.fd.shut = false := (congrArg (·.2.2) hsame).symm.trans hopen
  cases event with
  | packet token beyond =>
    obtain ⟨g, hg, hreceive⟩ := packet_ok hok
    obtain ⟨htarget, hreply⟩ := session_eq_iff.mp hg
    refine action_of_open (P := fun k => k.target = _ ∧ (_ → lastReply k.fd.sent = _)) hopen0
      fun k hk => ?_
    obtain ⟨htarget0, hreply0⟩ := session_eq_iff.mp hk
    obtain ⟨k', hok', hk', hlast⟩ :=
      receive_target hrequest (htarget.trans (hsame.trans htarget0.symm)) hreceive
    exact ⟨k', hok', hk', fun hsame' => hlast (hreply.trans (hsame'.trans hreply0.symm))⟩
  | _ => exact hrequest.elim

theorem session_request {data0 : ParserData} (hrequest : IsRequest b event)
    (hsame : data.gdb.session = data0.gdb.session)
    (hok : scannerAction b turns data event = .ok data') :
    ∃ data1, scannerAction b turns data0 event = .ok data1 ∧
      data1.gdb.session = data'.gdb.session := by
  obtain ⟨htarget, hreply⟩ := session_eq_iff.mp hsame
  obtain ⟨data1, haction, htarget1, hreply1⟩ := target_request hrequest htarget hok
  exact ⟨data1, haction, session_eq_iff.mpr ⟨htarget1, hreply1 hreply⟩⟩

theorem open_of_action (hstored : Stored data.gdb)
    (hok : scannerAction b turns data event = .ok data') (hopen : data'.gdb.fd.shut = false) :
    data.gdb.fd.shut = false := by
  by_cases hrequest : IsRequest b event
  · exact open_of_request hrequest hok
  · rw [← hopen]
    exact (shut_of_session (session_noise hstored hrequest hok)).symm

theorem open_of_run (hstored : Stored data.gdb) {events : List ScannerEvent}
    (hok : scannerRun b turns data events = .ok data') (hopen : data'.gdb.fd.shut = false) :
    data.gdb.fd.shut = false := by
  induction events generalizing data with
  | nil =>
    cases hok
    exact hopen
  | cons event events ih =>
    obtain ⟨data1, haction, hok⟩ := ok_of_bind hok
    exact open_of_action hstored haction (ih (stored_action hstored haction) hok)

theorem scannerRun_cons {events : List ScannerEvent} {data1 : ParserData}
    (haction : scannerAction b turns data event = .ok data1) :
    scannerRun b turns data (event :: events) = scannerRun b turns data1 events := by
  rw [scannerRun, haction]
  rfl

theorem requests_of_run {data0 : ParserData} (hstored : Stored data.gdb)
    (hsame : data.gdb.session = data0.gdb.session) {events : List ScannerEvent}
    (hok : scannerRun b turns data events = .ok data') :
    ∃ data1, scannerRun b turns data0 (events.filter (IsRequest b)) = .ok data1 ∧
      data1.gdb.session = data'.gdb.session := by
  induction events generalizing data data0 with
  | nil =>
    cases hok
    exact ⟨data0, rfl, hsame.symm⟩
  | cons event events ih =>
    obtain ⟨data1, haction, hok⟩ := ok_of_bind hok
    have hstored1 := stored_action hstored haction
    by_cases hrequest : IsRequest b event
    · obtain ⟨data2, haction0, hsession⟩ := session_request hrequest hsame haction
      rw [List.filter_cons_of_pos (by simpa using hrequest), scannerRun_cons haction0]
      exact ih hstored1 hsession.symm hok
    · rw [List.filter_cons_of_neg (by simpa using hrequest)]
      exact ih hstored1 ((session_noise hstored hrequest haction).trans hsame) hok

theorem run_of_requests {data0 data1 : ParserData} (hstored : Stored data.gdb)
    (hstored0 : Stored data0.gdb) (hsame : data0.gdb.session = data.gdb.session)
    {events : List ScannerEvent}
    (hok : scannerRun b turns data0 (events.filter (IsRequest b)) = .ok data1)
    (hopen : data1.gdb.fd.shut = false) :
    ∃ data', scannerRun b turns data events = .ok data' ∧
      data'.gdb.session = data1.gdb.session := by
  induction events generalizing data data0 with
  | nil =>
    cases hok
    exact ⟨data, rfl, hsame.symm⟩
  | cons event events ih =>
    by_cases hrequest : IsRequest b event
    · rw [List.filter_cons_of_pos (by simpa using hrequest)] at hok
      obtain ⟨data2, haction0, hok⟩ := ok_of_bind hok
      obtain ⟨data3, haction, hsession⟩ := session_request hrequest hsame haction0
      rw [scannerRun_cons haction]
      exact ih (stored_action hstored haction) (stored_action hstored0 haction0) hsession.symm hok
    · rw [List.filter_cons_of_neg (by simpa using hrequest)] at hok
      have hopen0 := open_of_run hstored0 hok hopen
      obtain ⟨data3, haction⟩ := @noise_of_open b turns data event
        ((shut_of_session hsame).symm.trans hopen0) hrequest
      rw [scannerRun_cons haction]
      exact ih (stored_action hstored haction) hstored0
        (hsame.trans (session_noise hstored hrequest haction).symm) hok

end

/-- **Exactly once**: a session is what its requests do one after the other. Acknowledgements,
requests for retransmission, packets with a wrong sum and characters between the packets neither
make a request run again nor keep one from running. -/
theorem session_exactly_once (b : Build) (turns : Nat) (arm : ArmCoreData)
    (packet buffer : Nat → Byte) (events : List ScannerEvent) :
    (∀ data, scannerRun b turns (gdbScanner arm packet buffer) events = .ok data →
      ∃ data', scannerRun b turns (gdbScanner arm packet buffer) (events.filter (IsRequest b)) =
        .ok data' ∧ data'.gdb.session = data.gdb.session) ∧
    ∀ data', scannerRun b turns (gdbScanner arm packet buffer) (events.filter (IsRequest b)) =
        .ok data' → data'.gdb.fd.shut = false →
      ∃ data, scannerRun b turns (gdbScanner arm packet buffer) events = .ok data ∧
        data.gdb.session = data'.gdb.session :=
  have hstored : Stored (gdbScanner arm packet buffer).gdb := rfl
  ⟨fun _ hok => requests_of_run hstored rfl hok,
    fun _ hok hopen => run_of_requests hstored hstored rfl hok hopen⟩

end Armator
