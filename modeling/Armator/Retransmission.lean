import Armator.GdbPackets

/-!
# Retransmission

Between two events of the scanner `packet` holds the reply that has been transmitted last, whatever
the events were (`Stored`, `stored_run`), so a request for retransmission sends this reply again and
changes nothing else.
-/

namespace Armator

open CString Packet

/-! ## Replies among the writes -/

/-- The last packet among the writes; the others are acknowledgements and requests. -/
def lastReply (sent : List Chars) : Chars :=
  (sent.filter fun bytes => bytes.head? = some (ascii '$')).getLastD []

/-- The packet stored is the last reply. -/
def Stored (g : GdbProtocolData) : Prop :=
  (List.range g.len).map g.packet = lastReply g.fd.sent

section
variable (sent : List Chars) {bytes : Chars}

theorem lastReply_concat_reply (hreply : bytes.head? = some (ascii '$')) :
    lastReply (sent ++ [bytes]) = bytes := by
  rw [lastReply, List.filter_append, List.filter_cons_of_pos (by simpa using hreply)]
  exact List.getLastD_concat ..

theorem lastReply_concat_other (hother : bytes.head? ≠ some (ascii '$')) :
    lastReply (sent ++ [bytes]) = lastReply sent := by
  rw [lastReply, List.filter_append, List.filter_cons_of_neg (by simpa using hother),
    List.filter_nil, List.append_nil]
  rfl

theorem head?_lastReply (hne : lastReply sent ≠ []) :
    (lastReply sent).head? = some (ascii '$') := by
  unfold lastReply at hne ⊢
  cases hreplies : sent.filter fun bytes => bytes.head? = some (ascii '$') with
  | nil =>
    rw [hreplies] at hne
    exact absurd rfl hne
  | cons reply replies =>
    have hmem : (reply :: replies).getLastD [] ∈ reply :: replies := by
      rw [List.getLastD_cons]
      exact List.getLastD_mem_cons ..
    rw [← hreplies] at hmem ⊢
    exact of_decide_eq_true (List.mem_filter.mp hmem).2

end

/-! ## Writes -/

/-- The connection after a write of some bytes. -/
def Connection.wrote (fd : Connection) (bytes : Chars) : Connection :=
  { fd with sent := fd.sent ++ [bytes].filter (· ≠ []) }

section
variable {fd : Connection} {bytes : Chars}

theorem wrote_of_ne (hne : bytes ≠ []) :
    fd.wrote bytes = { fd with sent := fd.sent ++ [bytes] } := by
  rw [Connection.wrote, List.filter_cons_of_pos (by simpa using hne), List.filter_nil]

theorem wrote_nil : fd.wrote [] = fd := by
  rw [Connection.wrote, List.filter_cons_of_neg (by simp), List.filter_nil, List.append_nil]

theorem rioWriten_wrote (hopen : fd.shut = false) : rioWriten fd bytes = .ok (fd.wrote bytes) := by
  by_cases hempty : bytes = []
  · subst hempty
    rw [wrote_nil]
    rfl
  · rw [rioWriten_of_open hopen hempty, wrote_of_ne hempty]

theorem rioWriten_ok {fd' : Connection} (hok : rioWriten fd bytes = .ok fd') :
    fd' = fd.wrote bytes := by
  by_cases hempty : bytes = []
  · subst hempty
    rw [wrote_nil]
    exact (Except.ok.inj hok).symm
  · cases hshut : fd.shut with
    | false =>
      rw [rioWriten_wrote hshut] at hok
      exact (Except.ok.inj hok).symm
    | true =>
      rw [rioWriten_of_shut hshut hempty] at hok
      cases hok

end

/-! ## One event -/

theorem ok_of_bind {ε α β : Type} {x : Except ε α} {f : α → Except ε β} {y : β}
    (hok : x >>= f = .ok y) : ∃ a, x = .ok a ∧ f a = .ok y := by
  cases x with
  | error fault => cases hok
  | ok a => exact ⟨a, rfl, hok⟩

/-- `g` after a write of some bytes. -/
def GdbProtocolData.wrote (g : GdbProtocolData) (bytes : Chars) : GdbProtocolData :=
  { g with fd := g.fd.wrote bytes }

/-- What `handle_error` writes. -/
def errorAnswer (data : ParserData) : Chars := if data.len ≠ 0 then ofString "-" else []

section
variable {g g' : GdbProtocolData} {bytes : Chars}

theorem lastReply_wrote (hother : bytes.head? ≠ some (ascii '$')) :
    lastReply (g.wrote bytes).fd.sent = lastReply g.fd.sent := by
  by_cases hempty : bytes = []
  · rw [hempty, GdbProtocolData.wrote, wrote_nil]
  · rw [GdbProtocolData.wrote, wrote_of_ne hempty]
    exact lastReply_concat_other _ hother

theorem lastReply_wrote_lastReply :
    lastReply (g.wrote (lastReply g.fd.sent)).fd.sent = lastReply g.fd.sent := by
  by_cases hempty : lastReply g.fd.sent = []
  · rw [hempty, GdbProtocolData.wrote, wrote_nil, hempty]
  · rw [GdbProtocolData.wrote, wrote_of_ne hempty]
    exact lastReply_concat_reply _ (head?_lastReply _ hempty)

theorem stored_wrote (hstored : Stored g) (hother : bytes.head? ≠ some (ascii '$')) :
    Stored (g.wrote bytes) :=
  hstored.trans (lastReply_wrote hother).symm

theorem stored_replied {payload : Chars} (hreplied : Replied g g' payload) : Stored g' := by
  rw [Stored, hreplied.stored, hreplied.fd, lastReply_concat_reply _ rfl]

theorem write_ok
    (hok : (do let fd ← rioWriten g.fd bytes; .ok { g with fd := fd } :
      Except Fault GdbProtocolData) = .ok g') : g' = g.wrote bytes := by
  obtain ⟨fd, hwrite, hok⟩ := ok_of_bind hok
  cases hok
  rw [GdbProtocolData.wrote, rioWriten_ok hwrite]

theorem gdbRequireRetransmission_ok (hok : gdbRequireRetransmission g = .ok g') :
    g' = g.wrote (ofString "-") :=
  write_ok hok

theorem gdbSendAck_ok (hok : gdbSendAck g = .ok g') : g' = g.wrote (ofString "+") :=
  write_ok hok

theorem gdbTransmitPacket_ok (hstored : Stored g) (hok : gdbTransmitPacket g = .ok g') :
    g' = g.wrote (lastReply g.fd.sent) := by
  rw [← hstored]
  exact write_ok hok

theorem stored_receive {b : Build} {turns : Nat} {token : Chars} {beyond : Nat → Byte}
    (hstored : Stored g) (hok : receive b turns g token beyond = .ok g') : Stored g' := by
  rw [receive, gdbPacketAnalysis] at hok
  split at hok
  · obtain ⟨g1, hack, hok⟩ := ok_of_bind hok
    have hstored1 : Stored g1 := by
      rw [gdbSendAck_ok hack]
      exact stored_wrote hstored (by decide)
    dsimp only at hok
    split at hok
    · next handler hhandler =>
      by_cases hkill : handler = .killRequest
      · subst hkill
        cases hok
        exact hstored1
      · have hsends := GdbHandler.sends_run hkill (GdbHandler.answers_of_run hok)
        exact stored_replied (hsends.replied hok).2.2
    · have hsends : Sends g1 (ofString "") (gdbSendData g1 (ofString "")) :=
        sends_gdbSendData ((isReply_iff _).mpr (by decide))
      exact stored_replied (hsends.replied hok).2.2
  · rw [gdbRequireRetransmission_ok hok]
    exact stored_wrote hstored (by decide)

end

section
variable {b : Build} {turns : Nat} {data data' : ParserData}

theorem handleError_ok (hok : handleError data = .ok data') :
    data'.gdb = data.gdb.wrote (errorAnswer data) ∧ data'.len = 0 := by
  rw [handleError] at hok
  rw [errorAnswer]
  split at hok
  · next hlen =>
    obtain ⟨g, hrequire, hok⟩ := ok_of_bind hok
    cases hok
    rw [if_pos hlen]
    exact ⟨gdbRequireRetransmission_ok hrequire, rfl⟩
  · next hlen =>
    cases hok
    rw [if_neg hlen, GdbProtocolData.wrote, wrote_nil]
    exact ⟨rfl, not_not.mp hlen⟩

theorem head?_errorAnswer (data : ParserData) : (errorAnswer data).head? ≠ some (ascii '$') := by
  rw [errorAnswer]
  split <;> decide

theorem stored_handleError (hstored : Stored data.gdb) (hok : handleError data = .ok data') :
    Stored data'.gdb := by
  rw [(handleError_ok hok).1]
  exact stored_wrote hstored (head?_errorAnswer data)

theorem retransmission_ok (hstored : Stored data.gdb)
    (hok : scannerAction b turns data .retransmission = .ok data') :
    data'.gdb = (data.gdb.wrote (errorAnswer data)).wrote (lastReply data.gdb.fd.sent) ∧
      data'.len = 0 := by
  obtain ⟨data1, herror, hok⟩ := ok_of_bind hok
  obtain ⟨g, htransmit, hok⟩ := ok_of_bind hok
  cases hok
  obtain ⟨hgdb, hlen⟩ := handleError_ok herror
  have hlast : lastReply data1.gdb.fd.sent = lastReply data.gdb.fd.sent := by
    rw [hgdb]
    exact lastReply_wrote (head?_errorAnswer data)
  rw [gdbTransmitPacket_ok (stored_handleError hstored herror) htransmit, hlast, hgdb]
  exact ⟨rfl, hlen⟩

/-- The step lemma. -/
theorem stored_action (hstored : Stored data.gdb) {event : ScannerEvent}
    (hok : scannerAction b turns data event = .ok data') : Stored data'.gdb := by
  cases event with
  | ack => exact stored_handleError hstored hok
  | retransmission =>
    obtain ⟨data1, herror, hok⟩ := ok_of_bind hok
    obtain ⟨g, htransmit, hok⟩ := ok_of_bind hok
    cases hok
    have hstored1 := stored_handleError hstored herror
    rw [gdbTransmitPacket_ok hstored1 htransmit]
    exact hstored1.trans lastReply_wrote_lastReply.symm
  | packet token beyond =>
    obtain ⟨data1, herror, hok⟩ := ok_of_bind hok
    obtain ⟨g, hreceive, hok⟩ := ok_of_bind hok
    cases hok
    exact stored_receive (stored_handleError hstored herror) hreceive
  | character c =>
    rw [scannerAction, addCharacterToError] at hok
    split at hok
    · obtain ⟨data1, herror, hok⟩ := ok_of_bind hok
      have hstored1 := stored_handleError hstored herror
      cases hok
      exact hstored1
    · cases hok
      exact hstored
  | newline =>
    cases hok
    exact hstored
  | endOfFile => exact stored_handleError hstored hok

/-- The run lemma. -/
theorem stored_run (hstored : Stored data.gdb) {events : List ScannerEvent}
    (hok : scannerRun b turns data events = .ok data') : Stored data'.gdb := by
  induction events generalizing data with
  | nil =>
    cases hok
    exact hstored
  | cons event events ih =>
    obtain ⟨data1, haction, hok⟩ := ok_of_bind hok
    exact ih (stored_action hstored haction) hok

end

/-! ## Requests for retransmission -/

/-- What is written for `n` requests in a row. -/
def writesFor (data : ParserData) (n : Nat) : List Chars :=
  ((if n = 0 then [] else errorAnswer data) ::
    List.replicate n (lastReply data.gdb.fd.sent)).filter (· ≠ [])

section
variable {b : Build} {turns : Nat} {data data' : ParserData}

theorem writesFor_zero : writesFor data 0 = [] := by
  rw [writesFor, if_pos rfl, List.replicate_zero, List.filter_cons_of_neg (by simp), List.filter_nil]

theorem writesFor_succ (n : Nat)
    (hgdb : data'.gdb = (data.gdb.wrote (errorAnswer data)).wrote (lastReply data.gdb.fd.sent))
    (hlen : data'.len = 0) :
    data'.gdb.fd.sent ++ writesFor data' n = data.gdb.fd.sent ++ writesFor data (n + 1) := by
  have hlast : lastReply data'.gdb.fd.sent = lastReply data.gdb.fd.sent := by
    rw [hgdb, ← lastReply_wrote (g := data.gdb) (head?_errorAnswer data), lastReply_wrote_lastReply]
  have hquiet : (if n = 0 then [] else errorAnswer data') = [] := by
    rw [errorAnswer, if_neg (not_not_intro hlen), ite_self]
  have hsplit : ∀ (first second : Chars) (rest : List Chars),
      (first :: second :: rest).filter (· ≠ []) =
        [first].filter (· ≠ []) ++ ([second].filter (· ≠ []) ++ rest.filter (· ≠ [])) := by
    intro first second rest
    rw [← List.filter_append, ← List.filter_append]
    rfl
  rw [writesFor, writesFor, hquiet, hlast, if_neg (Nat.succ_ne_zero n), List.replicate_succ, hsplit,
    List.filter_cons_of_neg (by simp), hgdb]
  simp only [GdbProtocolData.wrote, Connection.wrote, List.append_assoc]

theorem sent_retransmissions (hstored : Stored data.gdb) {n : Nat}
    (hok : scannerRun b turns data (List.replicate n .retransmission) = .ok data') :
    data'.gdb = { data.gdb with
      fd := { data.gdb.fd with sent := data.gdb.fd.sent ++ writesFor data n } } := by
  induction n generalizing data with
  | zero =>
    cases hok
    rw [writesFor_zero, List.append_nil]
  | succ n ih =>
    obtain ⟨data1, haction, hok⟩ := ok_of_bind hok
    obtain ⟨hgdb, hlen⟩ := retransmission_ok hstored haction
    rw [ih (stored_action hstored haction) hok, writesFor_succ n hgdb hlen, hgdb]
    rfl

theorem retransmission_of_open (hopen : data.gdb.fd.shut = false) :
    ∃ data', scannerAction b turns data .retransmission = .ok data' ∧
      data'.gdb.fd.shut = false := by
  have herror : ∃ data1, handleError data = .ok data1 ∧ data1.gdb.fd.shut = false := by
    rw [handleError]
    split
    · rw [gdbRequireRetransmission_of_open _ hopen]
      exact ⟨_, rfl, hopen⟩
    · exact ⟨_, rfl, hopen⟩
  obtain ⟨data1, herror, hopen1⟩ := herror
  rw [scannerAction, herror]
  refine ⟨{ data1 with gdb := data1.gdb.wrote ((List.range data1.gdb.len).map data1.gdb.packet) },
    ?_, hopen1⟩
  show (gdbTransmitPacket data1.gdb >>= _) = _
  rw [gdbTransmitPacket, rioWriten_wrote hopen1]
  rfl

theorem retransmissions_of_open (hopen : data.gdb.fd.shut = false) (n : Nat) :
    ∃ data', scannerRun b turns data (List.replicate n .retransmission) = .ok data' := by
  induction n generalizing data with
  | zero => exact ⟨data, rfl⟩
  | succ n ih =>
    obtain ⟨data1, haction, hopen1⟩ := @retransmission_of_open b turns data hopen
    obtain ⟨data', hrun⟩ := ih hopen1
    refine ⟨data', ?_⟩
    rw [List.replicate_succ, scannerRun, haction]
    exact hrun

end

/-- What requests for retransmission find in a state, and what they leave of it. -/
structure RetransmissionLaw (b : Build) (turns : Nat) (data : ParserData) : Prop where
  stored : (List.range data.gdb.len).map data.gdb.packet = lastReply data.gdb.fd.sent
  answered : data.gdb.fd.shut = false → ∀ n, ∃ data',
    scannerRun b turns data (List.replicate n .retransmission) = .ok data'
  resent : ∀ n data', scannerRun b turns data (List.replicate n .retransmission) = .ok data' →
    data'.gdb = { data.gdb with
      fd := { data.gdb.fd with sent := data.gdb.fd.sent ++ writesFor data n } }

/-- **Retransmission**: after every sequence of events the packet stored is the last reply, and it
is sent again for each of any number of requests, which change nothing else. -/
theorem retransmission (b : Build) (turns : Nat) (arm : ArmCoreData) (packet buffer : Nat → Byte)
    (events : List ScannerEvent) (data : ParserData)
    (hrun : scannerRun b turns (gdbScanner arm packet buffer) events = .ok data) :
    RetransmissionLaw b turns data := by
  have hinit : Stored (gdbScanner arm packet buffer).gdb := rfl
  have hstored := stored_run hinit hrun
  exact ⟨hstored, retransmissions_of_open, fun n _ hok => sent_retransmissions hstored hok⟩

/-- A stop reason is asked for, and a stray character follows. -/
def strayRun : Except Fault ParserData :=
  scannerRun .x86 0 (gdbScanner (coreAt 0) (fun _ => 0) fun _ => 0)
    [.packet (ofString "$?#3f") fun _ => 0, .character (ascii 'a')]

/-- The stop reason is sent again twice. -/
theorem retransmission_stray :
    ∃ data, strayRun = .ok data ∧ RetransmissionLaw .x86 0 data ∧
      writesFor data 2 = [ofString "-", ofString "$S05#b8", ofString "$S05#b8"] := by
  have hanswers : strayRun.toOption.map (writesFor · 2) =
      some [ofString "-", ofString "$S05#b8", ofString "$S05#b8"] := by decide
  cases hrun : strayRun with
  | error fault =>
    rw [hrun] at hanswers
    cases hanswers
  | ok data =>
    rw [hrun] at hanswers
    exact ⟨data, rfl, retransmission .x86 0 _ _ _ _ data hrun, Option.some.inj hanswers⟩

end Armator
