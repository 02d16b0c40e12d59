import Mathlib.Data.List.GetD
import Armator.GdbReplies
import Armator.GdbCodec
import Armator.Scanner

/-!
# Received packets

What `gdb_packet_analysis` finds in a packet: the sum of its payload, the number of its two digits,
and for the dispatch the first byte of the payload and the string behind it.
-/

namespace Armator

open CString Packet

/-- A packet with a payload and two characters for the sum. -/
def packetToken (payload : Chars) (x y : Byte) : Chars := ascii '$' :: payload ++ [ascii '#', x, y]

section
variable (payload : Chars) (x y : Byte) (beyond : Nat → Byte)

theorem length_packetToken : (packetToken payload x y).length = payload.length + 4 := by
  rw [packetToken, List.cons_append, List.length_cons, List.length_append]
  rfl

theorem packetEnd_packetToken :
    packetEnd (packetToken payload x y).length = payload.length + 1 := by
  rw [length_packetToken, packetEnd]
  omega

theorem Text.spells_get (t : Text) {before s after : Chars} (ht : t.bytes = before ++ s ++ after) :
    Spells t.get before.length s := by
  refine Spells.of_getD fun j hj => ?_
  have hin : before.length + j < (before ++ s).length := by
    rw [List.length_append]
    omega
  rw [Text.get, ht, List.getD_append _ _ _ _ hin,
    List.getD_append_right _ _ _ _ (Nat.le_add_right _ _), Nat.add_sub_cancel_left,
    List.getD_eq_getElem _ _ hj, List.getD_eq_getElem _ _ hj]

theorem bytes_yytext_packetToken :
    (yytext (packetToken payload x y) beyond).bytes =
      [ascii '$'] ++ payload ++ [ascii '#', x, y, 0] := by
  simp [yytext, packetToken]

theorem packetCheck_packetToken :
    packetCheck (yytext (packetToken payload x y) beyond) (packetToken payload x y).length =
      checksum payload := by
  have hspells : Spells _ 1 payload :=
    Text.spells_get _ (bytes_yytext_packetToken payload x y beyond)
  rw [packetCheck, packetEnd_packetToken, Nat.add_sub_cancel, checksum, ← List.foldl_map,
    hspells.map_range']

theorem isHex_pair {x y : Byte} (hx : hexValue x ≠ none) (hy : hexValue y ≠ none) :
    IsHex [x, y] := by
  intro c hc
  simp only [List.mem_cons, List.not_mem_nil, or_false] at hc
  rcases hc with rfl | rfl
  · exact hx
  · exact hy

theorem packetGiven_packetToken (b : Build) (hx : hexValue x ≠ none) (hy : hexValue y ≠ none) :
    packetGiven b (yytext (packetToken payload x y) beyond) (packetToken payload x y).length =
      BitVec.ofNat 32 (hexNumber [x, y]) := by
  have hhex := isHex_pair hx hy
  have hlt : hexNumber [x, y] < 2 ^ 32 :=
    Nat.lt_trans (hexNumber_lt hhex) (by decide : 16 ^ 2 < 2 ^ 32)
  have hdrop : (yytext (packetToken payload x y) beyond).bytes.drop (payload.length + 1 + 1) =
      [x, y] ++ 0 :: [] := by
    rw [bytes_yytext_packetToken, ← List.drop_drop, ← List.drop_drop]
    simp
  have hstr := Text.str_eq _ hdrop (ne_zero_of_isHex hhex)
  have hscan := scanHex_digits hhex (List.cons_ne_nil _ _) []
    (Nat.le_refl [x, y].length) (Or.inr endsNumber_nil)
  rw [packetGiven, packetEnd_packetToken, hstr, Build.scanWord]
  rw [List.append_nil] at hscan
  rw [hscan]
  exact b.stored_natCast hlt

theorem accepts_iff (b : Build) (hx : hexValue x ≠ none) (hy : hexValue y ≠ none) :
    u32 (packetCheck (yytext (packetToken payload x y) beyond) (packetToken payload x y).length) =
      packetGiven b (yytext (packetToken payload x y) beyond) (packetToken payload x y).length ↔
    (checksum payload).toNat = hexNumber [x, y] := by
  have hlt : hexNumber [x, y] < 16 ^ 2 := hexNumber_lt (isHex_pair hx hy)
  have hsum := (checksum payload).isLt
  rw [packetCheck_packetToken, packetGiven_packetToken payload x y beyond b hx hy,
    ← BitVec.toNat_inj, BitVec.toNat_setWidth, BitVec.toNat_ofNat, Nat.mod_eq_of_lt (by omega),
    Nat.mod_eq_of_lt (by omega)]

/-! ## What the dispatch sees -/

theorem bytes_packetText :
    (packetText (yytext (packetToken payload x y) beyond) (packetToken payload x y).length).bytes =
      [ascii '$'] ++ payload ++ [0, x, y, 0] := by
  rw [packetText, Text.set, packetEnd_packetToken, bytes_yytext_packetToken,
    List.set_append_right _ _ (by simp)]
  simp

/-- The packet as the handlers find it. -/
def dispatched : Text := packetText (yytext (packetToken payload x y) beyond)
  (packetToken payload x y).length

theorem get_dispatched_cons (c : Byte) :
    (dispatched (c :: payload) x y beyond).get 1 = c := by
  have hspells := Text.spells_get _ (bytes_packetText (c :: payload) x y beyond)
  exact hspells.1

theorem get_dispatched_nil : (dispatched [] x y beyond).get 1 = 0 := by
  rw [dispatched, Text.get, bytes_packetText]
  rfl

theorem drop_dispatched (c : Byte) :
    (dispatched (c :: payload) x y beyond).bytes.drop 2 = payload ++ [0, x, y, 0] := by
  rw [dispatched, bytes_packetText]
  rfl

theorem get_dispatched : (dispatched payload x y beyond).get 1 = payload.headD 0 := by
  cases payload with
  | nil => exact get_dispatched_nil x y beyond
  | cons c payload => exact get_dispatched_cons payload x y beyond c

end

/-! ## One request -/

/-- The acknowledgement has been sent. -/
def acked (g : GdbProtocolData) : GdbProtocolData :=
  { g with fd := { g.fd with sent := g.fd.sent ++ [ofString "+"] } }

/-- A packet has been acknowledged and answered. -/
structure Answered (g g' : GdbProtocolData) (arm : ArmCoreData) (answer : Chars) : Prop where
  arm : g'.arm = arm
  fd : g'.fd = { g.fd with sent := g.fd.sent ++ [ofString "+", frame answer] }

section
variable (b : Build) (turns : Nat) (g : GdbProtocolData) (payload : Chars) (x y : Byte)
  (beyond : Nat → Byte)

theorem rioWriten_of_open {fd : Connection} (hopen : fd.shut = false) {bytes : Chars}
    (hne : bytes ≠ []) : rioWriten fd bytes = .ok { fd with sent := fd.sent ++ [bytes] } := by
  rw [rioWriten, if_neg hne, hopen, if_neg Bool.false_ne_true]

theorem rioWriten_of_shut {fd : Connection} (hshut : fd.shut = true) {bytes : Chars}
    (hne : bytes ≠ []) : rioWriten fd bytes = .error .disconnected := by
  rw [rioWriten, if_neg hne, hshut, if_pos rfl]

theorem write_of_open (hopen : g.fd.shut = false) {bytes : Chars} (hne : bytes ≠ []) :
    (do let fd ← rioWriten g.fd bytes; .ok { g with fd := fd } : Except Fault GdbProtocolData) =
      .ok { g with fd := { g.fd with sent := g.fd.sent ++ [bytes] } } := by
  rw [rioWriten_of_open hopen hne]
  rfl

theorem gdbSendAck_of_open (hopen : g.fd.shut = false) : gdbSendAck g = .ok (acked g) :=
  write_of_open g hopen (by decide)

theorem gdbRequireRetransmission_of_open (hopen : g.fd.shut = false) :
    gdbRequireRetransmission g =
      .ok { g with fd := { g.fd with sent := g.fd.sent ++ [ofString "-"] } } :=
  write_of_open g hopen (by decide)

variable {x y} (hx : hexValue x ≠ none) (hy : hexValue y ≠ none)
include hx hy

theorem receive_rejected (hsum : (checksum payload).toNat ≠ hexNumber [x, y]) :
    receive b turns g (packetToken payload x y) beyond = gdbRequireRetransmission g := by
  rw [receive, gdbPacketAnalysis, if_neg (mt (accepts_iff payload x y beyond b hx hy).mp hsum)]

theorem receive_accepted (hsum : (checksum payload).toNat = hexNumber [x, y]) :
    receive b turns g (packetToken payload x y) beyond = (do
      let g ← gdbSendAck g
      match gdbHandler (payload.headD 0) with
      | some handler => handler.run b turns g (dispatched payload x y beyond) 2
      | none => gdbSendData g (ofString "")) := by
  rw [receive, gdbPacketAnalysis, if_pos ((accepts_iff payload x y beyond b hx hy).mpr hsum),
    ← get_dispatched payload x y beyond]
  rfl

omit hx hy in
theorem answers_acked (handler : GdbHandler) (t : Text) (data : Nat) :
    handler.Answers b turns (acked g) t data = handler.Answers b turns g t data := by
  cases handler <;> rfl

omit hx hy in
theorem answer_acked (handler : GdbHandler) (t : Text) (data : Nat) :
    handler.answer b turns (acked g) t data = handler.answer b turns g t data := by
  cases handler <;> rfl

omit hx hy in
theorem core_acked (handler : GdbHandler) (t : Text) (data : Nat) :
    handler.core b turns (acked g) t data = handler.core b turns g t data := by
  cases handler <;> rfl

/-- The command of a packet comes to a reply, and the reply fits. -/
def Serves : Prop :=
  ∀ handler, gdbHandler (payload.headD 0) = some handler → handler ≠ .killRequest →
    handler.Answers b turns g (dispatched payload x y beyond) 2 ∧
    (handler.answer b turns g (dispatched payload x y beyond) 2).length ≤ 1019

theorem receive_handled (hopen : g.fd.shut = false)
    (hsum : (checksum payload).toNat = hexNumber [x, y]) {handler : GdbHandler}
    (hhandler : gdbHandler (payload.headD 0) = some handler) (hkill : handler ≠ .killRequest)
    (hanswers : handler.Answers b turns g (dispatched payload x y beyond) 2)
    (hfits : (handler.answer b turns g (dispatched payload x y beyond) 2).length ≤ 1019) :
    ∃ g', receive b turns g (packetToken payload x y) beyond = .ok g' ∧
      Answered g g' (handler.core b turns g (dispatched payload x y beyond) 2)
        (handler.answer b turns g (dispatched payload x y beyond) 2) := by
  rw [← answers_acked] at hanswers
  rw [← answer_acked] at hfits
  obtain ⟨g', hok, hreplied⟩ := (GdbHandler.sends_run hkill hanswers).ok hfits hopen
  refine ⟨g', ?_, ?_, ?_⟩
  · rw [receive_accepted b turns g payload beyond hx hy hsum, gdbSendAck_of_open g hopen, hhandler]
    exact hok
  · rw [hreplied.arm, core_acked]
  · rw [hreplied.fd, answer_acked, acked]
    simp

end

/-- What a packet is answered. On a connection that is shut down the process ends. -/
structure RequestLaw (b : Build) (turns : Nat) (g : GdbProtocolData) (payload : Chars) (x y : Byte)
    (beyond : Nat → Byte) : Prop where
  disconnected : g.fd.shut = true →
    receive b turns g (packetToken payload x y) beyond = .error .disconnected
  rejected : g.fd.shut = false → (checksum payload).toNat ≠ hexNumber [x, y] →
    receive b turns g (packetToken payload x y) beyond =
      .ok { g with fd := { g.fd with sent := g.fd.sent ++ [ofString "-"] } }
  killed : g.fd.shut = false → (checksum payload).toNat = hexNumber [x, y] →
    payload.headD 0 = ascii 'k' →
    receive b turns g (packetToken payload x y) beyond =
      .ok { g with fd := { sent := g.fd.sent ++ [ofString "+"], shut := true } }
  replied : g.fd.shut = false → (checksum payload).toNat = hexNumber [x, y] →
    payload.headD 0 ≠ ascii 'k' → Serves b turns g payload (x := x) (y := y) beyond →
    ∃ g' reply, receive b turns g (packetToken payload x y) beyond = .ok g' ∧ IsReply reply ∧
      g'.fd = { g.fd with sent := g.fd.sent ++ [ofString "+", frame reply] } ∧
      (gdbHandler (payload.headD 0) = none ∨ payload = [] → reply = [])

theorem gdbHandler_kill {command : Byte} :
    gdbHandler command = some .killRequest ↔ command = ascii 'k' := by
  revert command
  decide

/-- **Request and reply**: a packet with a wrong sum is answered by `-` and changes nothing; one
with the right sum by `+` and one frame, or by `+` alone if its command is `k`. -/
theorem request_reply (b : Build) (turns : Nat) (g : GdbProtocolData) (payload : Chars) (x y : Byte)
    (beyond : Nat → Byte) (hx : hexValue x ≠ none) (hy : hexValue y ≠ none) :
    RequestLaw b turns g payload x y beyond := by
  constructor
  · intro hshut
    by_cases hsum : (checksum payload).toNat = hexNumber [x, y]
    · rw [receive_accepted b turns g payload beyond hx hy hsum, gdbSendAck,
        rioWriten_of_shut hshut (by decide)]
      rfl
    · rw [receive_rejected b turns g payload beyond hx hy hsum, gdbRequireRetransmission,
        rioWriten_of_shut hshut (by decide)]
      rfl
  · intro hopen hsum
    rw [receive_rejected b turns g payload beyond hx hy hsum,
      gdbRequireRetransmission_of_open g hopen]
  · intro hopen hsum hkill
    rw [receive_accepted b turns g payload beyond hx hy hsum, gdbSendAck_of_open g hopen, hkill]
    rfl
  · intro hopen hsum hkill hserves
    cases hhandler : gdbHandler (payload.headD 0) with
    | none =>
      rw [receive_accepted b turns g payload beyond hx hy hsum, gdbSendAck_of_open g hopen,
        hhandler]
      have hopen' : (acked g).fd.shut = false := hopen
      have hempty : Sends (acked g) (ofString "") (gdbSendData (acked g) (ofString "")) :=
        sends_gdbSendData ((isReply_iff _).mpr (by decide))
      obtain ⟨g', hok, hreplied⟩ := hempty.ok (by decide) hopen'
      refine ⟨g', ofString "", hok, (isReply_iff _).mpr (by decide), ?_, fun _ => rfl⟩
      rw [hreplied.fd, acked]
      simp
    | some handler =>
      have hkill' : handler ≠ .killRequest := by
        rintro rfl
        exact hkill (gdbHandler_kill.mp hhandler)
      obtain ⟨hanswers, hfits⟩ := hserves handler hhandler hkill'
      obtain ⟨g', hok, hanswered⟩ := receive_handled b turns g payload beyond hx hy hopen hsum
        hhandler hkill' hanswers hfits
      refine ⟨g', _, hok, GdbHandler.isReply_answer b turns g (dispatched payload x y beyond) 2
        handler, hanswered.fd, fun hnone => ?_⟩
      rcases hnone with hnone | rfl
      · cases hnone
      · have hnil : gdbHandler (([] : Chars).headD 0) = none := by decide
        rw [hnil] at hhandler
        cases hhandler

/-- `$?#3f` is answered by one packet. -/
theorem request_reply_reason :
    ∃ g' reply, receive .x86 0 (gdbAt 0) (packetToken (ofString "?") (ascii '3') (ascii 'f'))
      (fun _ => 0) = .ok g' ∧ IsReply reply ∧
      g'.fd = { sent := [ofString "+", frame reply], shut := false } := by
  have hlaw := request_reply .x86 0 (gdbAt 0) (ofString "?") (ascii '3') (ascii 'f') (fun _ => 0)
    (by decide) (by decide)
  obtain ⟨g', reply, hok, hreply, hfd, -⟩ := hlaw.replied rfl (by decide) (by decide) (by
    intro handler hhandler _
    obtain rfl : handler = .reason := Option.some.inj (hhandler.symm.trans (by decide))
    exact ⟨trivial, by decide⟩)
  exact ⟨g', reply, hok, hreply, hfd⟩

/-- The packet of a payload, with its sum in digits of either case. -/
def Carries (token payload : Chars) : Prop :=
  ∃ x y, hexValue x ≠ none ∧ hexValue y ≠ none ∧
    (checksum payload).toNat = hexNumber [x, y] ∧ token = packetToken payload x y

theorem receive_carried {token args : Chars} {command : Byte}
    (htoken : Carries token (command :: args)) (beyond : Nat → Byte) :
    ∃ t more, t.bytes.drop 2 = args ++ 0 :: more ∧
      ∀ b turns g handler, g.fd.shut = false → gdbHandler command = some handler →
        handler ≠ .killRequest → handler.Answers b turns g t 2 →
        (handler.answer b turns g t 2).length ≤ 1019 →
        ∃ g', receive b turns g token beyond = .ok g' ∧
          Answered g g' (handler.core b turns g t 2) (handler.answer b turns g t 2) := by
  obtain ⟨x, y, hx, hy, hsum, rfl⟩ := htoken
  refine ⟨dispatched (command :: args) x y beyond, [x, y, 0],
    drop_dispatched args x y beyond command, ?_⟩
  intro b turns g handler hopen hhandler hkill hanswers hfits
  exact receive_handled b turns g (command :: args) beyond hx hy hopen hsum hhandler hkill hanswers
    hfits

/-! ## Framing -/

theorem accepts_of_long {r : ScannerRule} {t : Chars} (ht : 1 < t.length) (hr : r ≠ .packet) :
    r.accepts t = false := by
  have hne : ∀ s : Chars, s.length = 1 → t ≠ s := by
    rintro s hs rfl
    omega
  cases r with
  | ack => exact decide_eq_false (hne _ (by decide))
  | retransmission => exact decide_eq_false (hne _ (by decide))
  | packet => exact absurd rfl hr
  | character =>
    unfold ScannerRule.accepts
    dsimp only
    split
    · exact absurd ht (Nat.lt_irrefl 1)
    · rfl
  | default => exact decide_eq_false (by omega)

theorem next_frame {payload : Chars} (hpayload : IsPayload payload) (rest : Chars) :
    Lexer.next scannerRules ScannerRule.accepts (frame payload ++ rest) =
      some (.packet, frame payload, rest) := by
  have hlong : 1 < (frame payload).length := by
    rw [length_frame]
    omega
  have hpacket : ScannerRule.packet.accepts (frame payload) = true := isPacket_frame hpayload
  refine Lexer.next_eq (List.cons_ne_nil _ _) ?_ fun n hn hle r _ => ?_
  · simp only [scannerRules, List.find?_cons, accepts_of_long hlong (r := .ack) (by decide),
      accepts_of_long hlong (r := .retransmission) (by decide), hpacket]
  · by_cases hr : r = .packet
    · subst hr
      obtain ⟨more, hmore, htake⟩ : ∃ more, more ≠ [] ∧
          (frame payload ++ rest).take n = frame payload ++ more := by
        refine ⟨rest.take (n - (frame payload).length), ?_, ?_⟩
        · rw [List.length_append] at hle
          refine List.ne_nil_of_length_pos ?_
          rw [List.length_take]
          omega
        · rw [List.take_append, List.take_of_length_le (Nat.le_of_lt hn)]
      rw [htake]
      exact isPacket_append hpayload _ _ hmore
    · refine accepts_of_long ?_ hr
      rw [List.length_take]
      omega

theorem frame_eq_packetToken (payload : Chars) :
    frame payload = packetToken payload (hexDigit ((checksum payload).toNat / 16))
      (hexDigit ((checksum payload).toNat % 16)) := rfl

/-- The comparison of `gdb_packet_analysis` accepts a token of the scanner. -/
def SumAccepted (b : Build) (token : Chars) (beyond : Nat → Byte) : Prop :=
  u32 (packetCheck (yytext token beyond) token.length) =
    packetGiven b (yytext token beyond) token.length

/-- The byte and the string the dispatch takes from a token. -/
def dispatchOf (token : Chars) (beyond : Nat → Byte) : Byte × Chars :=
  let packet := packetText (yytext token beyond) token.length
  (packet.get 1, packet.str 2)

/-- The command of a token, and the packet as its handler finds it. -/
def commandOf (token : Chars) (beyond : Nat → Byte) : Option GdbHandler :=
  gdbHandler (dispatchOf token beyond).1

def textOf (token : Chars) (beyond : Nat → Byte) : Text :=
  packetText (yytext token beyond) token.length

section
variable {b : Build} {turns : Nat} {g : GdbProtocolData} {token : Chars} {beyond : Nat → Byte}

theorem receive_request (hsum : SumAccepted b token beyond) :
    receive b turns g token beyond = (do
      let g ← gdbSendAck g
      match commandOf token beyond with
      | some handler => handler.run b turns g (textOf token beyond) 2
      | none => gdbSendData g (ofString "")) := by
  unfold SumAccepted at hsum
  rw [receive, gdbPacketAnalysis, if_pos hsum]
  rfl

theorem receive_noise (hsum : ¬ SumAccepted b token beyond) :
    receive b turns g token beyond = gdbRequireRetransmission g := by
  unfold SumAccepted at hsum
  rw [receive, gdbPacketAnalysis, if_neg hsum]

end

theorem digits_ne_none (c : Byte) :
    hexValue (hexDigit (c.toNat / 16)) ≠ none ∧ hexValue (hexDigit (c.toNat % 16)) ≠ none := by
  have hhex := isHex_twoDigits c
  exact ⟨hhex _ List.mem_cons_self, hhex _ (List.mem_cons_of_mem _ List.mem_cons_self)⟩

theorem sumAccepted_frame (b : Build) (payload : Chars) (beyond : Nat → Byte) :
    SumAccepted b (frame payload) beyond := by
  obtain ⟨hx, hy⟩ := digits_ne_none (checksum payload)
  rw [frame_eq_packetToken]
  exact (accepts_iff payload _ _ beyond b hx hy).mpr (hexNumber_twoDigits _).symm

theorem carries_frame (payload : Chars) : Carries (frame payload) payload := by
  obtain ⟨hx, hy⟩ := digits_ne_none (checksum payload)
  exact ⟨_, _, hx, hy, (hexNumber_twoDigits _).symm, frame_eq_packetToken payload⟩

theorem not_sumAccepted_changed (b : Build) (s t : Chars) {c c' : Byte} (hne : c' ≠ c)
    (beyond : Nat → Byte) :
    ¬ SumAccepted b (ascii '$' :: (s ++ c' :: t) ++ ascii '#' :: twoDigits (checksum (s ++ c :: t)))
      beyond := by
  obtain ⟨hx, hy⟩ := digits_ne_none (checksum (s ++ c :: t))
  intro hacc
  have hsum := (accepts_iff (s ++ c' :: t) _ _ beyond b hx hy).mp hacc
  have hdigits : hexNumber _ = (checksum (s ++ c :: t)).toNat := hexNumber_twoDigits _
  exact checksum_ne s t hne (BitVec.eq_of_toNat_eq (hsum.trans hdigits))

theorem dispatchOf_frame_cons {c : Byte} {args : Chars} (hargs : ∀ d ∈ args, d ≠ 0)
    (beyond : Nat → Byte) : dispatchOf (frame (c :: args)) beyond = (c, args) := by
  rw [frame_eq_packetToken]
  refine Prod.ext (get_dispatched_cons args _ _ beyond c) ?_
  exact Text.str_eq _ (drop_dispatched args _ _ beyond c) hargs

theorem dispatchOf_frame_nil (beyond : Nat → Byte) : (dispatchOf (frame []) beyond).1 = 0 := by
  rw [frame_eq_packetToken]
  exact get_dispatched_nil (ascii '0') (ascii '0') beyond

theorem set_frame (s t : Chars) (c c' : Byte) :
    (frame (s ++ c :: t)).set (s.length + 1) c' =
      ascii '$' :: (s ++ c' :: t) ++ ascii '#' :: twoDigits (checksum (s ++ c :: t)) := by
  rw [frame, List.cons_append, List.set_cons_succ, List.append_assoc,
    List.set_append_right _ _ (Nat.le_refl _), Nat.sub_self, List.cons_append, List.set_cons_zero]
  simp

/-- **Framing and parsing agree**: the packet `gdb_send_buffer` builds is one token of the scanner,
the comparison of the sums accepts it, and what is received is handled with the first byte of its
payload as the command and the rest as the arguments; with one byte of the payload changed it is
rejected. -/
theorem packet_framing (g : GdbProtocolData) (payload : Chars) (hlength : payload.length ≤ 1019)
    (hreply : IsReply payload) (hpacket : Spells g.packet buffer (payload ++ [0]))
    (hopen : g.fd.shut = false) :
    ∃ g' token, gdbSendBuffer g = .ok g' ∧ token = (List.range g'.len).map g'.packet ∧
      g'.fd.sent = g.fd.sent ++ [token] ∧
      (∀ rest, Lexer.next scannerRules ScannerRule.accepts (token ++ rest) =
        some (.packet, token, rest)) ∧
      (∀ b beyond, SumAccepted b token beyond) ∧
      (∀ c args beyond, payload = c :: args → dispatchOf token beyond = (c, args) ∧
        (textOf token beyond).str 2 = args ∧
        ∀ b turns k, receive b turns k token beyond = (do
          let k ← gdbSendAck k
          match gdbHandler c with
          | some handler => handler.run b turns k (textOf token beyond) 2
          | none => gdbSendData k (ofString ""))) ∧
      (∀ beyond, payload = [] → gdbHandler (dispatchOf token beyond).1 = none) ∧
      ∀ (i : Nat) (hi : i < payload.length) (c : Byte), c ≠ payload[i] → c ≠ 0 → c ≠ ascii '$' →
        c ≠ ascii '#' → ∀ b beyond, ¬ SumAccepted b (token.set (i + 1) c) beyond ∧
          ∀ turns k, receive b turns k (token.set (i + 1) c) beyond =
            gdbRequireRetransmission k := by
  obtain ⟨g', hok, hreplied⟩ := (sends_gdbSendBuffer hreply hpacket).ok hlength hopen
  refine ⟨g', frame payload, hok, hreplied.stored.symm, ?_, next_frame hreply.1,
    fun b beyond => sumAccepted_frame b payload beyond, ?_, ?_, ?_⟩
  · rw [hreplied.fd]
  · rintro c args beyond rfl
    have hdispatch : dispatchOf (frame (c :: args)) beyond = (c, args) :=
      dispatchOf_frame_cons (fun d hd => hreply.2 d (List.mem_cons_of_mem c hd)) beyond
    refine ⟨hdispatch, congrArg Prod.snd hdispatch, fun b turns k => ?_⟩
    have hcommand : commandOf (frame (c :: args)) beyond = gdbHandler c := by
      rw [commandOf, hdispatch]
    rw [receive_request (sumAccepted_frame b (c :: args) beyond), hcommand]
  · rintro beyond rfl
    rw [dispatchOf_frame_nil]
    rfl
  · intro i hi c hc _ _ _ b beyond
    have hsplit : payload.take i ++ payload[i] :: payload.drop (i + 1) = payload := by
      rw [← List.drop_eq_getElem_cons, List.take_append_drop]
    have hrejected := not_sumAccepted_changed b (payload.take i) (payload.drop (i + 1)) hc beyond
    have hset := set_frame (payload.take i) (payload.drop (i + 1)) payload[i] c
    rw [List.length_take, Nat.min_eq_left (Nat.le_of_lt hi), hsplit] at hset
    rw [hsplit] at hrejected
    rw [hset]
    exact ⟨hrejected, fun turns k => receive_noise hrejected⟩

/-- The framing of `OK`, and of `OK` with its first letter changed. -/
theorem packet_framing_ok :
    ∃ g' token,
      gdbSendBuffer { gdbAt 0 with packet := fun i => (ofString "$OK").getD i 0 } = .ok g' ∧
      token = (List.range g'.len).map g'.packet ∧ (∀ b beyond, SumAccepted b token beyond) ∧
      ∀ turns k, receive .x86 turns k (token.set 1 (ascii 'o')) (fun _ => 0) =
        gdbRequireRetransmission k := by
  obtain ⟨g', token, hok, htoken, -, -, hsum, -, -, hchanged⟩ := packet_framing
    { gdbAt 0 with packet := fun i => (ofString "$OK").getD i 0 } (ofString "OK") (by decide)
    ((isReply_iff _).mpr (by decide)) ⟨rfl, rfl, rfl, trivial⟩ rfl
  exact ⟨g', token, hok, htoken, hsum, (hchanged 0 (by decide) (ascii 'o') (by decide) (by decide)
    (by decide) (by decide) .x86 fun _ => 0).2⟩

end Armator
