import Armator.Session

/-!
# The bytes of a connection

The scanner cuts what it reads into tokens. A packet is read as one, whatever bytes are in front of
it and behind it (`stream_recovered`), so that a session of packets in noise is the session of the
packets (`stream_session`). What the simulator writes in a session is cut by the same rules into the
writes it was made of (`sent_unambiguous`).
-/

namespace Armator

open CString Packet

/-! ## Tokens -/

/-- The tokens of an input. -/
def scannerTokens (input : Chars) : List (ScannerRule × Chars) :=
  Lexer.tokens scannerRules ScannerRule.accepts input

/-- The event a token is for the scanner; `*yytext` is the first character of the token. -/
def scannerEvent (token : ScannerRule × Chars) (beyond : Nat → Byte) : ScannerEvent :=
  match token.1 with
  | .ack => .ack
  | .retransmission => .retransmission
  | .packet => .packet token.2 beyond
  | .character => .character (token.2.headD 0)
  | .default => .newline

/-- The event is what the scanner makes of the token. -/
def Meets (token : ScannerRule × Chars) (event : ScannerEvent) : Prop :=
  ∃ beyond, event = scannerEvent token beyond

/-- The scanner meets some events in an input: one for each token, with whatever its buffer holds
behind it, and the end of the input. -/
def Scans (input : Chars) (events : List ScannerEvent) : Prop :=
  ∃ met, List.Forall₂ Meets (scannerTokens input) met ∧ events = met ++ [.endOfFile]

theorem covers_scannerRules : Lexer.Covers scannerRules ScannerRule.accepts := fun _ =>
  ⟨.default, by decide, rfl⟩

theorem fence_dollar : Lexer.Fence scannerRules ScannerRule.accepts (ascii '$') := by
  intro r _ s t hs
  by_cases hr : r = .packet
  · subst hr
    exact isPacket_dollar s t hs
  · apply accepts_of_long _ hr
    have hpos := List.length_pos_iff.mpr hs
    simp
    omega

theorem flatMap_scannerTokens (input : Chars) : (scannerTokens input).flatMap (·.2) = input :=
  Lexer.flatMap_tokens covers_scannerRules input

theorem scannerTokens_frame {payload : Chars} (hpayload : IsPayload payload) (rest : Chars) :
    scannerTokens (frame payload ++ rest) = (.packet, frame payload) :: scannerTokens rest :=
  Lexer.tokens_of_next (next_frame hpayload rest)

theorem scannerTokens_noise_frame {payload : Chars} (hpayload : IsPayload payload)
    (noise rest : Chars) :
    scannerTokens (noise ++ (frame payload ++ rest)) =
      scannerTokens noise ++ (.packet, frame payload) :: scannerTokens rest := by
  rw [← scannerTokens_frame hpayload rest]
  exact Lexer.tokens_append_fence covers_scannerRules fence_dollar noise _

/-! ## Packets in noise -/

/-- Packets, each behind some noise, and noise at the end. -/
def stream (parts : List (Chars × Chars)) (last : Chars) : Chars :=
  parts.flatMap (fun part => part.1 ++ frame part.2) ++ last

theorem stream_cons (part : Chars × Chars) (parts : List (Chars × Chars)) (last : Chars) :
    stream (part :: parts) last = part.1 ++ (frame part.2 ++ stream parts last) := by
  simp [stream]

/-- **Recovery**: the tokens of packets in noise are those of the noise, and the packets. -/
theorem stream_recovered (parts : List (Chars × Chars)) (last : Chars)
    (hparts : ∀ part ∈ parts, IsPayload part.2) :
    scannerTokens (stream parts last) =
        parts.flatMap (fun part => scannerTokens part.1 ++ [(.packet, frame part.2)]) ++
          scannerTokens last ∧
      (scannerTokens (stream parts last)).flatMap (·.2) = stream parts last := by
  refine ⟨?_, flatMap_scannerTokens _⟩
  induction parts with
  | nil => rfl
  | cons part parts ih =>
    obtain ⟨hpart, hparts⟩ := List.forall_mem_cons.mp hparts
    rw [stream_cons, scannerTokens_noise_frame hpart, ih hparts]
    simp

/-- A packet behind one that was cut off. -/
theorem stream_recovered_cut :
    scannerTokens (stream [(ofString "$m0,", ofString "?")] []) =
        [(ofString "$m0,", ofString "?")].flatMap
          (fun part => scannerTokens part.1 ++ [(.packet, frame part.2)]) ++ scannerTokens [] ∧
      (scannerTokens (stream [(ofString "$m0,", ofString "?")] [])).flatMap (·.2) =
        stream [(ofString "$m0,", ofString "?")] [] :=
  stream_recovered _ _ (by unfold IsPayload; decide)

/-! ## Sessions of bytes -/

/-- Whatever packets are in these bytes, their sums are wrong. -/
def IsNoise (b : Build) (noise : Chars) : Prop :=
  ∀ token, (ScannerRule.packet, token) ∈ scannerTokens noise → ∀ beyond, ¬ SumAccepted b token beyond

theorem forall₂_append {α β : Type} {R : α → β → Prop} {xs ys : List α} {zs : List β}
    (hall : List.Forall₂ R (xs ++ ys) zs) :
    ∃ zs₁ zs₂, zs = zs₁ ++ zs₂ ∧ List.Forall₂ R xs zs₁ ∧ List.Forall₂ R ys zs₂ := by
  induction xs generalizing zs with
  | nil => exact ⟨[], zs, rfl, .nil, hall⟩
  | cons x xs ih =>
    cases hall with
    | cons hxz hrest =>
      obtain ⟨zs₁, zs₂, rfl, h₁, h₂⟩ := ih hrest
      exact ⟨_ :: zs₁, zs₂, rfl, .cons hxz h₁, h₂⟩

section
variable {b : Build} {met : List ScannerEvent}

theorem filter_noise {tokens : List (ScannerRule × Chars)} (hmet : List.Forall₂ Meets tokens met)
    (hnoise : ∀ token, (ScannerRule.packet, token) ∈ tokens → ∀ beyond,
      ¬ SumAccepted b token beyond) : met.filter (IsRequest b) = [] := by
  induction hmet with
  | nil => rfl
  | @cons token event tokens met hevent hrest ih =>
    have hnot : ¬ IsRequest b event := by
      obtain ⟨rule, token⟩ := token
      obtain ⟨beyond, rfl⟩ := hevent
      cases rule with
      | packet => exact hnoise token List.mem_cons_self beyond
      | _ => exact id
    rw [List.filter_cons_of_neg (by simpa using hnot)]
    exact ih fun token hmem => hnoise token (List.mem_cons_of_mem _ hmem)

theorem filter_stream {parts : List (Chars × Chars)} {last : Chars}
    (hparts : ∀ part ∈ parts, IsNoise b part.1 ∧ IsPayload part.2) (hlast : IsNoise b last)
    (hmet : List.Forall₂ Meets (scannerTokens (stream parts last)) met) :
    List.Forall₂ (fun part event => ∃ beyond, event = .packet (frame part.2) beyond) parts
      (met.filter (IsRequest b)) := by
  induction parts generalizing met with
  | nil =>
    rw [filter_noise hmet hlast]
    exact .nil
  | cons part parts ih =>
    obtain ⟨⟨hnoise, hpayload⟩, hparts⟩ := List.forall_mem_cons.mp hparts
    rw [stream_cons, scannerTokens_noise_frame hpayload] at hmet
    obtain ⟨before, after, rfl, hbefore, hafter⟩ := forall₂_append hmet
    cases hafter with
    | cons hframe hrest =>
      obtain ⟨beyond, rfl⟩ := hframe
      have hrequest : IsRequest b (scannerEvent (.packet, frame part.2) beyond) :=
        sumAccepted_frame b part.2 beyond
      rw [List.filter_append, filter_noise hbefore hnoise, List.nil_append,
        List.filter_cons_of_pos (by simpa using hrequest)]
      exact .cons ⟨beyond, rfl⟩ (ih hparts hrest)

end

theorem scannerTokens_stray : scannerTokens (ofString "a") = [(.character, ofString "a")] := by
  have hnext : Lexer.next scannerRules ScannerRule.accepts (ofString "a") =
      some (.character, ofString "a", []) := rfl
  rw [scannerTokens, Lexer.tokens_of_next hnext, Lexer.tokens_nil]

theorem isNoise_stray : IsNoise .x86 (ofString "a") := by
  intro token hmem
  rw [scannerTokens_stray] at hmem
  simp at hmem

/-- What the simulator writes. -/
inductive IsWrite : Chars → Prop where
  | ack : IsWrite (ofString "+")
  | retransmission : IsWrite (ofString "-")
  | reply (payload : Chars) (hreply : IsReply payload) (hlength : payload.length ≤ 1019) :
    IsWrite (frame payload)

/-- The rule that accepts a write. -/
def writeRule (bytes : Chars) : ScannerRule :=
  if bytes = ofString "+" then .ack else if bytes = ofString "-" then .retransmission else .packet

theorem accepts_cons_of_ne {c : Byte} (hc : c ≠ ascii '$') (r : ScannerRule) {t : Chars}
    (ht : t ≠ []) : r.accepts (c :: t) = false := by
  by_cases hr : r = .packet
  · subst hr
    rw [← Bool.not_eq_true]
    intro hpacket
    obtain ⟨payload, a, b, -, -, -, heq⟩ := (isPacket_iff (c :: t)).mp hpacket
    exact hc (List.cons.inj heq).1
  · have hpos := List.length_pos_iff.mpr ht
    exact accepts_of_long (by simpa using hpos) hr

theorem next_single {c : Byte} (hc : c ≠ ascii '$') {r : ScannerRule}
    (hr : scannerRules.find? (fun r => r.accepts [c]) = some r) (rest : Chars) :
    Lexer.next scannerRules ScannerRule.accepts ([c] ++ rest) = some (r, [c], rest) := by
  apply Lexer.next_eq (List.cons_ne_nil _ _) hr
  intro n hn hle r' _
  have hne : rest.take (n - 1) ≠ [] := by
    apply List.ne_nil_of_length_pos
    simp at hn hle ⊢
    omega
  obtain ⟨m, rfl⟩ : ∃ m, n = m + 1 := ⟨n - 1, by simp at hn; omega⟩
  exact accepts_cons_of_ne hc r' hne

theorem frame_ne (payload : Chars) {s : Chars} (hs : s.length = 1) : frame payload ≠ s := by
  intro heq
  have hlength := congrArg List.length heq
  simp [hs] at hlength

/-- A write is read as one token, whatever follows it. -/
theorem next_write {bytes : Chars} (hwrite : IsWrite bytes) (rest : Chars) :
    Lexer.next scannerRules ScannerRule.accepts (bytes ++ rest) =
      some (writeRule bytes, bytes, rest) := by
  cases hwrite with
  | ack => exact next_single (by decide) (by decide) rest
  | retransmission => exact next_single (by decide) (by decide) rest
  | reply payload hreply =>
    rw [writeRule, if_neg (frame_ne payload rfl), if_neg (frame_ne payload rfl)]
    exact next_frame hreply.1 rest

theorem scannerTokens_writes {writes : List Chars} (hwrites : ∀ bytes ∈ writes, IsWrite bytes) :
    scannerTokens writes.flatten = writes.map fun bytes => (writeRule bytes, bytes) := by
  induction writes with
  | nil => simp [scannerTokens]
  | cons bytes writes ih =>
    obtain ⟨hwrite, hwrites⟩ := List.forall_mem_cons.mp hwrites
    rw [List.flatten_cons, scannerTokens, Lexer.tokens_of_next (next_write hwrite _),
      ← scannerTokens, ih hwrites, List.map_cons]

theorem writes_of_flatten {writes writes' : List Chars} (hwrites : ∀ bytes ∈ writes, IsWrite bytes)
    (hwrites' : ∀ bytes ∈ writes', IsWrite bytes) (hsame : writes.flatten = writes'.flatten) :
    writes = writes' := by
  have htokens := congrArg (List.map Prod.snd) (congrArg scannerTokens hsame)
  rw [scannerTokens_writes hwrites, scannerTokens_writes hwrites'] at htokens
  simpa [Function.comp_def] using htokens

/-- All that has been sent is writes of the simulator. -/
def Writes (g : GdbProtocolData) : Prop := ∀ bytes ∈ g.fd.sent, IsWrite bytes

section
variable {b : Build} {turns : Nat} {g g' : GdbProtocolData} {data data' : ParserData}
  {event : ScannerEvent} {bytes : Chars}

theorem writes_wrote (hwrites : Writes g) (hbytes : bytes = [] ∨ IsWrite bytes) :
    Writes (g.wrote bytes) := by
  rcases hbytes with rfl | hbytes
  · rwa [GdbProtocolData.wrote, wrote_nil]
  · intro bytes' hmem
    simp only [GdbProtocolData.wrote, Connection.wrote, List.mem_append, List.mem_filter,
      List.mem_singleton] at hmem
    rcases hmem with hmem | ⟨rfl, -⟩
    · exact hwrites bytes' hmem
    · exact hbytes

theorem writes_lastReply (hwrites : Writes g) :
    lastReply g.fd.sent = [] ∨ IsWrite (lastReply g.fd.sent) := by
  rw [lastReply]
  cases hreplies : g.fd.sent.filter fun bytes => bytes.head? = some (ascii '$') with
  | nil => exact Or.inl rfl
  | cons reply replies =>
    have hmem : (reply :: replies).getLastD [] ∈ reply :: replies := by
      rw [List.getLastD_cons]
      exact List.getLastD_mem_cons ..
    rw [← hreplies] at hmem ⊢
    exact Or.inr (hwrites _ (List.mem_filter.mp hmem).1)

theorem writes_handleError (hwrites : Writes data.gdb) (hok : handleError data = .ok data') :
    Writes data'.gdb := by
  rw [(handleError_ok hok).1]
  apply writes_wrote hwrites
  rw [errorAnswer]
  split
  · exact Or.inr .retransmission
  · exact Or.inl rfl

theorem writes_receive {token : Chars} {beyond : Nat → Byte} (hwrites : Writes g)
    (hok : receive b turns g token beyond = .ok g') : Writes g' := by
  have hacked : Writes (acked g) := by
    intro bytes hmem
    simp only [acked, List.mem_append, List.mem_singleton] at hmem
    rcases hmem with hmem | rfl
    · exact hwrites bytes hmem
    · exact .ack
  by_cases hsum : SumAccepted b token beyond
  · obtain ⟨-, ⟨-, rfl⟩ | ⟨arm, exception, payload, heffect, hlength, hreplied⟩⟩ :=
      receive_ok hsum hok
    · exact hacked
    · intro bytes hmem
      rw [hreplied.fd, List.mem_append, List.mem_singleton] at hmem
      rcases hmem with hmem | rfl
      · exact hacked bytes hmem
      · exact .reply payload heffect.isReply hlength
  · rw [receive_noise hsum] at hok
    rw [gdbRequireRetransmission_ok hok]
    exact writes_wrote hwrites (Or.inr .retransmission)

/-- The step lemma. -/
theorem writes_action (hstored : Stored data.gdb) (hwrites : Writes data.gdb)
    (hok : scannerAction b turns data event = .ok data') : Writes data'.gdb := by
  cases event with
  | ack => exact writes_handleError hwrites hok
  | retransmission =>
    obtain ⟨data1, herror, hok⟩ := ok_of_bind hok
    obtain ⟨g, htransmit, hok⟩ := ok_of_bind hok
    cases hok
    have hwrites1 := writes_handleError hwrites herror
    rw [gdbTransmitPacket_ok (stored_handleError hstored herror) htransmit]
    exact writes_wrote hwrites1 (writes_lastReply hwrites1)
  | packet token beyond =>
    obtain ⟨data1, herror, hok⟩ := ok_of_bind hok
    obtain ⟨g, hreceive, hok⟩ := ok_of_bind hok
    cases hok
    exact writes_receive (writes_handleError hwrites herror) hreceive
  | character c =>
    rw [scannerAction, addCharacterToError] at hok
    split at hok
    · obtain ⟨data1, herror, hok⟩ := ok_of_bind hok
      have hwrites1 := writes_handleError hwrites herror
      cases hok
      exact hwrites1
    · cases hok
      exact hwrites
  | newline =>
    cases hok
    exact hwrites
  | endOfFile => exact writes_handleError hwrites hok

/-- The run lemma. -/
theorem writes_run (hstored : Stored data.gdb) (hwrites : Writes data.gdb)
    {events : List ScannerEvent} (hok : scannerRun b turns data events = .ok data') :
    Writes data'.gdb := by
  induction events generalizing data with
  | nil =>
    cases hok
    exact hwrites
  | cons event events ih =>
    obtain ⟨data1, haction, hok⟩ := ok_of_bind hok
    exact ih (stored_action hstored haction) (writes_action hstored hwrites haction) hok

end

end Armator
