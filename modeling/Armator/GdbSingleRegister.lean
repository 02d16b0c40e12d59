import Armator.GdbMemory

/-!
# One register of the debugger

`write_register` gets the number of its register with `%x`, and `read_register` with `atoi`, which
ends at a letter: it gives `r0` for `r10` to `r15` (`namesRegister_iff`). Neither looks whether the
number is one, and both stop the process if it is too large (`registerRequest_iff`).
-/

namespace Armator

open CString Packet

/-! ## Numbers -/

section
variable (b : Build)

/-- The number `atoi` finds in the digit of a register. -/
def decimalRegister (r : Fin 16) : Nat := if r.val ≤ 9 then r.val else 0

theorem atoi_digit (r : Fin 16) :
    b.atoi [hexDigit r] = BitVec.ofNat 32 (decimalRegister r) := by
  have hscan : ∀ r : Fin 16, scanInt [hexDigit r] = (decimalRegister r : Int) := by decide
  have hlt : ∀ r : Fin 16, decimalRegister r < 16 := by decide
  specialize hlt r
  rw [Build.atoi, hscan, if_pos (by omega), BitVec.ofInt_natCast]

theorem isHex_digit (r : Fin 16) : IsHex [hexDigit r] := by
  intro c hc
  rw [List.mem_singleton.mp hc, hexValue_hexDigit r.isLt]
  exact Option.some_ne_none _

theorem hexNumber_digit (r : Fin 16) : hexNumber [hexDigit r] = r := by
  revert r
  decide

theorem ne_equals_of_isHex {s : Chars} (hs : IsHex s) : ∀ c ∈ s, c ≠ 0 ∧ c ≠ ascii '=' := by
  have hall : ∀ c, hexValue c ≠ none → c ≠ 0 ∧ c ≠ ascii '=' := by decide
  exact fun c hc => hall c (hs c hc)

theorem writtenRegister_of_text {t : Text} {data : Nat} {s rest : Chars} (hs : IsHex s)
    (hne : s ≠ []) (hlt : hexNumber s < 2 ^ 32)
    (ht : t.bytes.drop data = s ++ ascii '=' :: rest) :
    t.index data (ascii '=') = some (data + s.length) ∧
      Gdb.writtenRegister b t data = BitVec.ofNat 32 (hexNumber s) := by
  have hclear := ne_equals_of_isHex hs
  refine ⟨Text.index_eq ht hclear (by decide), ?_⟩
  have hends : EndsNumber (ascii '=' :: rest.takeWhile (· ≠ 0)) := by
    intro c hc
    obtain rfl : ascii '=' = c := Option.some.inj hc
    decide
  have hstr : t.str data = s ++ ascii '=' :: rest.takeWhile (· ≠ 0) := by
    rw [Text.str, ht, List.takeWhile_append_of_pos fun c hc => decide_eq_true (hclear c hc).1,
      List.takeWhile_cons_of_pos (by decide)]
  have hscan : scanHex (t.str data).length (t.str data) =
      some ((hexNumber s : Int), ascii '=' :: rest.takeWhile (· ≠ 0)) := by
    rw [hstr]
    exact scanHex_digits hs hne _ (by rw [List.length_append]; omega) (Or.inr hends)
  rw [Gdb.writtenRegister, Build.scanWord, hscan]
  exact b.stored_natCast hlt

end

/-! ## Reading and writing -/

/-- A `P` packet for a value of `r`. -/
def WritesRegister (b : Build) (r : Fin 16) (v : Word) (token : Chars) : Prop :=
  ∃ text, text.map lower = writeUint32 b v ∧
    Carries token (ascii 'P' :: ([hexDigit r] ++ ascii '=' :: text))

/-- A `p` packet for `r`. -/
def ReadsRegister (r : Fin 16) (token : Chars) : Prop := Carries token (ascii 'p' :: [hexDigit r])

section
variable (b : Build) (turns : Nat) {g : GdbProtocolData} {r : Fin 16} {v : Word} {token : Chars}
  (beyond : Nat → Byte)

theorem receive_readRegister (hread : ReadsRegister r token) (hopen : g.fd.shut = false) :
    ∃ g', receive b turns g token beyond = .ok g' ∧
      Answered g g' g.arm (writeUint32 b (g.arm.word (BitVec.ofNat 8 (decimalRegister r)))) := by
  obtain ⟨t, more, ht, hreceive⟩ := receive_carried hread beyond
  have hstr : t.str 2 = [hexDigit r] := Text.str_eq _ ht (ne_zero_of_isHex (isHex_digit r))
  have hatoi : b.atoi (t.str 2) = BitVec.ofNat 32 (decimalRegister r) := by
    rw [hstr, atoi_digit]
  have hsmall : ∀ r : Fin 16, BitVec.ofNat 32 (decimalRegister r) < 16 ∧
      BitVec.ofNat 32 (decimalRegister r) ≠ 15 ∧
      u8 (BitVec.ofNat 32 (decimalRegister r)) = BitVec.ofNat 8 (decimalRegister r) ∧
      BitVec.ofNat 8 (decimalRegister r) ≠ 15 := by decide
  obtain ⟨hlt, hne, hu8, hne'⟩ := hsmall r
  have hanswers : GdbHandler.Answers b turns g t 2 .readRegister := by
    rwa [GdbHandler.Answers, hatoi]
  have hanswer : GdbHandler.answer b turns g t 2 .readRegister =
      writeUint32 b (g.arm.word (BitVec.ofNat 8 (decimalRegister r))) := by
    rw [GdbHandler.answer, hatoi, if_neg hne, hu8, armReadRegister, if_neg hne']
    exact congrArg (writeUint32 b) (BitVec.sub_zero _)
  obtain ⟨g', hok, hanswered⟩ := hreceive b turns g .readRegister hopen (by decide) (by decide)
    hanswers (by rw [hanswer, length_writeUint32]; decide)
  rw [hanswer] at hanswered
  exact ⟨g', hok, hanswered⟩

theorem receive_writeRegister (hwrite : WritesRegister b r v token) (hopen : g.fd.shut = false) :
    ∃ g', receive b turns g token beyond = .ok g' ∧
      Answered g g' (armWriteRegister g.arm (BitVec.ofNat 8 r) v) (ofString "OK") := by
  obtain ⟨text, htext, htoken⟩ := hwrite
  obtain ⟨t, more, ht, hreceive⟩ := receive_carried htoken beyond
  rw [List.append_assoc, List.cons_append] at ht
  have hnumber := hexNumber_digit r
  have hr := r.isLt
  obtain ⟨hindex, hregister⟩ := writtenRegister_of_text b (isHex_digit r) (by simp)
    (by omega) ht
  rw [hnumber] at hregister
  have hsmall : ∀ r : Fin 16, BitVec.ofNat 32 r < 16 ∧
      u8 (BitVec.ofNat 32 r) = BitVec.ofNat 8 r := by decide
  obtain ⟨hlt, hu8⟩ := hsmall r
  have hdrop : t.bytes.drop 4 = text ++ 0 :: more := by
    rw [show 4 = 2 + 2 from rfl, ← List.drop_drop, ht]
    rfl
  have hvalue : readUint32 b t 4 = v := readUint32_of_text b t hdrop htext
  have hanswers : GdbHandler.Answers b turns g t 2 .writeRegister := by
    refine ⟨by simp [hindex], ?_⟩
    rw [hregister]
    exact hlt
  obtain ⟨g', hok, hanswered⟩ := hreceive b turns g .writeRegister hopen (by decide) (by decide)
    hanswers (show (ofString "OK").length ≤ 1019 by decide)
  refine ⟨g', hok, ?_⟩
  have hcore : GdbHandler.core b turns g t 2 .writeRegister =
      armWriteRegister g.arm (BitVec.ofNat 8 r) v := by
    rw [GdbHandler.core, hregister, hu8, hindex]
    exact congrArg (armWriteRegister g.arm (BitVec.ofNat 8 r)) hvalue
  rw [hcore] at hanswered
  exact hanswered

end

/-- A `P` packet for a value of `r` is answered by `OK`; then a `p` packet is answered by this value if
it is for `r`, and otherwise as before. -/
def NamesRegister (b : Build) (turns : Nat) (g : GdbProtocolData) (r : Fin 16) (v : Word)
    (write : Chars) (beyond : Nat → Byte) : Prop :=
  ∃ g', receive b turns g write beyond = .ok g' ∧ Replies g g' (ofString "OK") ∧
    ∀ r' read beyond', ReadsRegister r' read → ∃ before reply after reply',
      receive b turns g read beyond' = .ok before ∧ Replies g before reply ∧
      receive b turns g' read beyond' = .ok after ∧ Replies g' after reply' ∧
      reply' = if r' = r then writeUint32 b v else reply

theorem decimalRegister_iff (f : Nat → Word) (r : Fin 16) (v : Word) :
    (∀ r', (if decimalRegister r' = r then v else f (decimalRegister r')) =
      if r' = r then v else f (decimalRegister r')) ↔ (1 ≤ r ∧ r ≤ 9) ∨ f 0 = v := by
  have hdecimal : ∀ r' : Fin 16, decimalRegister r' = r' ∨ decimalRegister r' = 0 ∧ 9 < r' := by
    decide
  constructor
  · intro hall
    have hcases : ∀ r : Fin 16, (1 ≤ r ∧ r ≤ 9) ∨ r = 0 ∨ decimalRegister r = 0 ∧ 0 ≠ r.val := by
      decide
    rcases hcases r with hnamed | rfl | ⟨hzero, hne⟩
    · exact Or.inl hnamed
    · -- the registers from `r10` on are read as `r0`
      exact Or.inr (hall 10).symm
    · have hself := hall r
      rw [hzero, if_neg hne, if_pos rfl] at hself
      exact Or.inr hself
  · intro hnamed r'
    rcases hdecimal r' with heq | ⟨hzero, hlarge⟩
    · simp only [heq, Fin.val_inj]
    · rw [hzero]
      rcases hnamed with ⟨hone, hnine⟩ | hsame
      · have hne : 0 ≠ r.val := by
          intro heq
          obtain rfl : 0 = r := Fin.ext heq
          exact absurd hone (by decide)
        have hne' : r' ≠ r := by
          rintro rfl
          exact absurd hnine (Fin.not_le.mpr hlarge)
        rw [if_neg hne, if_neg hne']
      · rw [hsame, ite_self, ite_self]

section
variable (b : Build) (turns : Nat) (g : GdbProtocolData) (r : Fin 16) (v : Word) (write : Chars)
  (beyond : Nat → Byte)

theorem namesRegister_iff_words (hwrite : WritesRegister b r v write) (hopen : g.fd.shut = false) :
    NamesRegister b turns g r v write beyond ↔
      ∀ r', (if decimalRegister r' = r then v else g.arm.word (BitVec.ofNat 8 (decimalRegister r'))) =
        if r' = r then v else g.arm.word (BitVec.ofNat 8 (decimalRegister r')) := by
  obtain ⟨g', hok, hanswered⟩ := receive_writeRegister b turns beyond hwrite hopen
  have hopen' : g'.fd.shut = false := by
    rw [hanswered.fd]
    exact hopen
  have hword : ∀ r' : Fin 16, g'.arm.word (BitVec.ofNat 8 (decimalRegister r')) =
      if decimalRegister r' = r then v else g.arm.word (BitVec.ofNat 8 (decimalRegister r')) := by
    intro r'
    have hsame : ∀ r' r : Fin 16, BitVec.ofNat 8 (decimalRegister r') = BitVec.ofNat 8 r ↔
        decimalRegister r' = r := by decide
    have hwritten := word_armWriteUsrRegister g.arm (BitVec.ofNat 8 r)
      (BitVec.ofNat 8 (decimalRegister r')) v
    simp only [hsame] at hwritten
    rw [hanswered.arm]
    exact hwritten
  simp only [← hword]
  rw [NamesRegister, exists_ok_iff hok, and_iff_right hanswered.replies]
  constructor
  · intro hall r'
    have hread : ReadsRegister r' (frame (ascii 'p' :: [hexDigit r'])) := carries_frame _
    obtain ⟨before, reply, after, reply', hbefore, hreply, hafter, hreply', heq⟩ :=
      hall r' _ (fun _ => 0) hread
    obtain ⟨before', hbefore', hanswer⟩ := receive_readRegister b turns (fun _ => 0) hread hopen
    obtain ⟨after', hafter', hanswer'⟩ := receive_readRegister b turns (fun _ => 0) hread hopen'
    obtain rfl : before = before' := Except.ok.inj (hbefore.symm.trans hbefore')
    obtain rfl : after = after' := Except.ok.inj (hafter.symm.trans hafter')
    rw [hreply.unique hanswer.replies, hreply'.unique hanswer'.replies, ← apply_ite] at heq
    exact writeUint32_injective heq
  · intro hall r' read beyond' hread
    obtain ⟨before, hbefore, hanswer⟩ := receive_readRegister b turns beyond' hread hopen
    obtain ⟨after, hafter, hanswer'⟩ := receive_readRegister b turns beyond' hread hopen'
    refine ⟨before, _, after, _, hbefore, hanswer.replies, hafter, hanswer'.replies, ?_⟩
    rw [hall r', apply_ite (writeUint32 b)]

/-- **One register**: a `P` and a `p` packet name the same register exactly if it is one of `r1` to
`r9`, or `r0` holds the value already. -/
theorem namesRegister_iff (hwrite : WritesRegister b r v write) (hopen : g.fd.shut = false) :
    NamesRegister b turns g r v write beyond ↔ (1 ≤ r ∧ r ≤ 9) ∨ g.arm.word 0 = v := by
  rw [namesRegister_iff_words b turns g r v write beyond hwrite hopen]
  exact decimalRegister_iff (fun i => g.arm.word (BitVec.ofNat 8 i)) r v

end

theorem writesRegister_text (b : Build) (r : Fin 16) (v : Word) :
    WritesRegister b r v
      (frame (ascii 'P' :: ([hexDigit r] ++ ascii '=' :: writeUint32 b v))) :=
  ⟨_, map_lower_writeUint32 b v, carries_frame _⟩

theorem namesRegister_iff_r1 :
    NamesRegister .x86 0 (gdbAt 0) 1 7
      (frame (ascii 'P' :: ([hexDigit 1] ++ ascii '=' :: writeUint32 .x86 7))) fun _ => 0 :=
  (namesRegister_iff .x86 0 (gdbAt 0) 1 7 _ _ (writesRegister_text .x86 1 7) rfl).mpr
    (Or.inl ⟨by decide, by decide⟩)

/-- 7 is written to `r10`, and 0 is read. -/
theorem namesRegister_iff_r10 :
    ¬ NamesRegister .x86 0 (gdbAt 0) 10 7
      (frame (ascii 'P' :: ([hexDigit 10] ++ ascii '=' :: writeUint32 .x86 7))) fun _ => 0 := by
  intro hnames
  have hwords := (namesRegister_iff_words .x86 0 (gdbAt 0) 10 7 _ _ (writesRegister_text .x86 10 7)
    rfl).mp hnames 10
  exact absurd hwords (by decide)

/-! ## Requests that are none -/

/-- A request does not stop the process. -/
def NoAbort (r : Except Fault GdbProtocolData) : Prop :=
  r ≠ .error .assertion ∧ r ≠ .error .nullPointer

/-- An empty reply or an error. -/
def IsRefusal (reply : Chars) : Prop := reply = [] ∨ reply.head? = some (ascii 'E')

/-- A request does not stop the process, and it is refused if it is not well formed. -/
structure Handles (b : Build) (turns : Nat) (g : GdbProtocolData) (token : Chars)
    (beyond : Nat → Byte) (wellFormed : Prop) : Prop where
  runs : NoAbort (receive b turns g token beyond)
  refuses : ¬ wellFormed → ∃ g' reply, receive b turns g token beyond = .ok g' ∧
    Replies g g' reply ∧ IsRefusal reply

/-- A hexadecimal number of a register. -/
def RegisterNumber (s : Chars) : Prop := IsHex s ∧ s ≠ [] ∧ hexNumber s < 16

/-- Such a number in front of a separator. -/
def RegisterAssignment (args : Chars) : Prop :=
  ∃ s value, args = s ++ ascii '=' :: value ∧ RegisterNumber s

section
variable (b : Build) (turns : Nat) {g : GdbProtocolData} {t : Text} {data : Nat} {token : Chars}
  (beyond : Nat → Byte)

theorem atoi_lt_of_registerNumber {s : Chars} (hs : RegisterNumber s) : b.atoi s < 16 := by
  obtain ⟨hhex, -, hlt⟩ := hs
  have hle := (number_decimal_le s).2
  rw [hexNumber] at hlt
  rw [Build.atoi, scanInt_of_isHex hhex, if_pos (by omega), BitVec.ofInt_natCast, BitVec.lt_def,
    BitVec.toNat_ofNat, Nat.mod_eq_of_lt (by omega)]
  exact Nat.lt_of_le_of_lt hle hlt

theorem not_isRefusal_writeUint32 (value : Word) : ¬ IsRefusal (writeUint32 b value) := by
  have hdigit : ∀ c : Byte, hexDigit (c.toNat / 16) ≠ ascii 'E' := by decide
  rw [writeUint32, uint32Loop_eq]
  split <;> simp [IsRefusal, twoDigits, hdigit]

end

section
variable (b : Build) (turns : Nat) {g : GdbProtocolData} {t : Text} {data : Nat} {token : Chars}
  (beyond : Nat → Byte) {handler : GdbHandler}
  (hregister : handler = .readRegister ∨ handler = .writeRegister)
include hregister

theorem ne_killRequest : handler ≠ .killRequest := by
  rcases hregister with rfl | rfl <;> simp

theorem not_isRefusal_answer : ¬ IsRefusal (handler.answer b turns g t data) := by
  rcases hregister with rfl | rfl
  · exact not_isRefusal_writeUint32 b _
  · simp [GdbHandler.answer, IsRefusal]
    decide

theorem noAbort_run_iff :
    NoAbort (handler.run b turns g t data) ↔ handler.Answers b turns g t data := by
  constructor
  · intro hruns
    by_contra hanswers
    rcases hregister with rfl | rfl
    · rw [GdbHandler.Answers] at hanswers
      exact hruns.1 (by rw [GdbHandler.run, Gdb.readRegister, if_pos hanswers])
    · rw [GdbHandler.Answers, not_and] at hanswers
      cases hindex : t.index data (ascii '=') with
      | none => exact hruns.2 (by simp only [GdbHandler.run, Gdb.writeRegister, hindex])
      | some equals =>
        have hreg := hanswers (by rw [hindex]; exact Option.some_ne_none equals)
        rw [Gdb.writtenRegister] at hreg
        exact hruns.1 (by simp only [GdbHandler.run, Gdb.writeRegister, hindex, if_pos hreg])
  · intro hanswers
    exact (GdbHandler.sends_run (ne_killRequest hregister) hanswers).no_abort

theorem handles_iff {command : Byte} {args : Chars} (htoken : Carries token (command :: args))
    (hopen : g.fd.shut = false) (hhandler : gdbHandler command = some handler) :
    ∃ t more, t.bytes.drop 2 = args ++ 0 :: more ∧
      (NoAbort (receive b turns g token beyond) ↔ handler.Answers b turns g t 2) ∧
      ∀ wellFormed, Handles b turns g token beyond wellFormed ↔
        handler.Answers b turns g t 2 ∧ wellFormed := by
  obtain ⟨x, y, hx, hy, hsum, rfl⟩ := htoken
  have hkill := ne_killRequest hregister
  have hlength : (handler.answer b turns g (dispatched (command :: args) x y beyond) 2).length ≤
      1019 := by
    rcases hregister with rfl | rfl
    · rw [GdbHandler.answer, length_writeUint32]
      decide
    · rw [GdbHandler.answer]
      decide
  have hruns : NoAbort (receive b turns g (packetToken (command :: args) x y) beyond) ↔
      handler.Answers b turns g (dispatched (command :: args) x y beyond) 2 := by
    rw [receive_accepted b turns g (command :: args) beyond hx hy hsum, gdbSendAck_of_open g hopen,
      List.headD_cons, hhandler, ← answers_acked]
    exact noAbort_run_iff b turns hregister
  refine ⟨dispatched (command :: args) x y beyond, _, drop_dispatched args x y beyond command, hruns,
    ?_⟩
  intro wellFormed
  constructor
  · intro hhandles
    have hanswers := hruns.mp hhandles.runs
    refine ⟨hanswers, ?_⟩
    by_contra hmalformed
    obtain ⟨g1, reply, hok, hreply, hrefusal⟩ := hhandles.refuses hmalformed
    obtain ⟨g', hok', hanswered⟩ := receive_handled b turns g (command :: args) beyond hx hy hopen
      hsum hhandler hkill hanswers hlength
    obtain rfl : g1 = g' := Except.ok.inj (hok.symm.trans hok')
    rw [hreply.unique hanswered.replies] at hrefusal
    exact not_isRefusal_answer b turns hregister hrefusal
  · intro hboth
    exact ⟨hruns.mpr hboth.1, fun hmalformed => absurd hboth.2 hmalformed⟩

end

section
variable (b : Build) (turns : Nat) (g : GdbProtocolData) (args read write : Chars)
  (beyond : Nat → Byte)

/-- **Register requests**: a `p` or `P` packet stops the process unless the number `atoi` or `%x` finds
is below 16 and there is a separator; it is never refused, so only well-formed requests are handled. -/
theorem registerRequest_iff (hread : Carries read (ascii 'p' :: args))
    (hwrite : Carries write (ascii 'P' :: args)) (hopen : g.fd.shut = false) :
    ((NoAbort (receive b turns g read beyond) ↔ b.atoi (args.takeWhile (· ≠ 0)) < 16) ∧
      (Handles b turns g read beyond (RegisterNumber args) ↔ RegisterNumber args)) ∧
    (NoAbort (receive b turns g write beyond) ↔ ascii '=' ∈ args.takeWhile (· ≠ 0) ∧
      b.scanWord (args.takeWhile (· ≠ 0)).length (args.takeWhile (· ≠ 0)) (b.host.garbage 32) < 16) ∧
      (Handles b turns g write beyond (RegisterAssignment args) ↔ RegisterAssignment args) := by
  constructor
  · have hhandler : gdbHandler (ascii 'p') = some .readRegister := by decide
    obtain ⟨t, more, ht, hruns, hhandles⟩ :=
      handles_iff b turns beyond (Or.inl rfl) hread hopen hhandler
    rw [GdbHandler.Answers, Text.str_of_drop ht] at hruns hhandles
    refine ⟨hruns, ?_⟩
    rw [hhandles, and_iff_right_iff_imp]
    intro hnumber
    have hargs : args.takeWhile (· ≠ 0) = args := by
      rw [List.takeWhile_eq_self_iff]
      exact fun c hc => decide_eq_true (ne_zero_of_isHex hnumber.1 c hc)
    rw [hargs]
    exact atoi_lt_of_registerNumber b hnumber
  · have hhandler : gdbHandler (ascii 'P') = some .writeRegister := by decide
    obtain ⟨t, more, ht, hruns, hhandles⟩ :=
      handles_iff b turns beyond (Or.inr rfl) hwrite hopen hhandler
    rw [GdbHandler.Answers] at hruns hhandles
    constructor
    · rwa [Text.index_ne_none_iff ht, Gdb.writtenRegister, Text.str_of_drop ht] at hruns
    · rw [hhandles, and_iff_right_iff_imp]
      rintro ⟨s, value, rfl, hhex, hne, hlt⟩
      rw [List.append_assoc, List.cons_append] at ht
      obtain ⟨hindex, hregister⟩ := writtenRegister_of_text b hhex hne (by omega) ht
      refine ⟨by rw [hindex]; exact Option.some_ne_none _, ?_⟩
      rw [hregister, BitVec.lt_def, BitVec.toNat_ofNat, Nat.mod_eq_of_lt (by omega)]
      exact hlt

end

/-- `p1=` and `P1=` do not stop the process. -/
theorem registerRequest_iff_r1 :
    NoAbort (receive .x86 0 (gdbAt 0) (frame (ofString "p1=")) fun _ => 0) ∧
    NoAbort (receive .x86 0 (gdbAt 0) (frame (ofString "P1=")) fun _ => 0) := by
  have hrequests := registerRequest_iff .x86 0 (gdbAt 0) (ofString "1=") _ _ (fun _ => 0)
    (carries_frame _) (carries_frame _) rfl
  exact ⟨hrequests.1.1.mpr (by decide), hrequests.2.1.mpr (by decide)⟩

/-- The status register, number 25, stops the process. -/
theorem registerRequest_iff_status :
    receive .x86 0 (gdbAt 0) (frame (ofString "p19")) (fun _ => 0) = .error .assertion := rfl

end Armator
