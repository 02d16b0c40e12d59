import Mathlib.Data.List.OfFn
import Armator.GdbPackets

/-!
# The registers of the debugger

`read_general_registers` and `write_general_registers` have one layout (`EncodesRegisters`), and
both go through all of it. But the second writes the CPSR over `r15`, with which it shares a word
of the register file, so the registers are read back exactly if the two were the same up to the bit
the program counter loses (`general_registers_iff`).
-/

namespace Armator

open CString Packet

/-- The layout of `read_general_registers`, with any text for the registers that do not exist. -/
def EncodesRegisters (b : Build) (v : Fin 16 → Word) (cpsr : Word) (text : Chars) : Prop :=
  ∃ registers filler status, text = registers ++ filler ++ status ∧
    registers.map lower = (List.ofFn v).flatMap (writeUint32 b) ∧
    filler.length = 8 * (8 * 3 + 1) ∧ status.map lower = writeUint32 b cpsr

/-! ## The layout -/

section
variable {b : Build}

theorem length_registers {v : Fin 16 → Word} {registers : Chars}
    (hregisters : registers.map lower = (List.ofFn v).flatMap (writeUint32 b)) :
    registers.length = 8 * 16 := by
  rw [← List.length_map lower, hregisters, length_fields (length_writeUint32 b), List.length_ofFn]

theorem encodesRegisters_iff (v w : Fin 16 → Word) (cpsr status : Word) {filler : Chars}
    (hfiller : filler.length = 8 * (8 * 3 + 1)) :
    EncodesRegisters b v cpsr
      ((List.ofFn w).flatMap (writeUint32 b) ++ filler ++ writeUint32 b status) ↔
        w = v ∧ status = cpsr := by
  have hlower : ((List.ofFn w).flatMap (writeUint32 b)).map lower =
      (List.ofFn w).flatMap (writeUint32 b) := by
    rw [List.map_flatMap]
    simp only [map_lower_writeUint32]
  constructor
  · rintro ⟨registers, filler', status', heq, hregisters, hfiller', hstatus⟩
    have hlength : ((List.ofFn w).flatMap (writeUint32 b)).length = registers.length := by
      rw [length_fields (length_writeUint32 b), List.length_ofFn, length_registers hregisters]
    rw [List.append_assoc, List.append_assoc] at heq
    obtain ⟨hfirst, heq⟩ := List.append_inj heq hlength
    obtain ⟨-, hlast⟩ := List.append_inj heq (hfiller.trans hfiller'.symm)
    rw [← hfirst, hlower] at hregisters
    rw [← hlast, map_lower_writeUint32] at hstatus
    exact ⟨List.ofFn_injective (fields_injective (length_writeUint32 b) (by decide)
      (fun _ _ => writeUint32_injective) hregisters), writeUint32_injective hstatus⟩
  · rintro ⟨rfl, rfl⟩
    exact ⟨_, filler, _, rfl, hlower, hfiller, map_lower_writeUint32 b status⟩

end

/-! ## What is read -/

/-- The values `read_general_registers` writes for `r0` to `r15`. -/
def registersRead (p : ArmCoreData) (i : Fin 16) : Word :=
  if i = 15 then armReadRegister p 15 - 4 else armReadRegister p (BitVec.ofNat 8 i)

def missingRegisters : Chars :=
  (List.replicate (8 * 3) (ofString "xxxxxxxx") ++ [ofString "xxxxxxxx"]).flatten

theorem generalRegisters_eq (b : Build) (p : ArmCoreData) :
    (Gdb.generalRegisters b p).flatten =
      (List.ofFn (registersRead p)).flatMap (writeUint32 b) ++ missingRegisters ++
        writeUint32 b (armReadCpsr p) := by
  have hregisters : (List.range 15).map
      (fun i => writeUint32 b (armReadRegister p (BitVec.ofNat 8 i))) ++
        [writeUint32 b (armReadRegister p 15 - 4)] =
      (List.ofFn (registersRead p)).map (writeUint32 b) := rfl
  rw [Gdb.generalRegisters, hregisters, missingRegisters, List.flatMap_def, List.append_assoc _
    (List.replicate _ _), List.flatten_append, List.flatten_append, List.flatten_singleton]

theorem length_missingRegisters : missingRegisters.length = 8 * (8 * 3 + 1) := by
  decide +kernel

theorem length_generalRegisters (b : Build) (p : ArmCoreData) :
    (Gdb.generalRegisters b p).flatten.length = 336 := by
  rw [generalRegisters_eq, List.length_append, List.length_append,
    length_fields (length_writeUint32 b), List.length_ofFn, length_writeUint32,
    length_missingRegisters]

theorem mem_writtenGeneralRegisters (b : Build) (g : GdbProtocolData) (t : Text) :
    (Gdb.writtenGeneralRegisters b g t 2).mem = g.arm.mem := by
  have hfold : ∀ (l : List Nat) (p : ArmCoreData), (l.foldl (fun p i =>
      armWriteRegister p (BitVec.ofNat 8 i) (readUint32 b t (2 + 8 * i))) p).mem = p.mem := by
    intro l
    induction l with
    | nil => exact fun p => rfl
    | cons i l ih => exact fun p => ih _
  have hstatus : ∀ (p : ArmCoreData) (x : Word), (armWriteCpsr p x).mem = p.mem := fun _ _ => rfl
  rw [Gdb.writtenGeneralRegisters, hstatus, hfold]

theorem ofNat_eq_15 {i : Fin 16} : BitVec.ofNat 8 i = 15 ↔ i = 15 := by
  revert i
  decide

theorem registersRead_eq (p : ArmCoreData) (i : Fin 16) :
    registersRead p i =
      if i = 15 then ((p.word 15 + 4) &&& 0xFFFFFFFD) - 4 else p.word (BitVec.ofNat 8 i) := by
  rw [registersRead]
  by_cases hi : i = 15
  · rw [if_pos hi, if_pos hi]
    rfl
  · rw [if_neg hi, if_neg hi, armReadRegister, if_neg (mt ofNat_eq_15.mp hi)]
    rfl

/-! ## What is written -/

theorem word_foldl_armWriteRegister (f : Nat → Word) (p : ArmCoreData) (reg : Byte) {n : Nat}
    (hn : n ≤ 256) :
    ((List.range n).foldl (fun p i => armWriteRegister p (BitVec.ofNat 8 i) (f i)) p).word reg =
      if reg.toNat < n then f reg.toNat else p.word reg := by
  induction n with
  | zero => rfl
  | succ n ih =>
    have hstep : ∀ p : ArmCoreData, (armWriteRegister p (BitVec.ofNat 8 n) (f n)).word reg =
        if reg = BitVec.ofNat 8 n then f n else p.word reg :=
      fun p => word_armWriteUsrRegister p (BitVec.ofNat 8 n) reg (f n)
    have hlt := reg.isLt
    rw [List.range_succ, List.foldl_append, List.foldl_cons, List.foldl_nil, hstep,
      ih (by omega)]
    have hreg : reg = BitVec.ofNat 8 n ↔ reg.toNat = n := by
      rw [← BitVec.toNat_inj, BitVec.toNat_ofNat, Nat.mod_eq_of_lt (by omega)]
    by_cases heq : reg.toNat = n
    · rw [if_pos (hreg.mpr heq), if_pos (by omega), heq]
    · rw [if_neg (mt hreg.mp heq)]
      by_cases hless : reg.toNat < n
      · rw [if_pos hless, if_pos (by omega)]
      · rw [if_neg hless, if_neg (by omega)]

section
variable {b : Build} {g : GdbProtocolData} {t : Text} {v : Fin 16 → Word} {cpsr : Word}
  {text more : Chars}

theorem readUint32_register (henc : EncodesRegisters b v cpsr text)
    (ht : t.bytes.drop 2 = text ++ more) (i : Fin 16) :
    readUint32 b t (2 + 8 * i) = v i := by
  obtain ⟨registers, filler, status, rfl, hregisters, -, -⟩ := henc
  have hi : (i : Nat) < (List.ofFn v).length := by
    rw [List.length_ofFn]
    exact i.isLt
  obtain ⟨s, rest, hdrop, hs⟩ :=
    drop_fields (length_writeUint32 b) (filler ++ status ++ more) hregisters hi
  rw [List.getElem_ofFn] at hs
  have htext : t.bytes.drop (2 + 8 * i) = s ++ rest := by
    rw [← List.drop_drop, ht, ← hdrop]
    simp only [List.append_assoc]
  exact readUint32_of_text b t htext hs

theorem readUint32_status (henc : EncodesRegisters b v cpsr text)
    (ht : t.bytes.drop 2 = text ++ more) :
    readUint32 b t (2 + 8 * (16 + 8 * 3 + 1)) = cpsr := by
  obtain ⟨registers, filler, status, rfl, hregisters, hfiller, hstatus⟩ := henc
  have hlength : (registers ++ filler).length = 8 * (16 + 8 * 3 + 1) := by
    rw [List.length_append, length_registers hregisters, hfiller]
  have htext : t.bytes.drop (2 + 8 * (16 + 8 * 3 + 1)) = status ++ more := by
    rw [← List.drop_drop, ht, List.append_assoc, ← hlength, List.drop_left]
  exact readUint32_of_text b t htext hstatus

theorem word_writtenGeneralRegisters (henc : EncodesRegisters b v cpsr text)
    (ht : t.bytes.drop 2 = text ++ more) (i : Fin 16) :
    (Gdb.writtenGeneralRegisters b g t 2).word (BitVec.ofNat 8 i) =
      if i = 15 then cpsr else v i := by
  have hi := i.isLt
  have htoNat : (BitVec.ofNat 8 i).toNat = i := by
    rw [BitVec.toNat_ofNat, Nat.mod_eq_of_lt (by omega)]
  rw [Gdb.writtenGeneralRegisters, readUint32_status henc ht, armWriteCpsr_eq,
    word_armWriteUsrRegister]
  by_cases heq : i = 15
  · rw [if_pos (ofNat_eq_15.mpr heq), if_pos heq]
  · rw [if_neg (mt ofNat_eq_15.mp heq), if_neg heq,
      word_foldl_armWriteRegister _ _ _ (by decide), htoNat, if_pos hi,
      readUint32_register henc ht]

/-- The CPSR has been written over `r15`. -/
theorem registersRead_written (henc : EncodesRegisters b v cpsr text)
    (ht : t.bytes.drop 2 = text ++ more) (i : Fin 16) :
    registersRead (Gdb.writtenGeneralRegisters b g t 2) i =
      if i = 15 then ((cpsr + 4) &&& 0xFFFFFFFD) - 4 else v i := by
  have h15 := word_writtenGeneralRegisters (g := g) henc ht 15
  rw [if_pos rfl] at h15
  rw [registersRead_eq, word_writtenGeneralRegisters henc ht]
  by_cases hi : i = 15
  · rw [if_pos hi, if_pos hi, ← h15]
    rfl
  · rw [if_neg hi, if_neg hi, if_neg hi]

theorem armReadCpsr_written (henc : EncodesRegisters b v cpsr text)
    (ht : t.bytes.drop 2 = text ++ more) :
    armReadCpsr (Gdb.writtenGeneralRegisters b g t 2) = cpsr :=
  word_writtenGeneralRegisters henc ht 15

end

/-! ## The round trip -/

/-- The registers of a `G` packet are those of the reply to a `g` packet behind it. -/
def RegistersReadBack (b : Build) (turns : Nat) (g : GdbProtocolData) (v : Fin 16 → Word)
    (cpsr : Word) (write read : Chars) (beyond beyond' : Nat → Byte) : Prop :=
  ∃ g1 g2 reply, receive b turns g write beyond = .ok g1 ∧
    receive b turns g1 read beyond' = .ok g2 ∧
    g2.fd.sent = g.fd.sent ++ [ofString "+", frame (ofString "OK"), ofString "+", frame reply] ∧
    EncodesRegisters b v cpsr reply

/-- Whatever `r15` was, the program counter is read from the CPSR. -/
def readBack (v : Fin 16 → Word) (cpsr : Word) (i : Fin 16) : Word :=
  if i = 15 then ((cpsr + 4) &&& 0xFFFFFFFD) - 4 else v i

section
variable (b : Build) (turns : Nat) {g : GdbProtocolData} {v : Fin 16 → Word} {cpsr : Word}
  {text write read : Chars} (beyond beyond' : Nat → Byte)

theorem reply_generalRegisters (henc : EncodesRegisters b v cpsr text)
    (hwrite : Carries write (ascii 'G' :: text)) (hread : Carries read (ofString "g"))
    (hopen : g.fd.shut = false) :
    ∃ g1 g2, receive b turns g write beyond = .ok g1 ∧ receive b turns g1 read beyond' = .ok g2 ∧
      g2.fd.sent = g.fd.sent ++ [ofString "+", frame (ofString "OK"), ofString "+",
        frame ((List.ofFn (readBack v cpsr)).flatMap (writeUint32 b) ++ missingRegisters ++
          writeUint32 b cpsr)] := by
  obtain ⟨t, more, ht, hwrite⟩ := receive_carried hwrite beyond
  obtain ⟨g1, hok1, harm1, hfd1⟩ :=
    hwrite b turns g .writeGeneralRegisters hopen (by decide) (by decide) trivial
      (show (ofString "OK").length ≤ 1019 by decide)
  obtain ⟨t', more', -, hread⟩ := receive_carried hread beyond'
  have hopen1 : g1.fd.shut = false := by
    rw [hfd1]
    exact hopen
  obtain ⟨g2, hok2, -, hfd2⟩ :=
    hread b turns g1 .readGeneralRegisters hopen1 (by decide) (by decide) trivial
      (by rw [GdbHandler.answer, length_generalRegisters]; decide)
  refine ⟨g1, g2, hok1, hok2, ?_⟩
  have hregisters : registersRead g1.arm = readBack v cpsr := by
    rw [harm1]
    exact funext fun i => registersRead_written henc ht i
  have hcpsr : armReadCpsr g1.arm = cpsr := by
    rw [harm1]
    exact armReadCpsr_written henc ht
  rw [hfd2, GdbHandler.answer, generalRegisters_eq, hregisters, hcpsr, hfd1, List.append_assoc]
  rfl

theorem registersReadBack_iff (henc : EncodesRegisters b v cpsr text)
    (hwrite : Carries write (ascii 'G' :: text)) (hread : Carries read (ofString "g"))
    (hopen : g.fd.shut = false) :
    RegistersReadBack b turns g v cpsr write read beyond beyond' ↔ readBack v cpsr = v := by
  obtain ⟨g1, g2, hok1, hok2, hsent⟩ :=
    reply_generalRegisters b turns beyond beyond' henc hwrite hread hopen
  have hlayout := @encodesRegisters_iff b v (readBack v cpsr) cpsr cpsr _ length_missingRegisters
  constructor
  · rintro ⟨g1', g2', reply, hok1', hok2', hsent', hreply⟩
    obtain rfl : g1 = g1' := Except.ok.inj (hok1.symm.trans hok1')
    obtain rfl : g2 = g2' := Except.ok.inj (hok2.symm.trans hok2')
    have hframes := List.append_cancel_left (hsent.symm.trans hsent')
    simp only [List.cons.injEq, and_true, true_and] at hframes
    rw [← frame_injective hframes] at hreply
    exact (hlayout.mp hreply).1
  · intro heq
    exact ⟨g1, g2, _, hok1, hok2, hsent, hlayout.mpr ⟨heq, rfl⟩⟩

end

theorem readBack_eq_iff {v : Fin 16 → Word} (hv : (v 15).toNat % 4 = 0) (cpsr : Word) :
    readBack v cpsr = v ↔ cpsr = v 15 ∨ cpsr = v 15 + 2 := by
  have hpc : readBack v cpsr = v ↔ ((cpsr + 4) &&& 0xFFFFFFFD) - 4 = v 15 := by
    constructor
    · intro heq
      rw [← congrFun heq 15]
      rfl
    · intro heq
      funext i
      rw [readBack]
      by_cases hi : i = 15
      · rw [if_pos hi, heq, hi]
      · rw [if_neg hi]
  rw [hpc]
  have hmask := toNat_and_pcMask (cpsr + 4)
  have hlt := cpsr.isLt
  have hlt' := (v 15).isLt
  simp only [← BitVec.toNat_inj, BitVec.toNat_sub, BitVec.toNat_add, hmask]
  rw [show (4 : Word).toNat = 4 from rfl, show (2 : Word).toNat = 2 from rfl]
  omega

/-- **Registers**: a `G` packet is answered and read back by `g` exactly if its CPSR is its `r15`,
or its `r15` plus 2. -/
theorem general_registers_iff (b : Build) (turns : Nat) (g : GdbProtocolData) (v : Fin 16 → Word)
    (cpsr : Word) (text write read : Chars) (beyond beyond' : Nat → Byte)
    (hv : (v 15).toNat % 4 = 0) (henc : EncodesRegisters b v cpsr text)
    (hwrite : Carries write (ascii 'G' :: text)) (hread : Carries read (ofString "g"))
    (hopen : g.fd.shut = false) :
    RegistersReadBack b turns g v cpsr write read beyond beyond' ↔
      cpsr = v 15 ∨ cpsr = v 15 + 2 := by
  rw [registersReadBack_iff b turns beyond beyond' henc hwrite hread hopen, readBack_eq_iff hv]

/-- The text of some registers. -/
def registersText (b : Build) (v : Fin 16 → Word) (cpsr : Word) : Chars :=
  (List.ofFn v).flatMap (writeUint32 b) ++ missingRegisters ++ writeUint32 b cpsr

theorem encodesRegisters_text (b : Build) (v : Fin 16 → Word) (cpsr : Word) :
    EncodesRegisters b v cpsr (registersText b v cpsr) :=
  (encodesRegisters_iff v v cpsr cpsr length_missingRegisters).mpr ⟨rfl, rfl⟩

/-- Sixteen different values, the last of them a multiple of 4. -/
def countedRegisters (i : Fin 16) : Word := BitVec.ofNat 32 (0x01020304 * (i + 1))

theorem general_registers_iff_counted :
    RegistersReadBack .x86 0 (gdbAt 0xE3A00005) countedRegisters 0x10203040
      (frame (ascii 'G' :: registersText .x86 countedRegisters 0x10203040)) (frame (ofString "g"))
      (fun _ => 0) fun _ => 0 :=
  (general_registers_iff .x86 0 (gdbAt 0xE3A00005) countedRegisters 0x10203040 _ _ _ _ _ (by decide)
    (encodesRegisters_text _ _ _) (carries_frame _) (carries_frame _) rfl).mpr
    (Or.inl (by decide))

/-- The CPSR of the reset is read back as the program counter. -/
theorem general_registers_iff_reset :
    ¬ RegistersReadBack .x86 0 (gdbAt 0) (fun _ => 0) 0x1d3
      (frame (ascii 'G' :: registersText .x86 (fun _ => 0) 0x1d3)) (frame (ofString "g"))
      (fun _ => 0) fun _ => 0 := by
  intro hback
  have heq := (registersReadBack_iff .x86 0 _ _ (encodesRegisters_text _ _ _) (carries_frame _)
    (carries_frame _) rfl).mp hback
  exact absurd ((readBack_eq_iff (by decide) 0x1d3).mp heq) (by decide)

end Armator
