import Armator.Breakpoints
import Armator.GdbRegisters
import Armator.Simulation

/-!
# Programs under the debugger

A debugger stops a program at a breakpoint and reads the registers with `g`. If the simulator supports
the program until then, the reply has the registers that the machine of the architecture has when it
first comes to the breakpoint (`debugged_program`). Only the CPSR of the reply is none of the machine,
since the program counter stands in its place.
-/

namespace Armator

open CString Packet
open Arm (Machine)

/-! ## States away from a word -/

/-- The machine neither fetches the word at an address nor loads or stores there. -/
def Leaves (be : Bool) (q : Word) (c : Machine) : Prop :=
  c.reg 15 ≠ q ∧
    (Arm.IsTransfer (c.fetch be) → (c.address (c.fetch be)).toNat / 4 ≠ q.toNat / 4)

instance (be : Bool) (q : Word) : DecidablePred (Leaves be q) :=
  fun _ => inferInstanceAs (Decidable (_ ∧ _))

section
variable {h : Host} {be : Bool} {size : Nat} {c : Machine} {p : ArmCoreData} {q : Word}

theorem isUndefinedTransfer_of_breakpoint {w : Word} (hbreak : Gdb.IsBreakpoint w) :
    Arm.IsUndefinedTransfer w := by
  have hbit : ∀ {j : Nat}, (0xFFF000F0 : Word).getLsbD j = true →
      w.getLsbD j = (0xE7F000F0 : Word).getLsbD j := by
    intro j hmask
    have hj : (w &&& 0xFFF000F0).getLsbD j = (0xE7F000F0 : Word).getLsbD j :=
      congrArg (·.getLsbD j) hbreak
    rwa [BitVec.getLsbD_and, hmask, Bool.and_true] at hj
  refine ⟨?_, hbit (by decide), hbit (by decide)⟩
  apply BitVec.eq_of_getLsbD_eq
  intro i hi
  rw [BitVec.getLsbD_extractLsb']
  interval_cases i
  · exact hbit (by decide)
  · exact hbit (by decide)

theorem not_isBreakpoint_of_supported (hsupported : Supported h be size c) :
    ¬ Gdb.IsBreakpoint (c.fetch be) := by
  intro hbreak
  have hundef := isUndefinedTransfer_of_breakpoint hbreak
  rcases hsupported.instruction with hop | htransfer | hbranch
  · exact absurd (hop.type.symm.trans hundef.1) (by decide)
  · rcases htransfer.transfer with ⟨-, hdefined⟩ | hhalf
    · exact hdefined hundef
    · exact absurd (hhalf.1.1.symm.trans hundef.1) (by decide)
  · exact absurd (hbranch.branch.1.symm.trans hundef.1) (by decide)

variable (hsim : Simulates be size c p) (hsupported : Supported h be size c)
include hsim hsupported

theorem address_stepCall (hls : IsLoadStore (c.fetch be)) :
    Arm.IsTransfer (c.fetch be) ∧ (stepCall h p).address = c.address (c.fetch be) := by
  have hword := hsim.fetchedWord hsupported.aligned hsupported.inside (h := h)
  rcases hsupported.instruction with hop | htransfer | hbranch
  · rcases hls with htype | ⟨-, hbits⟩
    · exact absurd (hop.type.symm.trans htype) (by decide)
    · exact absurd hbits hop.bits
  · refine ⟨htransfer.transfer, ?_⟩
    rw [stepCall, hword]
    exact address_fetched hsim hsupported.aligned htransfer hsupported.flags hsupported.low
  · rcases hls with htype | ⟨htype, -⟩
    · exact absurd (hbranch.branch.1.symm.trans htype) (by decide)
    · exact absurd (hbranch.branch.1.symm.trans htype) (by decide)

theorem staysAway_of_leaves (hq : q.toNat % 4 = 0) (hleaves : Leaves be q c) :
    StaysAway h q p := by
  have haligned := hsupported.aligned
  have hword := hsim.fetchedWord haligned hsupported.inside (h := h)
  have haddress := hsim.fetchAddress haligned
  refine ⟨hsim.readable haligned hsupported.inside, ?_, ?_, ?_⟩
  · rw [hword]
    exact not_isBreakpoint_of_supported hsupported
  · rw [haddress]
    intro hsame
    apply hleaves.1
    apply BitVec.eq_of_toNat_eq
    omega
  · intro _ hls
    rw [hword] at hls
    obtain ⟨htransfer, hcall⟩ := address_stepCall hsim hsupported hls
    rw [hcall]
    exact hleaves.2 htransfer

end

/-! ## The registers of the reply -/

/-- The sixteen registers, in the order of the reply. -/
def registerValues (a : Machine) (i : Fin 16) : Word := a.reg (BitVec.ofNat 4 i)

theorem u8_ofNat (i : Fin 16) : u8 (BitVec.ofNat 4 i) = BitVec.ofNat 8 i := by
  revert i
  decide

theorem registersRead_of_simulates {be : Bool} {size : Nat} {a : Machine} {p : ArmCoreData}
    (hsim : Simulates be size a p) (haligned : (a.reg 15).toNat % 4 = 0) :
    registersRead p = registerValues a := by
  have hword : ∀ i : Fin 16, p.word (BitVec.ofNat 8 i) = registerValues a i := by
    intro i
    rw [← u8_ofNat]
    exact hsim.word _
  funext i
  rw [registersRead_eq]
  by_cases hi : i = 15
  · have haddress := hsim.fetchAddress haligned
    rw [if_pos hi, hi, ← fetchAddress_eq, haddress]
    rfl
  · rw [if_neg hi]
    exact hword i

section
variable {b : Build} {turns : Nat} {data : ParserData} {token : Chars} {beyond : Nat → Byte}
  {be : Bool} {size : Nat} {a : Machine}

theorem registers_ok (hopen : data.gdb.fd.shut = false) (hsum : SumAccepted b token beyond)
    (hcommand : commandOf token beyond = some .readGeneralRegisters)
    (hsim : Simulates be size a data.gdb.arm) (haligned : (a.reg 15).toNat % 4 = 0) :
    ∃ data' reply, scannerAction b turns data (.packet token beyond) = .ok data' ∧
      data'.gdb.arm = data.gdb.arm ∧ data'.gdb.fd.shut = false ∧
      lastReply data'.gdb.fd.sent = frame reply ∧
      EncodesRegisters b (registerValues a) (a.reg 15) reply := by
  have heffect : Effect b turns data.gdb token beyond _ _ _ :=
    .handled .readGeneralRegisters hcommand nofun trivial
  have hlength : (Gdb.generalRegisters b data.gdb.arm).flatten.length ≤ 1019 := by
    rw [length_generalRegisters]
    decide
  obtain ⟨data', haction, hsession⟩ := action_of_effect hsum hopen heffect hlength
  simp only [GdbProtocolData.session, Session.mk.injEq] at hsession
  obtain ⟨harm, -, hshut, hreply⟩ := hsession
  refine ⟨data', _, haction, harm, hshut, hreply, ?_⟩
  show EncodesRegisters b _ _ (Gdb.generalRegisters b data.gdb.arm).flatten
  have hcpsr : armReadCpsr data.gdb.arm = a.reg 15 := by
    rw [armReadCpsr_eq]
    exact hsim.word 15
  rw [generalRegisters_eq, registersRead_of_simulates hsim haligned, hcpsr]
  exact (encodesRegisters_iff _ _ _ _ length_missingRegisters).mpr ⟨rfl, rfl⟩

end

/-- **Programs under the debugger**: a breakpoint is set at `q`, the target is run, the breakpoint is
taken back and the registers are read. If the machine first comes to `q` after `n` steps that the
simulator supports, the target is then in the state of the machine, and the reply has its registers.
-/
theorem debugged_program (b : Build) (turns n : Nat) (data : ParserData) (a : Machine) (q : Word)
    (set cont restore read : Chars) (beyond beyond' beyond'' beyond''' : Nat → Byte)
    (hopen : data.gdb.fd.shut = false)
    (hhost : b.host.bigEndian = false ∨ data.gdb.arm.mem.isBigEndian = true)
    (hpackets : StopPackets b data.gdb.arm q set cont restore beyond)
    (hsum : SumAccepted b read beyond''')
    (hread : commandOf read beyond''' = some .readGeneralRegisters)
    (hrun : data.gdb.arm.machine.run data.gdb.arm.mem.isBigEndian n = some a)
    (hsupported : ∀ k < n, ∀ c ∈ data.gdb.arm.machine.run data.gdb.arm.mem.isBigEndian k,
      Supported b.host data.gdb.arm.mem.isBigEndian data.gdb.arm.mem.size c ∧
        Leaves data.gdb.arm.mem.isBigEndian q c)
    (hreach : a.reg 15 = q) (hturns : n < turns) :
    ∃ data' reply, scannerRun b turns data [.packet set beyond', .packet cont beyond,
        .packet restore beyond'', .packet read beyond'''] = .ok data' ∧
      Simulates data.gdb.arm.mem.isBigEndian data.gdb.arm.mem.size a data'.gdb.arm ∧
      lastReply data'.gdb.fd.sent = frame reply ∧
      EncodesRegisters b (registerValues a) (a.reg 15) reply := by
  have hruns := simulates_runs (simulates_machine data.gdb.arm) fun k hk c hc =>
    (hsupported k hk c hc).1
  have hsim := hruns n (Nat.le_refl n) a hrun
  have haligned : (a.reg 15).toNat % 4 = 0 := by
    rw [hreach]
    exact hpackets.aligned
  have hstop : StopsAt b turns data.gdb.arm q n := by
    refine ⟨(hsim.fetchAddress haligned).trans hreach, fun k hk => ?_, hturns⟩
    obtain ⟨c, hc⟩ := Arm.Machine.exists_run hrun (Nat.le_of_lt hk)
    obtain ⟨hsupport, hleaves⟩ := hsupported k hk c hc
    exact staysAway_of_leaves (hruns k (Nat.le_of_lt hk) c hc) hsupport hpackets.aligned hleaves
  obtain ⟨data1, hrun1, harm1, hopen1⟩ := stopsAt_ok beyond' beyond'' hopen hhost hpackets hstop
  rw [← harm1] at hsim
  obtain ⟨data2, reply, haction, harm2, -, hreply, hregisters⟩ :=
    registers_ok hopen1 hsum hread hsim haligned
  refine ⟨data2, reply, ?_, ?_, hreply, hregisters⟩
  · show scannerRun b turns data ([.packet set beyond', .packet cont beyond,
      .packet restore beyond''] ++ [.packet read beyond''']) = _
    rw [scannerRun_append, hrun1]
    exact scannerRun_cons haction
  · rw [harm2]
    exact hsim

/-- `STR r0, [r1, #64]` in front of `MOV r1, #6`. -/
def storeFirst : ParserData :=
  gdbScanner (coreOf 32 [0xE5810040, 0xE3A01006]) (fun _ => 0) fun _ => 0

theorem debugged_program_store :
    ∃ a events data' reply, storeFirst.gdb.arm.machine.run true 1 = some a ∧
      scannerRun .x86 2 storeFirst events = .ok data' ∧ Simulates true 32 a data'.gdb.arm ∧
      lastReply data'.gdb.fd.sent = frame reply ∧
      EncodesRegisters .x86 (registerValues a) (a.reg 15) reply := by
  have hpackets : StopPackets .x86 storeFirst.gdb.arm 4 _ (frame (ofString "c")) _ fun _ => 0 :=
    ⟨by decide, by decide, ⟨[0xE7, 0xF0, 0x01, 0xF0], rfl, writeRequest_word _ rfl, by decide⟩,
      sumAccepted_frame _ _ _, by decide, writeRequest_word _ rfl⟩
  obtain ⟨a, hrun, hreach⟩ :
      ∃ a, storeFirst.gdb.arm.machine.run true 1 = some a ∧ a.reg 15 = 4 :=
    ⟨_, rfl, by decide⟩
  obtain ⟨data', reply, hdebugged⟩ := debugged_program .x86 2 1 storeFirst a 4 _ _ _
    (frame (ofString "g")) _ (fun _ => 0) (fun _ => 0) (fun _ => 0) rfl (.inl rfl) hpackets
    (sumAccepted_frame _ _ _) (by decide) hrun (by decide) hreach (by decide)
  exact ⟨a, _, data', reply, hrun, hdebugged⟩

end Armator
