import Armator.Condition
import Armator.Evaluation
import Armator.RegisterShift

/-!
# Register numbers

Which register numbers a step passes to the accessors of the core. The fields of an instruction have
four bits, so that only `write_flags` can get another one: the comparisons call it with their result
(`always_instr`, `registerNumbers_iff`).
-/

namespace Armator

open Logged

/-- A register number is one of the sixteen. -/
def Event.InFile : Event → Prop
  | register reg => reg < 16
  | shift _ | flags _ _ => True

namespace Eval

/-! ## Shifts and accessors -/

section
variable (h : Host) (p : ArmCoreData) (reg : Byte) (x : Word)

@[simp] theorem inFile_register : Event.InFile (.register reg) ↔ reg < 16 := Iff.rfl

@[simp] theorem inFile_shift (n : Int) : Event.InFile (.shift n) := trivial

@[simp] theorem inFile_flags (c v : Byte) : Event.InFile (.flags c v) := trivial

@[simp] theorem inFile_shl (n : Int) : Always Event.InFile (shl h x n) := by simp [shl]

@[simp] theorem inFile_shr (n : Int) : Always Event.InFile (shr h x n) := by simp [shr]

@[simp] theorem inFile_left {w : Nat} (x : BitVec w) (n : Int) : Always Event.InFile (left x n) := by
  simp [left]

@[simp] theorem inFile_right {w : Nat} (x : BitVec w) (n : Int) :
    Always Event.InFile (right x n) := by
  simp [right]

@[simp] theorem inFile_asr (n : Byte) : Always Event.InFile (asr h x n) := by simp [asr, getBit]

@[simp] theorem inFile_ror (n : Byte) : Always Event.InFile (ror h x n) := by simp [ror]

@[simp] theorem inFile_armReadRegister :
    Always Event.InFile (armReadRegister p reg) ↔ reg < 16 := by
  simp [armReadRegister]

@[simp] theorem inFile_armReadUsrRegister :
    Always Event.InFile (armReadUsrRegister p reg) ↔ reg < 16 := by
  simp [armReadUsrRegister]

@[simp] theorem inFile_armWriteRegister :
    Always Event.InFile (armWriteRegister p reg x) ↔ reg < 16 := by
  simp [armWriteRegister]

@[simp] theorem inFile_armWriteUsrRegister :
    Always Event.InFile (armWriteUsrRegister p reg x) ↔ reg < 16 := by
  simp [armWriteUsrRegister]

end

/-! ## Fields -/

theorem nibble_lt (x : Word) (i : Nat) : u8 ((x >>> i) &&& 15) < 16 := by
  rw [u8_nibble, BitVec.lt_def, BitVec.toNat_setWidth_of_le (by decide)]
  exact (x.extractLsb' i 4).isLt

theorem low_nibble_lt {w : Nat} (x : BitVec w) {mask : BitVec w} (hmask : mask.toNat = 2 ^ 4 - 1) :
    u8 (x &&& mask) < 16 := by
  rw [u8_low_field x hmask, BitVec.lt_def, BitVec.toNat_setWidth_of_le (by decide)]
  exact (x.extractLsb' 0 4).isLt

theorem bit_lt (x : Word) (i : Nat) : u8 ((x >>> i) &&& 1) < 16 := by
  rw [u8_bit]
  cases x.getLsbD i <;> decide

/-! ## Data processing -/

section
variable (h : Host) (p : ArmCoreData) (rsource rdest : Byte) (shifterOperand : Half)
  (shifterCarryOut flagC flagV s : Byte)

theorem inFile_writeFlags :
    Always Event.InFile (writeFlags p rdest flagC flagV) ↔ rdest < 16 := by
  simp only [writeFlags, always_bind, always_tell, inFile_flags, inFile_armReadUsrRegister,
    always_pure, true_and, and_true, and_self]

theorem inFile_updateFlags (hrdest : rdest < 16) :
    Always Event.InFile (updateFlags p rdest s flagC flagV) := by
  simp only [updateFlags, always_bind, always_tell, inFile_flags, always_ite, inFile_writeFlags,
    hrdest, always_pure, ite_self, and_self]

/-- A comparison passes its result on as a register number. -/
theorem inFile_instr (hrsource : rsource < 16) (hrdest : rdest < 16) (hs : s < 16)
    (op : Arm.Opcode) :
    Always Event.InFile (instr p rsource rdest shifterOperand shifterCarryOut flagC s op) ↔
      (op.isComparison = true → u8 (instrValue p rsource shifterOperand flagC op) < 16) := by
  have hflags : ∀ p c v, Always Event.InFile (updateFlags p s rdest c v) :=
    fun p c v => inFile_updateFlags p s c v rdest hs
  cases op <;> simp only [instr, andInstr, xorInstr, subInstr, rsbInstr, addInstr, adcInstr,
    sbcInstr, rscInstr, tstInstr, teqInstr, cmpInstr, cmnInstr, orrInstr, movInstr, bicInstr,
    mvnInstr, always_bind, always_pure, inFile_armReadUsrRegister, inFile_armWriteUsrRegister,
    inFile_writeFlags, hrsource, hrdest, hflags, true_and, and_true, Arm.Opcode.isComparison,
    Bool.false_eq_true, false_imp_iff, forall_const] <;> rfl

theorem inFile_shiftByRegister :
    Always Event.InFile (shiftByRegister h p rdest shifterOperand flagC) := by
  have hrm := low_nibble_lt shifterOperand (show (0xF : Half).toNat = 2 ^ 4 - 1 from rfl)
  simp only [shiftByRegister, always_bind, always_ite, always_pure, inFile_right, inFile_left,
    inFile_asr, inFile_armReadUsrRegister, hrm, and_self, ite_self]

theorem inFile_shiftByImmediate :
    Always Event.InFile (shiftByImmediate h p shifterOperand flagC) := by
  have hrm := low_nibble_lt shifterOperand (show (0xF : Half).toNat = 2 ^ 4 - 1 from rfl)
  simp only [shiftByImmediate, always_bind, always_ite, always_pure, inFile_right, inFile_left,
    inFile_asr, inFile_ror, inFile_armReadUsrRegister, hrm, and_self, ite_self]

theorem inFile_updateShifterOperand (i : Byte) :
    Always Event.InFile (updateShifterOperand h p rdest shifterOperand flagC i) := by
  simp only [updateShifterOperand, always_bind, always_ite, always_pure, inFile_right, inFile_ror,
    inFile_shiftByRegister, inFile_shiftByImmediate, and_self, ite_self]

end

/-! ## Loads, stores and branches -/

section
variable (h : Host) (p : ArmCoreData) (ins : Word)

theorem inFile_armLoadStoreH : Always Event.InFile (armLoadStoreH h p ins) := by
  have hrm := low_nibble_lt ins (show (15 : Word).toNat = 2 ^ 4 - 1 from rfl)
  simp only [armLoadStoreH, always_bind, always_ite, always_pure, inFile_armReadUsrRegister,
    inFile_armWriteUsrRegister, nibble_lt, hrm, and_self, ite_self]

theorem inFile_armLoadStore : Always Event.InFile (armLoadStore h p ins) := by
  have hrm := low_nibble_lt ins (show (15 : Word).toNat = 2 ^ 4 - 1 from rfl)
  have h15 : (15 : Byte) < 16 := by decide
  simp only [armLoadStore, loadStoreOffsetReg, ldrLdrb, strStrb, always_bind, always_ite,
    always_pure, inFile_right, inFile_shl, inFile_shr, inFile_asr, inFile_ror,
    inFile_armReadUsrRegister, inFile_armWriteUsrRegister, value_right, Int.reduceToNat, nibble_lt,
    hrm, h15, and_self, ite_self]

theorem inFile_traitementBR : Always Event.InFile (traitementBR p ins) := by
  have h14 : (14 : Byte) < 16 := by decide
  have h15 : (15 : Byte) < 16 := by decide
  simp only [traitementBR, armBranch, bBlInstr, always_bind, always_ite, always_pure,
    inFile_armReadUsrRegister, inFile_armWriteUsrRegister, h14, h15, and_self, ite_self]

/-! ## The step -/

theorem inFile_traitementAR (mot : Word) (flagC : Byte) :
    Always Event.InFile (traitementAR h p mot flagC) ↔
      ((Arm.opcode mot).isComparison = true →
        u8 (instrValue p (rnField mot) (shifterOf h p mot flagC).2 flagC (Arm.opcode mot)) < 16) := by
  simp only [traitementAR, always_bind, inFile_updateShifterOperand, true_and,
    value_updateShifterOperand]
  exact inFile_instr p (rnField mot) (rdField mot) _ _ flagC _ (nibble_lt mot 16) (nibble_lt mot 12)
    (bit_lt mot 20) (Arm.opcode mot)

end

end Eval

/-! ## Comparisons -/

/-- The operand of a data-processing instruction as the source delivers it; `ROR #0` leaves the
field. -/
def dataOperand (h : Host) (p : ArmCoreData) (mot : Word) (c : Bool) : Half :=
  let op := u16 (mot &&& 4095)
  if mot.getLsbD 25 then u16 (ror h (immediateField mot) (BitVec.ofNat 8 (2 * rotationField mot)))
  else if op.getLsbD 4 then
    (registerShift c (low (rmValue p op)) (rsField op) (16 * (rdField mot).toNat + rsField op)
      (shiftField op)).2
  else if shiftField op = .ror ∧ amountField op = 0 then op
  else u16 ((shiftField op).byImmediate c (low (rmValue p op)) (amountField op)).1

theorem shifterOf_snd (h : Host) (p : ArmCoreData) (mot : Word) (c : Bool) :
    (shifterOf h p mot (ofBool c)).2 = dataOperand h p mot c := by
  have hrd : (rdField mot).toNat < 16 := Eval.nibble_lt mot 12
  unfold dataOperand
  dsimp only
  cases h25 : mot.getLsbD 25 with
  | true => rw [shifterOf_immediate mot h p _ h25, if_pos rfl]
  | false =>
    rw [if_neg Bool.false_ne_true, shifterOf, u8_bit, h25, ← rdField]
    generalize u16 (mot &&& 4095) = op
    cases h4 : op.getLsbD 4 with
    | true =>
      have hregister : updateShifterOperand h p (rdField mot) op (ofBool false) (ofBool c) =
          shiftByRegister h p (rdField mot) op (ofBool c) :=
        updateShifterOperand_register op h p _ _ h4
      rw [if_pos rfl, hregister, shiftByRegister_eq h p (rdField mot) op c hrd]
    | false =>
      have himmediate : updateShifterOperand h p (rdField mot) op (ofBool false) (ofBool c) =
          shiftByImmediate h p op (ofBool c) := updateShifterOperand_immediate op h p _ _ h4
      rw [if_neg Bool.false_ne_true, himmediate]
      by_cases hrrx : shiftField op = .ror ∧ amountField op = 0
      · rw [if_pos hrrx, shiftByImmediate_rrx h p op _ hrrx.1 hrrx.2]
      · rw [if_neg hrrx, shiftByImmediate_eq h p op c fun hror hzero => hrrx ⟨hror, hzero⟩]
        rfl

/-- The low byte of what a comparison computes. -/
def comparedByte (h : Host) (p : ArmCoreData) (mot : Word) (op : Arm.Opcode) : Byte :=
  let c := (armReadCpsr p).getLsbD 29
  u8 (instrValue p (rnField mot) (dataOperand h p mot c) (ofBool c) op)

namespace Eval

section
variable (h : Host) (p : ArmCoreData)

theorem inFile_selectExecuteInstruction (mot : Word) :
    Always Event.InFile (selectExecuteInstruction h p mot (flagOf (armReadCpsr p) bitC)) ↔
      ∀ op, handler mot = .dataProcessing op → op.isComparison = true →
        comparedByte h p mot op < 16 := by
  rw [selectExecuteInstruction, selectInstruction_map (Always Event.InFile), handler,
    selectInstruction_eq, selectInstruction_eq]
  split
  · split
    · exact iff_of_true (inFile_armLoadStoreH h p mot) fun op hop => Handler.noConfusion hop
    · rw [inFile_traitementAR, flagOf_eq, shifterOf_snd]
      constructor
      · intro hcompared op hop hcomparison
        obtain rfl : Arm.opcode mot = op := Handler.dataProcessing.inj hop
        exact hcompared hcomparison
      · exact fun hall => hall _ rfl
  · exact iff_of_true (inFile_armLoadStore h p mot) fun op hop => Handler.noConfusion hop
  · exact iff_of_true (inFile_traitementBR p mot) fun op hop => Handler.noConfusion hop
  · exact iff_of_true (always_pure _ _) fun op hop => Handler.noConfusion hop

theorem inFile_armExecuteInstruction :
    Always Event.InFile (armExecuteInstruction h p) ↔
      (Passed h p → Always Event.InFile (selectExecuteInstruction h (fetchedCore h p)
        (fetchedWord h p) (flagOf (armReadCpsr (fetchedCore h p)) bitC))) := by
  have h15 : (15 : Byte) < 16 := by decide
  have hfetch : Always Event.InFile (armFetch h p (armReadCpsr p)) := by
    simp only [armFetch, always_bind, always_pure, inFile_armReadRegister, inFile_armWriteRegister,
      h15, and_self]
  simp only [armExecuteInstruction, always_bind, always_ite, always_pure, hfetch, true_and,
    value_armFetch]
  change (if condFailed (fetchedCore h p) (fetchedWord h p) then True else _) ↔ _
  by_cases hpass : Passed h p
  · rw [if_neg hpass]
    exact ⟨fun hrun _ => hrun, fun hrun => hrun hpass⟩
  · rw [if_pos (not_not.mp hpass)]
    exact iff_of_true trivial fun habsurd => absurd habsurd hpass

theorem inFile_armStep :
    Always Event.InFile (armStep h p) ↔ Always Event.InFile (armExecuteInstruction h p) := by
  have h15 : (15 : Byte) < 16 := by decide
  simp only [armStep, armException, always_bind, always_ite, always_pure,
    inFile_armWriteUsrRegister, h15, and_self, ite_self, and_true]

end

end Eval

section
variable (h : Host) (p : ArmCoreData)

/-- **Register numbers**: a step passes on only numbers of registers exactly if it is no comparison
whose result has a low byte from 16 on. -/
theorem registerNumbers_iff :
    Always Event.InFile (Eval.armStep h p) ↔
      (Passed h p → ∀ op, handler (fetchedWord h p) = .dataProcessing op → op.isComparison = true →
        comparedByte h (fetchedCore h p) (fetchedWord h p) op < 16) := by
  rw [Eval.inFile_armStep, Eval.inFile_armExecuteInstruction, Eval.inFile_selectExecuteInstruction]

end

/-- `CMP r0, #1` with 0 in `r0` passes 255 on. -/
theorem registerNumbers_iff_cmp :
    Event.register 255 ∈ log (Eval.armStep Host.x86 (coreAt 0xE3500001)) ∧
    ¬ Always Event.InFile (Eval.armStep Host.x86 (coreAt 0xE3500001)) := by
  have hpassed : Event.register 255 ∈ log (Eval.armStep Host.x86 (coreAt 0xE3500001)) := by decide
  exact ⟨hpassed, fun hall => absurd (hall _ hpassed) (by simp)⟩

end Armator
