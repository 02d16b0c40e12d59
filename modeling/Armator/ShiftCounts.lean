import Armator.Addressing
import Armator.RegisterShift
import Armator.Evaluation

/-!
# Shift counts

Which counts the shifts of an instruction have. Those of a shift by a register or by an immediate are
guarded; a rotation by 0 shifts to the left by 32, which an immediate operand without a rotation and a
register offset with the amount 0 come to (`shiftCounts_iff`).
-/

namespace Armator

open Logged
open Arm (Shift)

/-- A shift of a word has a meaning in C. -/
def Event.Defined : Event → Prop
  | register _ | flags _ _ => True
  | shift count => 0 ≤ count ∧ count < 32

namespace Eval

/-! ## Shifts -/

section
variable (h : Host) (p : ArmCoreData) (reg : Byte) (x : Word)

@[simp] theorem defined_register : Event.Defined (.register reg) := trivial

@[simp] theorem defined_shift (n : Int) : Event.Defined (.shift n) ↔ 0 ≤ n ∧ n < 32 := Iff.rfl

@[simp] theorem defined_flags (c v : Byte) : Event.Defined (.flags c v) := trivial

@[simp] theorem defined_shl (n : Int) : Always Event.Defined (shl h x n) ↔ 0 ≤ n ∧ n < 32 := by
  simp [shl]

@[simp] theorem defined_shr (n : Int) : Always Event.Defined (shr h x n) ↔ 0 ≤ n ∧ n < 32 := by
  simp [shr]

@[simp] theorem defined_left {w : Nat} (x : BitVec w) (n : Int) :
    Always Event.Defined (left x n) ↔ 0 ≤ n ∧ n < 32 := by
  simp [left]

@[simp] theorem defined_right {w : Nat} (x : BitVec w) (n : Int) :
    Always Event.Defined (right x n) ↔ 0 ≤ n ∧ n < 32 := by
  simp [right]

/-- A negative value must not be shifted by 0. -/
theorem defined_asr (n : Byte) :
    Always Event.Defined (asr h x n) ↔ n.toNat < 32 ∧ (x.msb = true → 0 < n.toNat) := by
  simp only [asr, getBit, always_bind, always_ite, always_pure, and_true, defined_shr,
    defined_right, defined_shl, value_bind, value_right, value_pure]
  change _ ∧ _ ∧ (if Armator.getBit x 31 ≠ 0 then _ else _) ↔ _
  simp only [getBit_31]
  cases x.msb with
  | true =>
    simp only [if_true, forall_const]
    omega
  | false =>
    simp only [Bool.false_eq_true, if_false, false_imp_iff, and_true]
    omega

theorem defined_ror (n : Byte) :
    Always Event.Defined (ror h x n) ↔ 0 < n.toNat ∧ n.toNat < 32 := by
  simp only [ror, always_bind, always_pure, and_true, defined_shr, defined_shl]
  omega

@[simp] theorem defined_armReadUsrRegister : Always Event.Defined (armReadUsrRegister p reg) := by
  simp [armReadUsrRegister]

@[simp] theorem defined_armWriteUsrRegister :
    Always Event.Defined (armWriteUsrRegister p reg x) := by
  simp [armWriteUsrRegister]

end

/-! ## The shifter operand -/

section
variable (h : Host) (p : ArmCoreData) (rdest : Byte) (shifterOperand : Half)
  (shifterCarryOut flagC flagV s : Byte)

theorem msb_u32 (b : Byte) : (u32 b).msb = false := by
  rw [BitVec.msb_setWidth'']
  exact BitVec.getLsbD_of_ge b 31 (by decide)

theorem defined_asr_u32 (b n : Byte) :
    Always Event.Defined (asr h (u32 b) n) ↔ n.toNat < 32 := by
  simp [defined_asr, msb_u32]

theorem toNat_rs_lt : (u8 ((shifterOperand >>> 8) &&& 0xF)).toNat < 16 := by
  rw [u8_rs, toNat_u8_rs]
  exact rsField_lt shifterOperand

theorem defined_shiftByRegister :
    Always Event.Defined (shiftByRegister h p rdest shifterOperand flagC) := by
  have hrs := toNat_rs_lt shifterOperand
  simp only [shiftByRegister, always_bind, always_ite, always_pure, defined_right, defined_left,
    defined_asr_u32, defined_armReadUsrRegister, value_right, value_left, Int.reduceToNat,
    and_true, true_and]
  generalize u8 ((shifterOperand >>> 8) &&& 0xF) = rs at hrs ⊢
  generalize u8 ((u32 rdest <<< 4) ||| u32 rs) = rs7
  refine ⟨by decide, by decide, by decide, ?_⟩
  split_ifs <;> first | trivial | bv_omega

theorem defined_shiftByImmediate :
    Always Event.Defined (shiftByImmediate h p shifterOperand flagC) := by
  have himm : (u8 ((shifterOperand >>> 7) &&& 0x1F)).toNat < 32 := by
    rw [u8_amount, toNat_u8_amount]
    exact amountField_lt shifterOperand
  simp only [shiftByImmediate, always_bind, always_ite, always_pure, defined_right, defined_left,
    defined_asr_u32, defined_ror, defined_armReadUsrRegister, value_right, value_left,
    Int.reduceToNat, and_true, true_and]
  generalize u8 ((shifterOperand >>> 7) &&& 0x1F) = shiftImm at himm ⊢
  refine ⟨by decide, by decide, ?_⟩
  split_ifs <;> first | trivial | bv_omega

theorem toNat_u8_double {ri : Byte} (hri : ri.toNat < 16) :
    (u8 (u32 ri * 2)).toNat = 2 * ri.toNat := by
  rw [BitVec.toNat_setWidth, BitVec.toNat_mul, toNat_u32 (by decide)]
  change ri.toNat * 2 % 2 ^ 32 % 2 ^ 8 = 2 * ri.toNat
  omega

/-- An immediate operand with the rotation 0 is shifted to the left by 32. -/
theorem defined_updateShifterOperand (i : Byte) :
    Always Event.Defined (updateShifterOperand h p rdest shifterOperand flagC i) ↔
      (i ≠ 0 → u8 ((shifterOperand >>> 8) &&& 0xF) ≠ 0) := by
  have hri := toNat_rs_lt shifterOperand
  by_cases hi : i = 0
  · simp [updateShifterOperand, hi, defined_shiftByRegister, defined_shiftByImmediate]
  · rw [updateShifterOperand, if_neg hi]
    simp only [always_bind, always_ite, always_pure, defined_right, defined_ror, value_right,
      Int.reduceToNat, toNat_u8_double hri, ne_eq, hi, not_false_eq_true, forall_const]
    generalize u8 ((shifterOperand >>> 8) &&& 0xF) = ri at hri ⊢
    by_cases hzero : ri = 0
    · simp [hzero]
    · have hpos : 0 < 2 * ri.toNat := by bv_omega
      have hlt : 2 * ri.toNat < 32 := by omega
      simpa [hpos, hlt] using hzero

theorem defined_instr (rsource : Byte) (op : Arm.Opcode) :
    Always Event.Defined (instr p rsource rdest shifterOperand shifterCarryOut flagC s op) := by
  cases op <;> simp [instr, andInstr, xorInstr, subInstr, rsbInstr, addInstr, adcInstr,
    sbcInstr, rscInstr, tstInstr, teqInstr, cmpInstr, cmnInstr, orrInstr, movInstr, bicInstr,
    mvnInstr, updateFlags, writeFlags]

end

/-! ## Loads and stores -/

section
variable (h : Host) (p : ArmCoreData) (ins : Word)

theorem defined_armLoadStoreH : Always Event.Defined (armLoadStoreH h p ins) := by
  simp [armLoadStoreH]

theorem defined_ldrLdrb (bBit : Byte) (temp : Word) (rdBit rnBit : Byte) :
    Always Event.Defined (ldrLdrb h p bBit temp rdBit rnBit) := by
  simp [ldrLdrb]

theorem defined_strStrb (bBit : Byte) (temp : Word) (rdBit : Byte) :
    Always Event.Defined (strStrb h p bBit temp rdBit) := by
  simp [strStrb]

theorem defined_traitementBR : Always Event.Defined (traitementBR p ins) := by
  simp [traitementBR, armBranch, bBlInstr]

end

end Eval

/-- The shifts of a register offset that have a meaning in C for the amount 0 and the value `x`. -/
def DefinedAtZero (x : Word) : Shift → Prop
  | .lsl | .lsr => True
  | .asr => x.msb = false
  | .ror => False

/-- When an instruction evaluates only shifts that have a meaning in C. -/
def DefinedCounts (p : ArmCoreData) (mot : Word) : Prop :=
  match handler mot with
  | .dataProcessing _ => mot.getLsbD 25 = true → rotationField mot ≠ 0
  | .loadStore => mot.getLsbD 25 = true → offsetAmount mot = 0 →
      DefinedAtZero (offsetRegister p mot) (offsetShift mot)
  | _ => True

namespace Eval

section
variable (h : Host) (p : ArmCoreData) (mot : Word) (flagC : Byte)

theorem defined_traitementAR :
    Always Event.Defined (traitementAR h p mot flagC) ↔
      (mot.getLsbD 25 = true → rotationField mot ≠ 0) := by
  simp only [traitementAR, always_bind, defined_updateShifterOperand, defined_instr, and_true,
    u8_bit_ne_zero]
  rw [ne_eq, ← BitVec.toNat_inj, toNat_rotation]
  rfl

theorem defined_loadStoreOffsetReg :
    Always Event.Defined (loadStoreOffsetReg h p (u8 ((mot >>> 5) &&& 3)) (u8 ((mot >>> 7) &&& 31))
      (u8 (mot &&& 15))) ↔
      (offsetAmount mot = 0 → DefinedAtZero (offsetRegister p mot) (offsetShift mot)) := by
  have hlt := offsetAmount_lt mot
  have hcount := toNat_u8_offsetAmount mot
  have hrm : u8 (mot &&& 15) = u8 (mot.extractLsb' 0 4) := u8_low_field mot rfl
  have hshift : u8 ((mot >>> 5) &&& 3) = u8 (mot.extractLsb' 5 2) := u8_field mot 5 rfl
  have hamount : u8 ((mot >>> 7) &&& 31) = u8 (mot.extractLsb' 7 5) := u8_field mot 7 rfl
  simp only [loadStoreOffsetReg, hrm, hshift, hamount, always_ite, always_bind, defined_shl,
    defined_shr, defined_asr, defined_ror, defined_armReadUsrRegister, value_armReadUsrRegister,
    true_and, hcount]
  rw [ite_shift, ← offsetRegister, ← offsetShift]
  cases offsetShift mot with
  | lsl => exact iff_of_true ⟨by omega, by omega⟩ fun _ => trivial
  | lsr => exact iff_of_true ⟨by omega, by omega⟩ fun _ => trivial
  | asr =>
    rw [DefinedAtZero, ← Bool.not_eq_true]
    constructor
    · rintro ⟨-, hneg⟩ hzero hmsb
      exact absurd (hneg hmsb) (by omega)
    · intro hpos
      refine ⟨hlt, fun hmsb => Nat.pos_of_ne_zero fun hzero => hpos hzero hmsb⟩
  | ror =>
    rw [DefinedAtZero]
    constructor
    · rintro ⟨hpos, -⟩ hzero
      omega
    · exact fun hpos => ⟨Nat.pos_of_ne_zero hpos, hlt⟩

theorem defined_armLoadStore :
    Always Event.Defined (armLoadStore h p mot) ↔
      (mot.getLsbD 25 = true → offsetAmount mot = 0 →
        DefinedAtZero (offsetRegister p mot) (offsetShift mot)) := by
  simp only [armLoadStore, always_bind, always_ite, always_pure, defined_right, value_right,
    Int.reduceToNat, defined_loadStoreOffsetReg, defined_ldrLdrb, defined_strStrb,
    defined_armReadUsrRegister, defined_armWriteUsrRegister, u8_bit_ne_zero, and_true, true_and,
    ite_self, Int.reduceLE, Int.reduceLT, and_self, if_true_right]

end

end Eval

section
variable (h : Host) (p : ArmCoreData) (mot : Word) (flagC : Byte)

/-- **Shift counts**: an instruction evaluates only shifts that have a meaning in C unless its operand
is an immediate that is not rotated, or its offset a rotated register with the amount 0, or a negative
one shifted right arithmetically. -/
theorem shiftCounts_iff :
    Always Event.Defined (Eval.selectExecuteInstruction h p mot flagC) ↔ DefinedCounts p mot := by
  rw [Eval.selectExecuteInstruction, selectInstruction_map (Always Event.Defined), DefinedCounts,
    handler, selectInstruction_eq, selectInstruction_eq]
  split
  · split
    · simp [Eval.defined_armLoadStoreH]
    · exact Eval.defined_traitementAR h p mot flagC
  · exact Eval.defined_armLoadStore h p mot
  · simp [Eval.defined_traitementBR]
  · simp

end

/-- `MOV r0, #0x42` shifts `0x42` to the left by 32. -/
theorem shiftCounts_iff_mov :
    Event.shift 32 ∈ log (Eval.selectExecuteInstruction Host.x86 (coreAt 0xE3A00042) 0xE3A00042 0) ∧
    ¬ Always Event.Defined
      (Eval.selectExecuteInstruction Host.x86 (coreAt 0xE3A00042) 0xE3A00042 0) := by
  have hshift : Event.shift 32 ∈
      log (Eval.selectExecuteInstruction Host.x86 (coreAt 0xE3A00042) 0xE3A00042 0) := by decide
  exact ⟨hshift, fun hall => absurd (hall _ hshift) (by simp)⟩

end Armator
