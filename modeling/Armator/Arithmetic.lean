import Armator.Decode

/-!
# The results of data processing

Each instruction function against the operation of its opcode. The ten opcodes of `aluOpcodes` are
right for every operand (`instr_alu`). `SBC` and `RSC` subtract the complement of the promoted
carry, `-1 - C`, where the architecture subtracts `1 - C`, so their results are always too large by
2 (`subtractWithCarry_never`), and with them every subtraction of two words.
-/

namespace Armator

open Arm (Opcode)

/-! ## The values -/

def aluOpcodes : List Opcode := [.and, .eor, .sub, .rsb, .add, .adc, .orr, .mov, .bic, .mvn]

theorem isComparison_of_mem_aluOpcodes {op : Opcode} (hop : op ∈ aluOpcodes) :
    op.isComparison = false := by
  revert op
  decide

section
variable (p : ArmCoreData) (rsource : Byte) (shifterOperand : Half) (c : Bool)

theorem ofInt_toInt_ofBool : BitVec.ofInt 32 c.toInt = u32 (ofBool c) := by cases c <;> rfl

/-- The complement of the promoted carry is 2 less than the borrow. -/
theorem ofInt_toInt_not : BitVec.ofInt 32 (!c).toInt = ~~~(u32 (ofBool c)) + 2 := by
  cases c <;> rfl

theorem sub_not_carry (x : Word) :
    x - ~~~(u32 (ofBool c)) = x - BitVec.ofInt 32 (!c).toInt + 2 := by
  rw [ofInt_toInt_not]
  generalize ~~~(u32 (ofBool c)) = n
  bv_omega

theorem instrValue_alu {op : Opcode} (hop : op ∈ aluOpcodes) :
    instrValue p rsource shifterOperand (ofBool c) op =
      (op.operation c).result (armReadUsrRegister p rsource) (u32 shifterOperand) := by
  simp only [aluOpcodes, List.mem_cons, List.not_mem_nil, or_false] at hop
  rcases hop with rfl | rfl | rfl | rfl | rfl | rfl | rfl | rfl | rfl | rfl
  all_goals simp only [instrValue, Opcode.operation, Arm.Operation.result, Arm.ofInt_sub,
    BitVec.ofInt_add, Arm.ofInt_toNat, ofInt_toInt_ofBool]

theorem instrValue_sbc :
    instrValue p rsource shifterOperand (ofBool c) .sbc =
      (Opcode.sbc.operation c).result (armReadUsrRegister p rsource) (u32 shifterOperand) + 2 := by
  rw [instrValue, sub_not_carry]
  simp only [Opcode.operation, Arm.Operation.result, Arm.ofInt_sub, Arm.ofInt_toNat]

theorem instrValue_rsc :
    instrValue p rsource shifterOperand (ofBool c) .rsc =
      (Opcode.rsc.operation c).result (armReadUsrRegister p rsource) (u32 shifterOperand) + 2 := by
  rw [instrValue, sub_not_carry]
  simp only [Opcode.operation, Arm.Operation.result, Arm.ofInt_sub, Arm.ofInt_toNat]

end

/-! ## The ten opcodes -/

/-- The instruction returned 0 and wrote `value` to `rdest`, and nothing else has changed. -/
structure AluLaw (p : ArmCoreData) (rdest : Byte) (value : Word) (r : Int × ArmCoreData) : Prop where
  result : r.1 = 0
  dest : r.2.word rdest = value
  others : ∀ reg ≠ rdest, r.2.word reg = p.word reg
  cpsr : armReadCpsr r.2 = armReadCpsr p
  mem : r.2.mem = p.mem

/-- With `S` clear and a destination below 15, an instruction function writes the result of its
operation on the operands before it, and nothing else. -/
theorem instr_alu (p : ArmCoreData) (rsource rdest : Byte) (hrdest : rdest.toNat < 15)
    (shifterOperand : Half) (shifterCarryOut : Byte) (c : Bool) (op : Opcode)
    (hop : op ∈ aluOpcodes) :
    AluLaw p rdest ((op.operation c).result (armReadUsrRegister p rsource) (u32 shifterOperand))
      (instr p rsource rdest shifterOperand shifterCarryOut (ofBool c) 0 op) := by
  have hcpsr : (15 : Byte) ≠ rdest := (ne_15_of_lt hrdest).symm
  rw [instr_eq, isComparison_of_mem_aluOpcodes hop, if_neg Bool.false_ne_true,
    ← instrValue_alu p rsource shifterOperand c hop]
  refine ⟨rfl, ?_, fun reg hreg => ?_, ?_, rfl⟩
  · rw [word_armWriteUsrRegister, if_pos rfl]
  · rw [word_armWriteUsrRegister, if_neg hreg]
  · rw [armReadCpsr_eq, armReadCpsr_eq, word_armWriteUsrRegister, if_neg hcpsr]

/-- `MVN r3, #1` with `r3` as its own first operand. -/
theorem instr_alu_mvn :
    AluLaw (coreAt 0) 3 0xFFFFFFFE (instr (coreAt 0) 3 3 1 0 0 0 .mvn) :=
  instr_alu (coreAt 0) 3 3 (by decide) 1 0 false .mvn (by decide)

/-! ## Subtraction with carry -/

section
variable (p : ArmCoreData) (rsource rdest : Byte) (shifterOperand : Half) (c : Bool) (s : Byte)

def SbcLaw : Prop :=
  (sbcInstr p rsource rdest shifterOperand (ofBool c) s).2.word rdest =
    (Opcode.sbc.operation c).result (armReadUsrRegister p rsource) (u32 shifterOperand)

def RscLaw : Prop :=
  (rscInstr p rsource rdest shifterOperand (ofBool c) s).2.word rdest =
    (Opcode.rsc.operation c).result (armReadUsrRegister p rsource) (u32 shifterOperand)

theorem sbcInstr_eq :
    sbcInstr p rsource rdest shifterOperand (ofBool c) s =
      (0, armWriteUsrRegister p rdest ((Opcode.sbc.operation c).result
        (armReadUsrRegister p rsource) (u32 shifterOperand) + 2)) := by
  rw [← instrValue_sbc]
  exact instr_eq p rsource rdest shifterOperand 0 (ofBool c) s .sbc

theorem rscInstr_eq :
    rscInstr p rsource rdest shifterOperand (ofBool c) s =
      (0, armWriteUsrRegister p rdest ((Opcode.rsc.operation c).result
        (armReadUsrRegister p rsource) (u32 shifterOperand) + 2)) := by
  rw [← instrValue_rsc]
  exact instr_eq p rsource rdest shifterOperand 0 (ofBool c) s .rsc

end

theorem add_two_ne (x : Word) : x + 2 ≠ x := by
  intro heq
  bv_omega

section
variable (p : ArmCoreData) (nHigh nLow dHigh dLow : Byte) (operandHigh operandLow : Half) (s : Byte)

/-- `SUB` of the low words, then `SBC` of the high words with the carry of the low subtraction. -/
def wideSub : ArmCoreData :=
  let carry := (Opcode.sub.operation false).carry (armReadUsrRegister p nLow) (u32 operandLow) false
  let (_, p) := subInstr p nLow dLow operandLow s
  let (_, p) := sbcInstr p nHigh dHigh operandHigh (ofBool carry) s
  p

def WideLaw : Prop :=
  (wideSub p nHigh nLow dHigh dLow operandHigh operandLow s).word dHigh ++
      (wideSub p nHigh nLow dHigh dLow operandHigh operandLow s).word dLow =
    (armReadUsrRegister p nHigh ++ armReadUsrRegister p nLow) - (u32 operandHigh ++ u32 operandLow)

theorem subInstr_eq (rsource rdest : Byte) (shifterOperand : Half) (c : Bool) :
    subInstr p rsource rdest shifterOperand s =
      (0, armWriteUsrRegister p rdest
        ((Opcode.sub.operation c).result (armReadUsrRegister p rsource) (u32 shifterOperand))) := by
  have heq := instr_eq p rsource rdest shifterOperand 0 (ofBool c) s .sub
  rwa [instrValue_alu p rsource shifterOperand c (by decide)] at heq

variable {nHigh dHigh dLow}

theorem word_wideSub (hn : nHigh ≠ dLow) (hd : dLow ≠ dHigh) :
    (wideSub p nHigh nLow dHigh dLow operandHigh operandLow s).word dHigh =
      (Opcode.sbc.operation ((Opcode.sub.operation false).carry (armReadUsrRegister p nLow)
        (u32 operandLow) false)).result (armReadUsrRegister p nHigh) (u32 operandHigh) + 2 ∧
    (wideSub p nHigh nLow dHigh dLow operandHigh operandLow s).word dLow =
      (Opcode.sub.operation false).result (armReadUsrRegister p nLow) (u32 operandLow) := by
  have hkept : ∀ value,
      armReadUsrRegister (armWriteUsrRegister p dLow value) nHigh = armReadUsrRegister p nHigh := by
    intro value
    rw [armReadUsrRegister_armWriteUsrRegister, if_neg hn]
  simp only [wideSub, subInstr_eq p s nLow dLow operandLow false, sbcInstr_eq, hkept,
    word_armWriteUsrRegister, if_pos, if_neg hd, true_and]

theorem wideLaw_never (hn : nHigh ≠ dLow) (hd : dLow ≠ dHigh) :
    ¬ WideLaw p nHigh nLow dHigh dLow operandHigh operandLow s := by
  obtain ⟨hhigh, hlow⟩ := word_wideSub p nLow operandHigh operandLow s hn hd
  intro hlaw
  rw [WideLaw, hhigh, hlow, ← Arm.result_sbc_append_sub false false] at hlaw
  have hwords := congrArg (BitVec.extractLsb' 32 32) hlaw
  rw [BitVec.extractLsb'_append_eq_left, BitVec.extractLsb'_append_eq_left] at hwords
  exact add_two_ne _ hwords

end

/-- `SBC`, `RSC` and the subtraction of two words by `SUB` and `SBC` are wrong for every input. -/
theorem subtractWithCarry_never (p : ArmCoreData) (rsource rdest : Byte) (shifterOperand : Half)
    (c : Bool) (s : Byte) :
    ¬ SbcLaw p rsource rdest shifterOperand c s ∧ ¬ RscLaw p rsource rdest shifterOperand c s ∧
    ∀ nHigh nLow dHigh dLow operandHigh operandLow, nHigh ≠ dLow → dLow ≠ dHigh →
      ¬ WideLaw p nHigh nLow dHigh dLow operandHigh operandLow s := by
  refine ⟨fun hlaw => ?_, fun hlaw => ?_, fun _ _ _ _ _ _ hn hd => wideLaw_never p _ _ _ s hn hd⟩
  · rw [SbcLaw, sbcInstr_eq, word_armWriteUsrRegister, if_pos rfl] at hlaw
    exact add_two_ne _ hlaw
  · rw [RscLaw, rscInstr_eq, word_armWriteUsrRegister, if_pos rfl] at hlaw
    exact add_two_ne _ hlaw

/-- The difference of 1 in `r1:r0` and 0. -/
theorem subtractWithCarry_never_wide :
    ¬ WideLaw (armWriteUsrRegister (coreAt 0) 0 1) 1 0 1 0 0 0 0 :=
  (subtractWithCarry_never (armWriteUsrRegister (coreAt 0) 0 1) 0 0 0 true 0).2.2 1 0 1 0 0 0
    (by decide) (by decide)

/-- `SBC r1, r0, #0` with the carry set gives 2 for `r0 = 0`. -/
theorem subtractWithCarry_never_sbc :
    (sbcInstr (coreAt 0) 0 1 0 (ofBool true) 0).2.word 1 = 2 ∧
    ¬ SbcLaw (coreAt 0) 0 1 0 true 0 := by
  refine ⟨by decide, fun hlaw => ?_⟩
  exact absurd hlaw (by unfold SbcLaw; decide)

end Armator
