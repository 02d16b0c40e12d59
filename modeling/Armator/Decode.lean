import Mathlib.Tactic.IntervalCases
import Armator.Instruction
import Armator.Lib.Arm

/-!
# Decoding

`select_execute_instruction` sends a word to one of five handlers, and the data-processing handler
sends it to the function of its opcode. `handler` is the first choice, `instr` the second one;
`selectExecuteInstruction_eq` and `traitementAR_eq` say that the step is made of the two, and
`instr_eq` that an instruction function writes one register or nothing.

The choice among the words with bits 27..26 clear looks at bits 7 and 4 only, so it follows the
encoding exactly for the words of `handler_class_iff`.
-/

namespace Armator

open Arm (Opcode)

/-! ## The data-processing functions -/

section
variable (p : ArmCoreData) (rsource rdest : Byte) (shifterOperand : Half)
  (shifterCarryOut flagC s : Byte)

def instr : Opcode → Int × ArmCoreData
  | .and => andInstr p rsource rdest shifterOperand shifterCarryOut s
  | .eor => xorInstr p rsource rdest shifterOperand shifterCarryOut s
  | .sub => subInstr p rsource rdest shifterOperand s
  | .rsb => rsbInstr p rsource rdest shifterOperand s
  | .add => addInstr p rsource rdest shifterOperand s
  | .adc => adcInstr p rsource rdest shifterOperand flagC s
  | .sbc => sbcInstr p rsource rdest shifterOperand flagC s
  | .rsc => rscInstr p rsource rdest shifterOperand flagC s
  | .tst => tstInstr p rsource shifterOperand shifterCarryOut
  | .teq => teqInstr p rsource shifterOperand shifterCarryOut
  | .cmp => cmpInstr p rsource shifterOperand
  | .cmn => cmnInstr p rsource shifterOperand
  | .orr => orrInstr p rsource rdest shifterOperand shifterCarryOut s
  | .mov => movInstr p rdest shifterOperand shifterCarryOut s
  | .bic => bicInstr p rsource rdest shifterOperand shifterCarryOut s
  | .mvn => mvnInstr p rdest shifterOperand shifterCarryOut s

def instrValue : Opcode → Word
  | .and | .tst => armReadUsrRegister p rsource &&& u32 shifterOperand
  | .eor | .teq => armReadUsrRegister p rsource ^^^ u32 shifterOperand
  | .sub | .cmp => armReadUsrRegister p rsource - u32 shifterOperand
  | .rsb => u32 shifterOperand - armReadUsrRegister p rsource
  | .add | .cmn => armReadUsrRegister p rsource + u32 shifterOperand
  | .adc => armReadUsrRegister p rsource + u32 shifterOperand + u32 flagC
  | .sbc => armReadUsrRegister p rsource - u32 shifterOperand - ~~~(u32 flagC)
  | .rsc => u32 shifterOperand - armReadUsrRegister p rsource - ~~~(u32 flagC)
  | .orr => armReadUsrRegister p rsource ||| u32 shifterOperand
  | .mov => u32 shifterOperand
  | .bic => armReadUsrRegister p rsource &&& ~~~(u32 shifterOperand)
  | .mvn => ~~~(u32 shifterOperand)

theorem instr_eq (op : Opcode) :
    instr p rsource rdest shifterOperand shifterCarryOut flagC s op =
      (0, if op.isComparison then p
        else armWriteUsrRegister p rdest (instrValue p rsource shifterOperand flagC op)) := by
  cases op <;> simp only [instr, andInstr, xorInstr, subInstr, rsbInstr, addInstr, adcInstr,
    sbcInstr, rscInstr, tstInstr, teqInstr, cmpInstr, cmnInstr, orrInstr, movInstr, bicInstr,
    mvnInstr, updateFlags_eq, writeFlags_eq] <;> rfl

end

def shifterOf (h : Host) (p : ArmCoreData) (mot : Word) (flagC : Byte) : Byte × Half :=
  updateShifterOperand h p (u8 ((mot >>> 12) &&& 15)) (u16 (mot &&& 4095)) (u8 ((mot >>> 25) &&& 1))
    flagC

/-- The fields for the two registers of a data-processing instruction, a load or a store. -/
def rnField (mot : Word) : Byte := u8 ((mot >>> 16) &&& 15)
def rdField (mot : Word) : Byte := u8 ((mot >>> 12) &&& 15)

theorem rnField_lt (mot : Word) : (rnField mot).toNat < 16 := by
  rw [rnField, u8_nibble, BitVec.toNat_setWidth_of_le (by decide)]
  exact (mot.extractLsb' 16 4).isLt

theorem traitementAR_eq (h : Host) (p : ArmCoreData) (mot : Word) (flagC : Byte) :
    traitementAR h p mot flagC =
      instr p (rnField mot) (rdField mot) (shifterOf h p mot flagC).2 (shifterOf h p mot flagC).1
        flagC (u8 ((mot >>> 20) &&& 1)) (Arm.opcode mot) := by
  unfold traitementAR Arm.opcode
  simp only [u8_nibble mot 21]
  generalize mot.extractLsb' 21 4 = bits
  obtain ⟨⟨n, hn⟩⟩ := bits
  interval_cases n <;> rfl

/-! ## The handlers -/

inductive Handler where
  | halfword
  | dataProcessing (op : Opcode)
  | loadStore
  | branch
  | special
  | none
  deriving DecidableEq

/-- The choice of `select_execute_instruction`, and the one of `traitement_AR` behind it. -/
def handler (mot : Word) : Handler :=
  selectInstruction mot .halfword (.dataProcessing (Arm.opcode mot)) .loadStore .branch .special
    .none

def Handler.run (h : Host) (p : ArmCoreData) (mot : Word) (flagC : Byte) :
    Handler → Int × ArmCoreData
  | halfword => armLoadStoreH h p mot
  | dataProcessing op =>
    instr p (rnField mot) (rdField mot) (shifterOf h p mot flagC).2 (shifterOf h p mot flagC).1 flagC
      (u8 ((mot >>> 20) &&& 1)) op
  | loadStore => traitementLS h p mot
  | branch => traitementBR p mot
  | special => traitementSPE p
  | none => (1, p)

theorem traitementAR_result (h : Host) (p : ArmCoreData) (mot : Word) (flagC : Byte) :
    (traitementAR h p mot flagC).1 = 0 := by
  rw [traitementAR_eq, instr_eq]

section
variable {α β : Type} {mot : Word}

theorem selectInstruction_map (f : α → β) (a b c d e g : α) :
    f (selectInstruction mot a b c d e g) =
      selectInstruction mot (f a) (f b) (f c) (f d) (f e) (f g) := by
  unfold selectInstruction
  dsimp only
  split
  · exact apply_ite f _ a b
  all_goals rfl

variable (a b c d e g : α)

theorem selectInstruction_eq :
    selectInstruction mot a b c d e g =
      match mot.extractLsb' 26 2 with
      | 0 => if mot.getLsbD 7 = true ∧ mot.getLsbD 4 = true then a else b
      | 1 => c
      | 2 => d
      | _ => e := by
  have htype : u8 ((mot >>> 26) &&& 3) = u8 (mot.extractLsb' 26 2) :=
    u8_field mot 26 rfl
  unfold selectInstruction
  simp only [htype, u8_bit, ofBool_ne_zero]
  generalize mot.extractLsb' 26 2 = bits
  obtain ⟨⟨n, hn⟩⟩ := bits
  interval_cases n <;> rfl

end

theorem selectExecuteInstruction_eq (h : Host) (p : ArmCoreData) (mot : Word) (flagC : Byte) :
    selectExecuteInstruction h p mot flagC = (handler mot).run h p mot flagC := by
  rw [handler, selectInstruction_map (Handler.run h p mot flagC), selectExecuteInstruction,
    traitementAR_eq]
  rfl

theorem selectExecuteInstruction_cases (h : Host) (p : ArmCoreData) (mot : Word) (flagC : Byte)
    {motive : Int × ArmCoreData → Prop}
    (halfword : mot.extractLsb' 26 2 = 0 → mot.getLsbD 7 = true ∧ mot.getLsbD 4 = true →
      motive (armLoadStoreH h p mot))
    (dataProcessing : mot.extractLsb' 26 2 = 0 → ¬ (mot.getLsbD 7 = true ∧ mot.getLsbD 4 = true) →
      motive (traitementAR h p mot flagC))
    (loadStore : mot.extractLsb' 26 2 = 1 → motive (armLoadStore h p mot))
    (branch : mot.extractLsb' 26 2 = 2 → motive (traitementBR p mot))
    (special : mot.extractLsb' 26 2 = 3 → motive (0, p)) :
    motive (selectExecuteInstruction h p mot flagC) := by
  have htypes : ∀ bits : BitVec 2, bits ≠ 0 → bits ≠ 1 → bits ≠ 2 → bits = 3 := by decide
  rw [selectExecuteInstruction, selectInstruction_eq]
  split
  · next htype =>
    split
    · next hbits => exact halfword htype hbits
    · next hbits => exact dataProcessing htype hbits
  · next htype => exact loadStore htype
  · next htype => exact branch htype
  · next h0 h1 h2 => exact special (htypes _ h0 h1 h2)

theorem selectExecuteInstruction_result (h : Host) (p : ArmCoreData) (mot : Word) (flagC : Byte) :
    (selectExecuteInstruction h p mot flagC).1 = 0 := by
  apply selectExecuteInstruction_cases h p mot flagC (motive := fun r => r.1 = 0)
  case dataProcessing => exact fun _ _ => traitementAR_result h p mot flagC
  all_goals intros; rfl

/-- The check of the word fetched lets it execute. -/
def Passed (h : Host) (p : ArmCoreData) : Prop := ¬ condFailed (fetchedCore h p) (fetchedWord h p)

section
variable {h : Host} {p : ArmCoreData}

theorem armStep_of_passed (hpass : Passed h p) :
    armStep h p = selectExecuteInstruction h (fetchedCore h p) (fetchedWord h p)
      (flagOf (armReadCpsr (fetchedCore h p)) bitC) := by
  have hres := selectExecuteInstruction_result h (fetchedCore h p) (fetchedWord h p)
    (flagOf (armReadCpsr (fetchedCore h p)) bitC)
  rw [armStep, armExecuteInstruction_eq, if_neg hpass]
  dsimp only
  rw [if_neg (not_not_intro hres)]

/-- A step whose condition fails is a reset. -/
theorem armStep_of_failed (hfail : ¬ Passed h p) :
    armStep h p = (1, armException (fetchedCore h p) RESET) := by
  rw [armStep, armExecuteInstruction_eq, if_pos (not_not.mp hfail)]
  rfl

end

/-! ## The class of an encoding -/

/-- The handler is the one of the class of the word; the classes without a handler must not reach
the handlers of the other ones. -/
def RunsItsClass (mot : Word) : Prop :=
  match Arm.classOf mot with
  | .halfword => handler mot = .halfword
  | .dataProcessing op => handler mot = .dataProcessing op
  | .other => handler mot ≠ .halfword ∧ ∀ op, handler mot ≠ .dataProcessing op

theorem handler_of_type_zero {mot : Word} (htype : mot.extractLsb' 26 2 = 0) :
    handler mot = if mot.getLsbD 7 = true ∧ mot.getLsbD 4 = true then .halfword
      else .dataProcessing (Arm.opcode mot) := by
  rw [handler, selectInstruction_eq, htype]
  rfl

section
variable {mot : Word} (htype : mot.extractLsb' 26 2 = 0)
include htype

theorem runsItsClass_iff_of_bits (hbits : mot.getLsbD 7 = true ∧ mot.getLsbD 4 = true) :
    RunsItsClass mot ↔ mot.getLsbD 25 = false ∧ mot.extractLsb' 5 2 = 0b01 := by
  rw [RunsItsClass, handler_of_type_zero htype, if_pos hbits, Arm.classOf]
  by_cases hext : Arm.IsExtension mot
  · rw [if_pos hext]
    by_cases hhalf : Arm.IsHalfwordTransfer mot
    · rw [if_pos hhalf]
      exact iff_of_true rfl ⟨hext.2.1, hhalf.2⟩
    · rw [if_neg hhalf]
      exact iff_of_false (fun hrun => hrun.1 rfl) (fun hgood => hhalf ⟨hext, hgood.2⟩)
  · rw [if_neg hext]
    -- an immediate, whose bits 7 and 4 are part of its value
    have himm : ¬ mot.getLsbD 25 = false := fun h25 => hext ⟨htype, h25, hbits⟩
    refine iff_of_false ?_ (fun hgood => himm hgood.1)
    by_cases hmisc : Arm.IsMiscellaneous mot
    · rw [if_pos hmisc]
      exact fun hrun => hrun.1 rfl
    · rw [if_neg hmisc]
      exact fun hrun => Handler.noConfusion hrun

theorem runsItsClass_iff_of_not_bits (hbits : ¬ (mot.getLsbD 7 = true ∧ mot.getLsbD 4 = true)) :
    RunsItsClass mot ↔ ¬ Arm.IsMiscellaneous mot := by
  have hext : ¬ Arm.IsExtension mot := fun hext => hbits hext.2.2
  rw [RunsItsClass, handler_of_type_zero htype, if_neg hbits, Arm.classOf, if_neg hext]
  by_cases hmisc : Arm.IsMiscellaneous mot
  · rw [if_pos hmisc]
    exact iff_of_false (fun hrun => hrun.2 _ rfl) (fun hgood => hgood hmisc)
  · rw [if_neg hmisc]
    exact iff_of_true rfl hmisc

end

/-- `select_execute_instruction` runs a handler, and for a word with bits 27..26 clear it is the one
of its class exactly if the word is no immediate with bits 7 and 4 set, no multiply and no extension
but a halfword transfer, and no miscellaneous instruction. -/
theorem handler_class_iff (h : Host) (p : ArmCoreData) (mot : Word) (flagC : Byte)
    (htype : mot.extractLsb' 26 2 = 0) :
    selectExecuteInstruction h p mot flagC = (handler mot).run h p mot flagC ∧
    (RunsItsClass mot ↔
      if mot.getLsbD 7 = true ∧ mot.getLsbD 4 = true
      then mot.getLsbD 25 = false ∧ mot.extractLsb' 5 2 = 0b01
      else ¬ (mot.extractLsb' 23 2 = 0b10 ∧ mot.getLsbD 20 = false)) := by
  refine ⟨selectExecuteInstruction_eq h p mot flagC, ?_⟩
  split
  · next hbits => exact runsItsClass_iff_of_bits htype hbits
  · next hbits => exact runsItsClass_iff_of_not_bits htype hbits

/-- `MOV r0, #0x42` runs `mov_instr`. -/
theorem handler_class_iff_mov : RunsItsClass 0xE3A00042 :=
  (handler_class_iff Host.x86 (coreAt 0xE3A00042) 0xE3A00042 0 (by decide)).2.mpr (by decide)

/-- `MOV r0, #0x90` runs as a halfword transfer. -/
theorem handler_class_iff_immediate :
    (∀ h p flagC, selectExecuteInstruction h p 0xE3A00090 flagC = armLoadStoreH h p 0xE3A00090) ∧
    ¬ RunsItsClass 0xE3A00090 := by
  have hhalf : handler 0xE3A00090 = .halfword := by decide
  refine ⟨fun h p flagC => ?_, fun hrun => ?_⟩
  · rw [selectExecuteInstruction_eq, hhalf]
    rfl
  · have hmov : handler 0xE3A00090 = .dataProcessing .mov := hrun
    exact absurd hmov (by decide)

end Armator
