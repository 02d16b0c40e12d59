import Armator.Frame

/-!
# The flags of data processing

`requiredFlags` is what the architecture asks of the flags after a data-processing instruction,
computed from the operands the shifter and the register file deliver. The flag helpers drop what
they compute (`writeFlags_eq`, `updateFlags_eq`), so the law holds of an instruction exactly if the
flags were already right.
-/

namespace Armator

open Arm (Flags)

section
variable (h : Host) (p : ArmCoreData) (mot : Word)

def carryIn : Byte := flagOf (armReadCpsr p) bitC

/-- The flags of the operation of the opcode on the operands before the instruction. -/
def requiredFlags : Flags :=
  let shifter := shifterOf h p mot (carryIn p)
  ((Arm.opcode mot).operation (carryIn p != 0)).flags (armReadUsrRegister p (rnField mot))
    (u32 shifter.2) (shifter.1 != 0) (.ofStatus (armReadCpsr p))

/-- The CPSR has the flags of the operation, and its other bits are kept. -/
structure FlagLaw (p' : ArmCoreData) : Prop where
  flags : Flags.ofStatus (armReadCpsr p') = requiredFlags h p mot
  rest : (armReadCpsr p').extractLsb' 0 28 = (armReadCpsr p).extractLsb' 0 28

theorem frame_traitementAR (flagC : Byte) :
    CoreFrame {rdField mot} ∅ p (traitementAR h p mot flagC).2 := by
  rw [traitementAR_eq]
  exact frame_instr p _ _ _ _ _ _ _

theorem armReadCpsr_traitementAR (flagC : Byte) (hrd : rdField mot ≠ 15) :
    armReadCpsr (traitementAR h p mot flagC).2 = armReadCpsr p :=
  (frame_traitementAR h p mot flagC).word 15 hrd.symm

/-- A data-processing instruction with a destination other than 15, whether it is to set the flags
or not, leaves the flags of its operation exactly if they were there before. -/
theorem flagLaw_iff (hrd : rdField mot ≠ 15) :
    FlagLaw h p mot (traitementAR h p mot (carryIn p)).2 ↔
      Flags.ofStatus (armReadCpsr p) = requiredFlags h p mot := by
  have hkept := armReadCpsr_traitementAR h p mot (carryIn p) hrd
  constructor
  · intro hlaw
    rw [← hlaw.flags, hkept]
  · intro hflags
    refine ⟨?_, ?_⟩
    · rw [hkept, hflags]
    · rw [hkept]

end

theorem flagLaw_iff_movs :
    FlagLaw Host.x86 (coreAt 0) 0xE3B00001
      (traitementAR Host.x86 (coreAt 0) 0xE3B00001 (carryIn (coreAt 0))).2 :=
  (flagLaw_iff Host.x86 (coreAt 0) 0xE3B00001 (by decide)).mpr (by decide)

/-- `CMP r0, r0` does not set `Z`. -/
theorem flagLaw_iff_cmp :
    ¬ FlagLaw Host.x86 (coreAt 0) 0xE1500000
      (traitementAR Host.x86 (coreAt 0) 0xE1500000 (carryIn (coreAt 0))).2 := by
  intro hlaw
  exact absurd hlaw.flags (by decide)

end Armator
