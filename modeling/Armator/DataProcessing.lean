import Armator.Core

/-!
# `arm_data_processing.c`

Each instruction function computes a value, writes it to `rdest` and ends in `update_flags`, or, for
the four comparisons, computes a value and ends in `write_flags`. The arguments of these two
helpers are passed as the source passes them: `update_flags` is declared with `rdest` before `s` and
called with `s` before `rdest`, and the comparisons pass their result where `write_flags` expects a
register number. A `uint8_t` under `~` is promoted to `int` first, so that `~flag_C` is the
complement of 32 bits.
-/

namespace Armator

/-! ## The flags -/

def set1Bit (res : Word) (numBit setBit : Byte) : Word :=
  let masque : Word := 1
  let masque := ~~~(masque <<< numBit.toNat)
  let res := res &&& masque
  res ||| (u32 setBit <<< numBit.toNat)

def writeFlags (p : ArmCoreData) (rdest flagC flagV : Byte) : ArmCoreData :=
  let newCpsr := armReadCpsr p
  -- the source calls `set_1_bit` for its effect, but the new word is its result
  let _ := set1Bit newCpsr bitN (u8 ((armReadUsrRegister p rdest >>> 31) &&& 1))
  let _ := set1Bit newCpsr bitZ (ofBool (armReadUsrRegister p rdest == 0))
  let _ := if flagC ≠ 0xFF then set1Bit newCpsr bitC flagC else 0
  let _ := if flagV ≠ 0xFF then set1Bit newCpsr bitV flagV else 0
  armWriteCpsr p newCpsr

def updateFlags (p : ArmCoreData) (rdest s flagC flagV : Byte) : ArmCoreData :=
  if s = 1 ∧ rdest = 15 then
    if armCurrentModeHasSpsr p ≠ 0 then armWriteCpsr p (armReadSpsr p) else p
  else if s = 1 then writeFlags p rdest flagC flagV
  else p

def borrowFrom (operande1 operande2 : Word) : Byte := ofBool (operande1 < operande2)

def carryFrom (operande1 operande2 : Word) : Byte :=
  let max : Word := ~~~0
  -- an `int`, which the comparison converts back to `uint32_t`
  let temp := max - operande1
  ofBool (operande2 > temp)

def overflowFrom (operande1 operande2 result : Word) (operation : Byte) : Byte :=
  if operation = 1 then
    ofBool (operande1 >>> 31 == operande2 >>> 31 && operande1 >>> 31 == result >>> 31)
  else
    ofBool (operande1 >>> 31 != operande2 >>> 31 && operande1 >>> 31 != result >>> 31)

/-! ## The instructions that write a register -/

section
variable (p : ArmCoreData) (rsource rdest : Byte) (shifterOperand : Half)
  (shifterCarryOut flagC s : Byte)

def andInstr : Int × ArmCoreData :=
  let value := armReadUsrRegister p rsource &&& u32 shifterOperand
  let p := armWriteUsrRegister p rdest value
  let p := updateFlags p s rdest shifterCarryOut 0xFF
  (0, p)

def xorInstr : Int × ArmCoreData :=
  let value := armReadUsrRegister p rsource ^^^ u32 shifterOperand
  let p := armWriteUsrRegister p rdest value
  let p := updateFlags p s rdest shifterCarryOut 0xFF
  (0, p)

def subInstr : Int × ArmCoreData :=
  let value := armReadUsrRegister p rsource - u32 shifterOperand
  let p := armWriteUsrRegister p rdest value
  let p := updateFlags p s rdest
    (u8 (~~~(u32 (borrowFrom (armReadUsrRegister p rsource) (u32 shifterOperand)))))
    (overflowFrom (armReadUsrRegister p rsource) (u32 shifterOperand) value 0)
  (0, p)

def rsbInstr : Int × ArmCoreData :=
  let value := u32 shifterOperand - armReadUsrRegister p rsource
  let p := armWriteUsrRegister p rdest value
  let p := updateFlags p s rdest
    (u8 (~~~(u32 (borrowFrom (u32 shifterOperand) (armReadUsrRegister p rsource)))))
    (overflowFrom (u32 shifterOperand) (armReadUsrRegister p rsource) value 0)
  (0, p)

def addInstr : Int × ArmCoreData :=
  let value := armReadUsrRegister p rsource + u32 shifterOperand
  let p := armWriteUsrRegister p rdest value
  let p := updateFlags p s rdest
    (carryFrom (armReadUsrRegister p rsource) (u32 shifterOperand))
    (overflowFrom (u32 shifterOperand) (armReadUsrRegister p rsource) value 1)
  (0, p)

def adcInstr : Int × ArmCoreData :=
  let value := armReadUsrRegister p rsource + u32 shifterOperand + u32 flagC
  let p := armWriteUsrRegister p rdest value
  let p := updateFlags p s rdest
    (carryFrom (armReadUsrRegister p rsource) (u32 shifterOperand + u32 flagC))
    (overflowFrom (u32 shifterOperand + u32 flagC) (armReadUsrRegister p rsource) value 1)
  (0, p)

def sbcInstr : Int × ArmCoreData :=
  let value := armReadUsrRegister p rsource - u32 shifterOperand - ~~~(u32 flagC)
  let p := armWriteUsrRegister p rdest value
  let p := updateFlags p s rdest
    (u8 (~~~(u32 (borrowFrom (armReadUsrRegister p rsource) (u32 shifterOperand - ~~~(u32 flagC))))))
    (overflowFrom (armReadUsrRegister p rsource) (u32 shifterOperand - ~~~(u32 flagC)) value 0)
  (0, p)

def rscInstr : Int × ArmCoreData :=
  let value := u32 shifterOperand - armReadUsrRegister p rsource - ~~~(u32 flagC)
  let p := armWriteUsrRegister p rdest value
  let p := updateFlags p s rdest
    (u8 (~~~(u32 (borrowFrom (u32 shifterOperand - ~~~(u32 flagC)) (armReadUsrRegister p rsource)))))
    (overflowFrom (u32 shifterOperand - ~~~(u32 flagC)) (armReadUsrRegister p rsource) value 0)
  (0, p)

def orrInstr : Int × ArmCoreData :=
  let value := armReadUsrRegister p rsource ||| u32 shifterOperand
  let p := armWriteUsrRegister p rdest value
  let p := updateFlags p s rdest shifterCarryOut 0xFF
  (0, p)

def movInstr : Int × ArmCoreData :=
  let value := u32 shifterOperand
  let p := armWriteUsrRegister p rdest value
  let p := updateFlags p s rdest shifterCarryOut 0xFF
  (0, p)

def bicInstr : Int × ArmCoreData :=
  let value := armReadUsrRegister p rsource &&& ~~~(u32 shifterOperand)
  let p := armWriteUsrRegister p rdest value
  let p := updateFlags p s rdest shifterCarryOut 0xFF
  (0, p)

def mvnInstr : Int × ArmCoreData :=
  let value := ~~~(u32 shifterOperand)
  let p := armWriteUsrRegister p rdest value
  let p := updateFlags p s rdest shifterCarryOut 0xFF
  (0, p)

/-! ## The comparisons -/

def cmnInstr : Int × ArmCoreData :=
  let result := armReadUsrRegister p rsource + u32 shifterOperand
  let p := writeFlags p (u8 result)
    (carryFrom (armReadUsrRegister p rsource) (u32 shifterOperand))
    (overflowFrom (armReadUsrRegister p rsource) (u32 shifterOperand) result 1)
  (0, p)

def cmpInstr : Int × ArmCoreData :=
  let result := armReadUsrRegister p rsource - u32 shifterOperand
  let p := writeFlags p (u8 result)
    (u8 (~~~(u32 (borrowFrom (armReadUsrRegister p rsource) (u32 shifterOperand)))))
    (overflowFrom (armReadUsrRegister p rsource) (u32 shifterOperand) result 0)
  (0, p)

def tstInstr : Int × ArmCoreData :=
  let result := armReadUsrRegister p rsource &&& u32 shifterOperand
  let p := writeFlags p (u8 result) shifterCarryOut 0xFF
  (0, p)

def teqInstr : Int × ArmCoreData :=
  let result := armReadUsrRegister p rsource ^^^ u32 shifterOperand
  let p := writeFlags p (u8 result) shifterCarryOut 0xFF
  (0, p)

end

/-! ## What the flag helpers do -/

/-- The CPSR is written back as it was read. -/
theorem writeFlags_eq (p : ArmCoreData) (rdest flagC flagV : Byte) :
    writeFlags p rdest flagC flagV = p :=
  armWriteUsrRegister_word p 15

theorem updateFlags_eq (p : ArmCoreData) (rdest s flagC flagV : Byte) :
    updateFlags p rdest s flagC flagV = p := by
  unfold updateFlags
  split
  · rw [if_neg]
    exact fun h => h rfl
  · split
    · exact writeFlags_eq p rdest flagC flagV
    · rfl

end Armator
