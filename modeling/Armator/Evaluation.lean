import Armator.Decode
import Armator.Lib.Logged

/-!
# What a step evaluates

The functions of a step once more, in the namespace `Eval`, with a log of the register numbers they
pass to the accessors of the core, of the flags they hand over, and, where they shift words, of the
counts. Their values are those of the functions without a log (`value_armStep`).
-/

namespace Armator

open Logged

inductive Event where
  /-- The argument `reg` of an accessor. -/
  | register (reg : Byte)
  /-- The count of a shift in `update_shifter_operand`, `arm_load_store`, `asr` or `ror`. -/
  | shift (count : Int)
  /-- The arguments `flag_C` and `flag_V` of `update_flags` or `write_flags`. -/
  | flags (flagC flagV : Byte)
deriving DecidableEq

abbrev Eval (α : Type) := Writer (List Event) α

namespace Eval

/-! ## Shifts -/

def shl (h : Host) (x : Word) (n : Int) : Eval Word := do
  tell [.shift n]
  return h.shl x n

def shr (h : Host) (x : Word) (n : Int) : Eval Word := do
  tell [.shift n]
  return h.shr x n

/-- A shift whose count the code around it bounds. -/
def left {w : Nat} (x : BitVec w) (n : Int) : Eval (BitVec w) := do
  tell [.shift n]
  return x <<< n.toNat

def right {w : Nat} (x : BitVec w) (n : Int) : Eval (BitVec w) := do
  tell [.shift n]
  return x >>> n.toNat

def getBit (x : Word) (i : Nat) : Eval Word := do
  return (← right x i) &&& 1

def asr (h : Host) (value : Word) (shift : Byte) : Eval Word := do
  let low ← shr h value shift.toNat
  let bit ← getBit value 31
  let high ← if bit ≠ 0 then shl h (~~~0) (32 - (shift.toNat : Int)) else pure 0
  return low ||| high

def ror (h : Host) (value : Word) (rotation : Byte) : Eval Word := do
  return (← shr h value rotation.toNat) ||| (← shl h value (32 - (rotation.toNat : Int)))

/-! ## The accessors -/

section
variable (p : ArmCoreData) (reg : Byte) (value : Word)

def armReadRegister : Eval Word := do
  tell [.register reg]
  return Armator.armReadRegister p reg

def armReadUsrRegister : Eval Word := do
  tell [.register reg]
  return Armator.armReadUsrRegister p reg

def armWriteRegister : Eval ArmCoreData := do
  tell [.register reg]
  return Armator.armWriteRegister p reg value

def armWriteUsrRegister : Eval ArmCoreData := do
  tell [.register reg]
  return Armator.armWriteUsrRegister p reg value

end

def armFetch (h : Host) (p : ArmCoreData) (value : Word) : Eval (Int × Word × ArmCoreData) := do
  let p := { p with cycleCount := p.cycleCount + 1 }
  let address := (← armReadRegister p 15) - 4
  let (result, value) := memoryReadWord h p.mem address value
  let p ← armWriteRegister p 15 (address + 4)
  return (result, value, p)

def armException (p : ArmCoreData) (exception : Byte) : Eval ArmCoreData := do
  if exception = RESET then
    let p := armWriteCpsr p (0x1d3 ||| (0 <<< 9))
    armWriteUsrRegister p 15 0
  else return p

/-! ## Data processing -/

def writeFlags (p : ArmCoreData) (rdest flagC flagV : Byte) : Eval ArmCoreData := do
  tell [.flags flagC flagV]
  let newCpsr := armReadCpsr p
  let _ := set1Bit newCpsr bitN (u8 (((← armReadUsrRegister p rdest) >>> 31) &&& 1))
  let _ := set1Bit newCpsr bitZ (ofBool ((← armReadUsrRegister p rdest) == 0))
  let _ := if flagC ≠ 0xFF then set1Bit newCpsr bitC flagC else 0
  let _ := if flagV ≠ 0xFF then set1Bit newCpsr bitV flagV else 0
  return armWriteCpsr p newCpsr

def updateFlags (p : ArmCoreData) (rdest s flagC flagV : Byte) : Eval ArmCoreData := do
  tell [.flags flagC flagV]
  if s = 1 ∧ rdest = 15 then
    if armCurrentModeHasSpsr p ≠ 0 then return armWriteCpsr p (armReadSpsr p) else return p
  else if s = 1 then writeFlags p rdest flagC flagV
  else return p

section
variable (p : ArmCoreData) (rsource rdest : Byte) (shifterOperand : Half)
  (shifterCarryOut flagC s : Byte)

def andInstr : Eval (Int × ArmCoreData) := do
  let value := (← armReadUsrRegister p rsource) &&& u32 shifterOperand
  let p ← armWriteUsrRegister p rdest value
  let p ← updateFlags p s rdest shifterCarryOut 0xFF
  return (0, p)

def xorInstr : Eval (Int × ArmCoreData) := do
  let value := (← armReadUsrRegister p rsource) ^^^ u32 shifterOperand
  let p ← armWriteUsrRegister p rdest value
  let p ← updateFlags p s rdest shifterCarryOut 0xFF
  return (0, p)

def subInstr : Eval (Int × ArmCoreData) := do
  let value := (← armReadUsrRegister p rsource) - u32 shifterOperand
  let p ← armWriteUsrRegister p rdest value
  let p ← updateFlags p s rdest
    (u8 (~~~(u32 (borrowFrom (← armReadUsrRegister p rsource) (u32 shifterOperand)))))
    (overflowFrom (← armReadUsrRegister p rsource) (u32 shifterOperand) value 0)
  return (0, p)

def rsbInstr : Eval (Int × ArmCoreData) := do
  let value := u32 shifterOperand - (← armReadUsrRegister p rsource)
  let p ← armWriteUsrRegister p rdest value
  let p ← updateFlags p s rdest
    (u8 (~~~(u32 (borrowFrom (u32 shifterOperand) (← armReadUsrRegister p rsource)))))
    (overflowFrom (u32 shifterOperand) (← armReadUsrRegister p rsource) value 0)
  return (0, p)

def addInstr : Eval (Int × ArmCoreData) := do
  let value := (← armReadUsrRegister p rsource) + u32 shifterOperand
  let p ← armWriteUsrRegister p rdest value
  let p ← updateFlags p s rdest
    (carryFrom (← armReadUsrRegister p rsource) (u32 shifterOperand))
    (overflowFrom (u32 shifterOperand) (← armReadUsrRegister p rsource) value 1)
  return (0, p)

def adcInstr : Eval (Int × ArmCoreData) := do
  let value := (← armReadUsrRegister p rsource) + u32 shifterOperand + u32 flagC
  let p ← armWriteUsrRegister p rdest value
  let p ← updateFlags p s rdest
    (carryFrom (← armReadUsrRegister p rsource) (u32 shifterOperand + u32 flagC))
    (overflowFrom (u32 shifterOperand + u32 flagC) (← armReadUsrRegister p rsource) value 1)
  return (0, p)

def sbcInstr : Eval (Int × ArmCoreData) := do
  let value := (← armReadUsrRegister p rsource) - u32 shifterOperand - ~~~(u32 flagC)
  let p ← armWriteUsrRegister p rdest value
  let p ← updateFlags p s rdest
    (u8 (~~~(u32 (borrowFrom (← armReadUsrRegister p rsource)
      (u32 shifterOperand - ~~~(u32 flagC))))))
    (overflowFrom (← armReadUsrRegister p rsource) (u32 shifterOperand - ~~~(u32 flagC)) value 0)
  return (0, p)

def rscInstr : Eval (Int × ArmCoreData) := do
  let value := u32 shifterOperand - (← armReadUsrRegister p rsource) - ~~~(u32 flagC)
  let p ← armWriteUsrRegister p rdest value
  let p ← updateFlags p s rdest
    (u8 (~~~(u32 (borrowFrom (u32 shifterOperand - ~~~(u32 flagC))
      (← armReadUsrRegister p rsource)))))
    (overflowFrom (u32 shifterOperand - ~~~(u32 flagC)) (← armReadUsrRegister p rsource) value 0)
  return (0, p)

def orrInstr : Eval (Int × ArmCoreData) := do
  let value := (← armReadUsrRegister p rsource) ||| u32 shifterOperand
  let p ← armWriteUsrRegister p rdest value
  let p ← updateFlags p s rdest shifterCarryOut 0xFF
  return (0, p)

def movInstr : Eval (Int × ArmCoreData) := do
  let value := u32 shifterOperand
  let p ← armWriteUsrRegister p rdest value
  let p ← updateFlags p s rdest shifterCarryOut 0xFF
  return (0, p)

def bicInstr : Eval (Int × ArmCoreData) := do
  let value := (← armReadUsrRegister p rsource) &&& ~~~(u32 shifterOperand)
  let p ← armWriteUsrRegister p rdest value
  let p ← updateFlags p s rdest shifterCarryOut 0xFF
  return (0, p)

def mvnInstr : Eval (Int × ArmCoreData) := do
  let value := ~~~(u32 shifterOperand)
  let p ← armWriteUsrRegister p rdest value
  let p ← updateFlags p s rdest shifterCarryOut 0xFF
  return (0, p)

def cmnInstr : Eval (Int × ArmCoreData) := do
  let result := (← armReadUsrRegister p rsource) + u32 shifterOperand
  let p ← writeFlags p (u8 result)
    (carryFrom (← armReadUsrRegister p rsource) (u32 shifterOperand))
    (overflowFrom (← armReadUsrRegister p rsource) (u32 shifterOperand) result 1)
  return (0, p)

def cmpInstr : Eval (Int × ArmCoreData) := do
  let result := (← armReadUsrRegister p rsource) - u32 shifterOperand
  let p ← writeFlags p (u8 result)
    (u8 (~~~(u32 (borrowFrom (← armReadUsrRegister p rsource) (u32 shifterOperand)))))
    (overflowFrom (← armReadUsrRegister p rsource) (u32 shifterOperand) result 0)
  return (0, p)

def tstInstr : Eval (Int × ArmCoreData) := do
  let result := (← armReadUsrRegister p rsource) &&& u32 shifterOperand
  let p ← writeFlags p (u8 result) shifterCarryOut 0xFF
  return (0, p)

def teqInstr : Eval (Int × ArmCoreData) := do
  let result := (← armReadUsrRegister p rsource) ^^^ u32 shifterOperand
  let p ← writeFlags p (u8 result) shifterCarryOut 0xFF
  return (0, p)

def instr : Arm.Opcode → Eval (Int × ArmCoreData)
  | .and => andInstr p rsource rdest shifterOperand shifterCarryOut s
  | .eor => xorInstr p rsource rdest shifterOperand shifterCarryOut s
  | .sub => subInstr p rsource rdest shifterOperand s
  | .rsb => rsbInstr p rsource rdest shifterOperand s
  | .add => addInstr p rsource rdest shifterOperand s
  | .adc => adcInstr p rsource rdest shifterOperand flagC s
  | .sbc => sbcInstr p rsource rdest shifterOperand flagC s
  | .rsc => rscInstr p rsource rdest shifterOperand flagC s
  | .tst => tstInstr p rsource shifterOperand shifterCarryOut
  | .teq => teqInstr p rsource shifterOperand shifterCarryOut
  | .cmp => cmpInstr p rsource shifterOperand
  | .cmn => cmnInstr p rsource shifterOperand
  | .orr => orrInstr p rsource rdest shifterOperand shifterCarryOut s
  | .mov => movInstr p rdest shifterOperand shifterCarryOut s
  | .bic => bicInstr p rsource rdest shifterOperand shifterCarryOut s
  | .mvn => mvnInstr p rdest shifterOperand shifterCarryOut s

end

/-! ## The shifter operand -/

section
variable (h : Host) (p : ArmCoreData) (rdest : Byte) (shifterOperand : Half) (flagC : Byte)

def shiftByRegister : Eval (Byte × Half) := do
  let rs := u8 ((← right shifterOperand 8) &&& 0xF)
  let shift := u8 ((← right shifterOperand 5) &&& 3)
  let rm := u8 (← armReadUsrRegister p (u8 (shifterOperand &&& 0xF)))
  let rs4 := rs
  let rs7 := u8 ((← left (u32 rdest) 4) ||| u32 rs)
  if shift = 0 then
    if rs7 = 0 then return (flagC, u16 rm)
    else if rs7 < 32 then
      let operand := u16 (← left (u32 rm) rs7.toNat)
      return (u8 ((← right (u32 rm) (32 - (rs7.toNat : Int))) &&& 1), operand)
    else if rs7 = 32 then return (u8 (u32 rm &&& 1), 0)
    else return (0, 0)
  else if shift = 1 then
    if rs7 = 0 then return (flagC, u16 rm)
    else if rs7 < 32 then
      let operand := u16 (← right (u32 rm) rs7.toNat)
      return (u8 ((← right (u32 rm) ((rs7.toNat : Int) - 1)) &&& 1), operand)
    else if rs7 = 32 then return (u8 ((← right (u32 rm) 31) &&& 1), 0)
    else return (0, 0)
  else if shift = 2 then
    if rs7 = 0 then return (flagC, u16 rm)
    else if rs7 < 32 then
      let operand := u16 (← asr h (u32 rm) rs7)
      return (u8 ((← right (u32 rm) ((rs7.toNat : Int) - 1)) &&& 1), operand)
    else if (← right (u32 rm) 31) &&& 1 ≠ 0 then return (u8 ((← right (u32 rm) 31) &&& 1), 0)
    else return (u8 ((← right (u32 rm) 31) &&& 1), 0xFFFF)
  else
    if rs7 = 0 then return (flagC, u16 rm)
    else if rs4 = 0 then return (u8 ((← right (u32 rm) 31) &&& 1), u16 rm)
    else
      let operand := u16 (← asr h (u32 rm) rs4)
      return (u8 ((← right (u32 rm) ((rs4.toNat : Int) - 1)) &&& 1), operand)

def shiftByImmediate : Eval (Byte × Half) := do
  let shiftImm := u8 ((← right shifterOperand 7) &&& 0x1F)
  let shift := u8 ((← right shifterOperand 5) &&& 3)
  let rm := u8 (← armReadUsrRegister p (u8 (shifterOperand &&& 0xF)))
  if shift = 0 then
    if shiftImm = 0 then return (flagC, u16 rm)
    else
      let operand := u16 (← left (u32 rm) shiftImm.toNat)
      return (u8 ((← right (u32 rm) (32 - (shiftImm.toNat : Int))) &&& 1), operand)
  else if shift = 1 then
    if shiftImm = 0 then return (u8 ((← right (u32 rm) 31) &&& 1), 0)
    else
      let operand := u16 (← right (u32 rm) shiftImm.toNat)
      return (u8 ((← right (u32 rm) ((shiftImm.toNat : Int) - 1)) &&& 1), operand)
  else if shift = 2 then
    if shiftImm = 0 then
      if (← left (u32 rm) 31) &&& 1 = 0 then return (u8 ((← right (u32 rm) 31) &&& 1), 0)
      else return (u8 ((← right (u32 rm) 31) &&& 1), 0xFFFF)
    else
      let operand := u16 (← asr h (u32 rm) shiftImm)
      return (u8 ((← right (u32 rm) ((shiftImm.toNat : Int) - 1)) &&& 1), operand)
  else
    if shiftImm = 0 then return (h.garbage 8, shifterOperand)
    else
      let operand := u16 (← ror h (u32 rm) shiftImm)
      return (u8 ((← right (u32 rm) ((shiftImm.toNat : Int) - 1)) &&& 1), operand)

def updateShifterOperand (i : Byte) : Eval (Byte × Half) := do
  if i = 0 then
    let r := u8 ((← right shifterOperand 4) &&& 1)
    if r ≠ 0 then shiftByRegister h p rdest shifterOperand flagC
    else shiftByImmediate h p shifterOperand flagC
  else
    let ri := u8 ((← right shifterOperand 8) &&& 0xF)
    let shifterOperand := u16 (← ror h (u32 (shifterOperand &&& 0xFF)) (u8 (u32 ri * 2)))
    if ri = 0 then return (flagC, shifterOperand)
    else return (u8 ((← right (u32 shifterOperand) 31) &&& 1), shifterOperand)

end

def traitementAR (h : Host) (p : ArmCoreData) (mot : Word) (flagC : Byte) :
    Eval (Int × ArmCoreData) := do
  let i := u8 ((mot >>> 25) &&& 1)
  let s := u8 ((mot >>> 20) &&& 1)
  let rsource := u8 ((mot >>> 16) &&& 15)
  let rdest := u8 ((mot >>> 12) &&& 15)
  let (shifterCarryOut, shifterOperand) ←
    updateShifterOperand h p rdest (u16 (mot &&& 4095)) flagC i
  instr p rsource rdest shifterOperand shifterCarryOut flagC s (Arm.opcode mot)

/-! ## Loads and stores -/

section
variable (h : Host) (p : ArmCoreData) (ins : Word)

def armLoadStoreH : Eval (Int × ArmCoreData) := do
  let pBit := u8 ((ins >>> 24) &&& 1)
  let uBit := u8 ((ins >>> 23) &&& 1)
  let wBit := u8 ((ins >>> 21) &&& 1)
  let iBit := u8 ((ins >>> 22) &&& 1)
  let lBit := u8 ((ins >>> 20) &&& 1)
  let rnBit := u8 ((ins >>> 16) &&& 15)
  let rdBit := u8 ((ins >>> 12) &&& 15)
  let immedL := u8 (ins &&& 15)
  let immedH := u8 ((ins >>> 8) &&& 15)
  let rnAdr ← armReadUsrRegister p rnBit
  let offset ←
    if iBit ≠ 0 then pure ((u32 immedH <<< 4) ||| u32 immedL) else armReadUsrRegister p immedL
  let address := if uBit ≠ 0 then rnAdr + offset else rnAdr - offset
  let p ←
    if lBit ≠ 0 then do
      let (_, motaecrire) := armReadHalf h p address (h.garbage 16)
      armWriteUsrRegister p rdBit (u32 motaecrire)
    else do
      let motaecrire := u16 ((← armReadUsrRegister p rdBit) &&& 0xFFFF)
      pure (armWriteHalf h p address motaecrire).2
  let p ←
    if pBit = 0 ∨ (pBit ≠ 0 ∧ wBit ≠ 0) then armWriteUsrRegister p rnBit address else pure p
  return (0, p)

variable (bBit : Byte) (temp : Word) (rdBit rnBit : Byte)

def ldrLdrb : Eval ArmCoreData := do
  let p ←
    if bBit ≠ 0 then
      armWriteUsrRegister p rdBit (u32 (armReadByte h p temp (h.garbage 8)).2)
    else do
      let (_, motaecrire) := armReadWord h p temp (h.garbage 32)
      if rdBit = 15 then armWriteUsrRegister p 15 (motaecrire &&& 0xFFFFFFFE)
      else armWriteUsrRegister p rdBit motaecrire
  armWriteUsrRegister p rnBit temp

def strStrb : Eval ArmCoreData := do
  if bBit ≠ 0 then
    let motaecrire := u8 ((← armReadUsrRegister p rdBit) &&& 0xFF)
    return (armWriteByte h p temp motaecrire).2
  else
    let motaecrire ← armReadUsrRegister p rdBit
    return (armWriteWord h p temp motaecrire).2

/-- The switch over `shift_T`. -/
def loadStoreOffsetReg (shiftT shiftIm rmBit : Byte) : Eval Word := do
  if shiftT = 0 then shl h (← armReadUsrRegister p rmBit) shiftIm.toNat
  else if shiftT = 1 then shr h (← armReadUsrRegister p rmBit) shiftIm.toNat
  else if shiftT = 2 then asr h (← armReadUsrRegister p rmBit) shiftIm
  else ror h (← armReadUsrRegister p rmBit) shiftIm

def armLoadStore : Eval (Int × ArmCoreData) := do
  let pBit := u8 ((← right ins 24) &&& 1)
  let uBit := u8 ((← right ins 23) &&& 1)
  let wBit := u8 ((← right ins 21) &&& 1)
  let iBit := u8 ((← right ins 25) &&& 1)
  let lBit := u8 ((← right ins 20) &&& 1)
  let bBit := u8 ((← right ins 22) &&& 1)
  let rnBit := u8 ((← right ins 16) &&& 15)
  let rdBit := u8 ((← right ins 12) &&& 15)
  let offset := u16 (ins &&& 4095)
  let shiftT := u8 ((← right ins 5) &&& 3)
  let shiftIm := u8 ((← right ins 7) &&& 31)
  let rmBit := u8 (ins &&& 15)
  let rnAdr ← armReadUsrRegister p rnBit
  if iBit ≠ 0 then
    let offsetReg ← loadStoreOffsetReg h p shiftT shiftIm rmBit
    let temp := if uBit ≠ 0 then rnAdr + offsetReg else rnAdr - offsetReg
    let p ← if lBit ≠ 0 then ldrLdrb h p bBit temp rdBit rnBit else strStrb h p bBit temp rdBit
    return (0, p)
  else
    let temp := if uBit ≠ 0 then rnAdr + u32 offset else rnAdr - u32 offset
    let p ←
      if lBit ≠ 0 then do
        let p ← ldrLdrb h p bBit temp rdBit rnBit
        if pBit ≠ 0 ∧ wBit ≠ 0 then armWriteUsrRegister p rnBit temp else pure p
      else do
        let p ← strStrb h p bBit temp rdBit
        if pBit = 0 ∨ (pBit ≠ 0 ∧ wBit ≠ 0) then armWriteUsrRegister p rnBit temp else pure p
    return (0, p)

end

/-! ## The step -/

def bBlInstr (p : ArmCoreData) (ins : Word) : Eval (Int × ArmCoreData) := do
  let l := u8 ((ins >>> 24) &&& 1)
  let si := ins &&& 0xFFFFFF
  let pc ← armReadUsrRegister p 15
  let p ← if l ≠ 0 then armWriteUsrRegister p 14 pc else pure p
  let b24 := u8 ((si >>> 23) &&& 1)
  let se := if b24 ≠ 0 then (si ||| 0x3F000000) <<< 2 else si <<< 2
  let pc := pc + se
  let p ← armWriteUsrRegister p 15 pc
  return (0, p)

def armBranch (p : ArmCoreData) (ins : Word) : Eval (Int × ArmCoreData) := do
  if Armator.getBit ins 25 ≠ 0 then bBlInstr p ins else return (UNDEFINED_INSTRUCTION, p)

def traitementBR (p : ArmCoreData) (mot : Word) : Eval (Int × ArmCoreData) := do
  let (_, p) ← armBranch p mot
  return (0, p)

def selectExecuteInstruction (h : Host) (p : ArmCoreData) (mot : Word) (flagC : Byte) :
    Eval (Int × ArmCoreData) :=
  selectInstruction mot (armLoadStoreH h p mot) (traitementAR h p mot flagC) (armLoadStore h p mot)
    (traitementBR p mot) (pure (traitementSPE p)) (pure (1, p))

def armExecuteInstruction (h : Host) (p : ArmCoreData) : Eval (Int × ArmCoreData) := do
  let mot := armReadCpsr p
  let (_, mot, p) ← armFetch h p mot
  if condFailed p mot then return (1, p)
  else selectExecuteInstruction h p mot (flagOf (armReadCpsr p) bitC)

def armStep (h : Host) (p : ArmCoreData) : Eval (Int × ArmCoreData) := do
  let (result, p) ← armExecuteInstruction h p
  if result ≠ 0 then
    let p ← armException p (BitVec.ofInt 8 result)
    return (result, p)
  else return (result, p)

/-! ## Values -/

section
variable (h : Host) (p : ArmCoreData)

@[simp] theorem value_shl (x : Word) (n : Int) : value (shl h x n) = h.shl x n := (rfl)

@[simp] theorem value_shr (x : Word) (n : Int) : value (shr h x n) = h.shr x n := (rfl)

@[simp] theorem value_left {w : Nat} (x : BitVec w) (n : Int) : value (left x n) = x <<< n.toNat :=
  (rfl)

@[simp] theorem value_right {w : Nat} (x : BitVec w) (n : Int) :
    value (right x n) = x >>> n.toNat := (rfl)

@[simp] theorem value_getBit (x : Word) (i : Nat) : value (getBit x i) = Armator.getBit x i := (rfl)

@[simp] theorem value_asr (x : Word) (shift : Byte) :
    value (asr h x shift) = Armator.asr h x shift := by
  simp only [asr, Armator.asr, value_bind, value_ite, value_getBit]
  split <;> rfl

@[simp] theorem value_ror (x : Word) (rotation : Byte) :
    value (ror h x rotation) = Armator.ror h x rotation := (rfl)

@[simp] theorem value_armReadRegister (reg : Byte) :
    value (armReadRegister p reg) = Armator.armReadRegister p reg := (rfl)

@[simp] theorem value_armReadUsrRegister (reg : Byte) :
    value (armReadUsrRegister p reg) = Armator.armReadUsrRegister p reg := (rfl)

@[simp] theorem value_armWriteUsrRegister (reg : Byte) (x : Word) :
    value (armWriteUsrRegister p reg x) = Armator.armWriteUsrRegister p reg x := (rfl)

@[simp] theorem value_armFetch (x : Word) : value (armFetch h p x) = Armator.armFetch h p x := (rfl)

theorem value_armException (exception : Byte) :
    value (armException p exception) = Armator.armException p exception := by
  simp only [armException, value_ite]
  rfl

@[simp] theorem value_writeFlags (rdest flagC flagV : Byte) :
    value (writeFlags p rdest flagC flagV) = Armator.writeFlags p rdest flagC flagV := (rfl)

@[simp] theorem value_updateFlags (rdest s flagC flagV : Byte) :
    value (updateFlags p rdest s flagC flagV) = Armator.updateFlags p rdest s flagC flagV := by
  simp only [updateFlags, value_bind, value_ite]
  rfl

theorem value_instr (rsource rdest : Byte) (shifterOperand : Half) (shifterCarryOut flagC s : Byte)
    (op : Arm.Opcode) :
    value (instr p rsource rdest shifterOperand shifterCarryOut flagC s op) =
      Armator.instr p rsource rdest shifterOperand shifterCarryOut flagC s op := by
  cases op <;> simp only [instr, andInstr, xorInstr, subInstr, rsbInstr, addInstr, adcInstr,
    sbcInstr, rscInstr, tstInstr, teqInstr, cmpInstr, cmnInstr, orrInstr, movInstr, bicInstr,
    mvnInstr, value_bind, value_updateFlags, value_writeFlags] <;> rfl

theorem toNat_sub_one (n : Nat) : ((n : Int) - 1).toNat = n - 1 := by omega

theorem toNat_32_sub (n : Nat) : (32 - (n : Int)).toNat = 32 - n := by omega

theorem value_shiftByRegister (rdest : Byte) (shifterOperand : Half) (flagC : Byte) :
    value (shiftByRegister h p rdest shifterOperand flagC) =
      Armator.shiftByRegister h p rdest shifterOperand flagC := by
  simp only [shiftByRegister, Armator.shiftByRegister, value_bind, value_ite, value_pure,
    value_right, value_left, value_asr, value_armReadUsrRegister, toNat_sub_one, toNat_32_sub,
    Int.toNat_natCast, Int.reduceToNat]

theorem value_shiftByImmediate (shifterOperand : Half) (flagC : Byte) :
    value (shiftByImmediate h p shifterOperand flagC) =
      Armator.shiftByImmediate h p shifterOperand flagC := by
  simp only [shiftByImmediate, Armator.shiftByImmediate, value_bind, value_ite, value_pure,
    value_right, value_left, value_asr, value_ror, value_armReadUsrRegister, toNat_sub_one,
    toNat_32_sub, Int.toNat_natCast, Int.reduceToNat]

theorem value_updateShifterOperand (rdest : Byte) (shifterOperand : Half) (flagC i : Byte) :
    value (updateShifterOperand h p rdest shifterOperand flagC i) =
      Armator.updateShifterOperand h p rdest shifterOperand i flagC := by
  simp only [updateShifterOperand, Armator.updateShifterOperand, value_bind, value_ite, value_pure,
    value_right, value_ror, value_shiftByRegister, value_shiftByImmediate, Int.reduceToNat]

theorem value_traitementAR (mot : Word) (flagC : Byte) :
    value (traitementAR h p mot flagC) = Armator.traitementAR h p mot flagC := by
  rw [traitementAR_eq]
  simp only [traitementAR, value_bind, value_updateShifterOperand, value_instr]
  rfl

variable (ins : Word)

theorem value_armLoadStoreH : value (armLoadStoreH h p ins) = Armator.armLoadStoreH h p ins := by
  simp only [armLoadStoreH, Armator.armLoadStoreH, loadStoreHAddress, value_bind, value_ite,
    value_pure]
  split <;> split <;> split <;> rfl

theorem value_ldrLdrb (bBit : Byte) (temp : Word) (rdBit rnBit : Byte) :
    value (ldrLdrb h p bBit temp rdBit rnBit) = Armator.ldrLdrb h p bBit temp rdBit rnBit := by
  simp only [ldrLdrb, Armator.ldrLdrb, value_bind, value_ite]
  split
  · rfl
  · split <;> rfl

theorem value_strStrb (bBit : Byte) (temp : Word) (rdBit : Byte) :
    value (strStrb h p bBit temp rdBit) = Armator.strStrb h p bBit temp rdBit := by
  simp only [strStrb, Armator.strStrb, value_bind, value_ite, value_pure]
  rfl

theorem value_loadStoreOffsetReg :
    value (loadStoreOffsetReg h p (u8 ((ins >>> 5) &&& 3)) (u8 ((ins >>> 7) &&& 31))
      (u8 (ins &&& 15))) = Armator.loadStoreOffsetReg h p ins := by
  simp only [loadStoreOffsetReg, Armator.loadStoreOffsetReg, value_bind, value_ite, value_shl,
    value_shr, value_asr, value_ror, value_armReadUsrRegister]

theorem value_armLoadStore : value (armLoadStore h p ins) = Armator.armLoadStore h p ins := by
  simp only [armLoadStore, Armator.armLoadStore, loadStoreAddress, value_bind, value_ite,
    value_pure, value_right, value_loadStoreOffsetReg, value_ldrLdrb, value_strStrb,
    value_armReadUsrRegister, value_armWriteUsrRegister, Int.reduceToNat]
  split <;> split <;> split <;> rfl

theorem value_bBlInstr : value (bBlInstr p ins) = Armator.bBlInstr p ins := by
  simp only [bBlInstr, Armator.bBlInstr, value_bind, value_ite, value_pure]
  split <;> rfl

theorem value_traitementBR : value (traitementBR p ins) = Armator.traitementBR p ins := by
  simp only [traitementBR, Armator.traitementBR, armBranch, Armator.armBranch, value_bind, value_ite,
    value_pure, value_bBlInstr]

theorem value_selectExecuteInstruction (mot : Word) (flagC : Byte) :
    value (selectExecuteInstruction h p mot flagC) =
      Armator.selectExecuteInstruction h p mot flagC := by
  rw [selectExecuteInstruction, selectInstruction_map value, value_armLoadStoreH,
    value_traitementAR, value_armLoadStore, value_traitementBR, value_pure, value_pure]
  rfl

theorem value_armExecuteInstruction :
    value (armExecuteInstruction h p) = Armator.armExecuteInstruction h p := by
  simp only [armExecuteInstruction, Armator.armExecuteInstruction, value_bind, value_ite,
    value_pure, value_armFetch, value_selectExecuteInstruction]

/-- A step with a log is the step. -/
theorem value_armStep : value (armStep h p) = Armator.armStep h p := by
  simp only [armStep, Armator.armStep, value_bind, value_ite, value_pure,
    value_armExecuteInstruction, value_armException]

end

end Eval

end Armator
