import Armator.DataProcessing
import Armator.LoadStore
import Armator.BranchOther

/-!
# `arm_instruction.c`

One step: fetch, condition, class of the instruction, execution, exception. The instruction
variable `mot` is initialised with the CPSR and keeps this value when the fetch fails, the result
code of the fetch is dropped, and the result code of a failed condition is the number of the reset
exception.
-/

namespace Armator

/-! ## The condition -/

def checkCondFailed (flagN flagZ flagV flagC cond : Byte) : Int :=
  let n := flagN != 0
  let z := flagZ != 0
  let v := flagV != 0
  let c := flagC != 0
  match cond.toNat with
  | 0 => if z then 0 else 1
  | 1 => if !z then 0 else 1
  | 2 => if c then 0 else 1
  | 3 => if !c then 0 else 1
  | 4 => if n then 0 else 1
  | 5 => if !n then 0 else 1
  | 6 => if v then 0 else 1
  | 7 => if !v then 0 else 1
  | 8 => if c && !z then 0 else 1
  | 9 => if !c && z then 0 else 1
  | 10 => if (n && v) || (!n && !v) then 0 else 1
  | 11 => if (n && !v) || (!n && v) then 0 else 1
  | 12 => if !z && ((n && v) || (!n && !v)) then 0 else 1
  | 13 => if z || (n && !v) || (!n && v) then 0 else 1
  | 14 => 0
  | 15 => 1
  -- the `default`, which no four-bit condition reaches
  | _ => 0

/-! ## The shifter operand -/

/-- The operand of the shift-by-register forms: carry-out and value. `RM` is a `uint8_t`, and the
shift amount `RS7` is made of the two register fields. -/
def shiftByRegister (h : Host) (p : ArmCoreData) (rdest : Byte) (shifterOperand : Half)
    (flagC : Byte) : Byte × Half :=
  let rs := u8 ((shifterOperand >>> 8) &&& 0xF)
  let shift := u8 ((shifterOperand >>> 5) &&& 3)
  let rm := u8 (armReadUsrRegister p (u8 (shifterOperand &&& 0xF)))
  let rs4 := rs
  let rs7 := u8 ((u32 rdest <<< 4) ||| u32 rs)
  if shift = 0 then
    if rs7 = 0 then (flagC, u16 rm)
    else if rs7 < 32 then
      (u8 ((u32 rm >>> (32 - rs7.toNat)) &&& 1), u16 (u32 rm <<< rs7.toNat))
    else if rs7 = 32 then (u8 (u32 rm &&& 1), 0)
    else (0, 0)
  else if shift = 1 then
    if rs7 = 0 then (flagC, u16 rm)
    else if rs7 < 32 then
      (u8 ((u32 rm >>> (rs7.toNat - 1)) &&& 1), u16 (u32 rm >>> rs7.toNat))
    else if rs7 = 32 then (u8 ((u32 rm >>> 31) &&& 1), 0)
    else (0, 0)
  else if shift = 2 then
    if rs7 = 0 then (flagC, u16 rm)
    else if rs7 < 32 then
      (u8 ((u32 rm >>> (rs7.toNat - 1)) &&& 1), u16 (asr h (u32 rm) rs7))
    else if (u32 rm >>> 31) &&& 1 ≠ 0 then (u8 ((u32 rm >>> 31) &&& 1), 0)
    else (u8 ((u32 rm >>> 31) &&& 1), 0xFFFF)
  else
    if rs7 = 0 then (flagC, u16 rm)
    else if rs4 = 0 then (u8 ((u32 rm >>> 31) &&& 1), u16 rm)
    else (u8 ((u32 rm >>> (rs4.toNat - 1)) &&& 1), u16 (asr h (u32 rm) rs4))

/-- The operand of the shift-by-immediate forms. `ROR` by 0 writes neither the operand, which stays
the instruction field, nor the carry-out. -/
def shiftByImmediate (h : Host) (p : ArmCoreData) (shifterOperand : Half) (flagC : Byte) :
    Byte × Half :=
  let shiftImm := u8 ((shifterOperand >>> 7) &&& 0x1F)
  let shift := u8 ((shifterOperand >>> 5) &&& 3)
  let rm := u8 (armReadUsrRegister p (u8 (shifterOperand &&& 0xF)))
  if shift = 0 then
    if shiftImm = 0 then (flagC, u16 rm)
    else (u8 ((u32 rm >>> (32 - shiftImm.toNat)) &&& 1), u16 (u32 rm <<< shiftImm.toNat))
  else if shift = 1 then
    if shiftImm = 0 then (u8 ((u32 rm >>> 31) &&& 1), 0)
    else (u8 ((u32 rm >>> (shiftImm.toNat - 1)) &&& 1), u16 (u32 rm >>> shiftImm.toNat))
  else if shift = 2 then
    if shiftImm = 0 then
      if (u32 rm <<< 31) &&& 1 = 0 then (u8 ((u32 rm >>> 31) &&& 1), 0)
      else (u8 ((u32 rm >>> 31) &&& 1), 0xFFFF)
    else (u8 ((u32 rm >>> (shiftImm.toNat - 1)) &&& 1), u16 (asr h (u32 rm) shiftImm))
  else
    if shiftImm = 0 then (h.garbage 8, shifterOperand)
    else (u8 ((u32 rm >>> (shiftImm.toNat - 1)) &&& 1), u16 (ror h (u32 rm) shiftImm))

def updateShifterOperand (h : Host) (p : ArmCoreData) (rdest : Byte) (shifterOperand : Half)
    (i flagC : Byte) : Byte × Half :=
  if i = 0 then
    let r := u8 ((shifterOperand >>> 4) &&& 1)
    if r ≠ 0 then shiftByRegister h p rdest shifterOperand flagC
    else shiftByImmediate h p shifterOperand flagC
  else
    let ri := u8 ((shifterOperand >>> 8) &&& 0xF)
    let shifterOperand := u16 (ror h (u32 (shifterOperand &&& 0xFF)) (u8 (u32 ri * 2)))
    if ri = 0 then (flagC, shifterOperand)
    else (u8 ((u32 shifterOperand >>> 31) &&& 1), shifterOperand)

/-! ## The classes -/

def traitementAR (h : Host) (p : ArmCoreData) (mot : Word) (flagC : Byte) : Int × ArmCoreData :=
  let masque4bits : Word := 15
  let masque12bits : Word := 4095
  let i := u8 ((mot >>> 25) &&& 1)
  let s := u8 ((mot >>> 20) &&& 1)
  let opCode := u8 ((mot >>> 21) &&& masque4bits)
  let rsource := u8 ((mot >>> 16) &&& masque4bits)
  let rdest := u8 ((mot >>> 12) &&& masque4bits)
  let (shifterCarryOut, shifterOperand) :=
    updateShifterOperand h p rdest (u16 (mot &&& masque12bits)) i flagC
  match opCode.toNat with
  | 0 => andInstr p rsource rdest shifterOperand shifterCarryOut s
  | 1 => xorInstr p rsource rdest shifterOperand shifterCarryOut s
  | 2 => subInstr p rsource rdest shifterOperand s
  | 3 => rsbInstr p rsource rdest shifterOperand s
  | 4 => addInstr p rsource rdest shifterOperand s
  | 5 => adcInstr p rsource rdest shifterOperand flagC s
  | 6 => sbcInstr p rsource rdest shifterOperand flagC s
  | 7 => rscInstr p rsource rdest shifterOperand flagC s
  | 8 => tstInstr p rsource shifterOperand shifterCarryOut
  | 9 => teqInstr p rsource shifterOperand shifterCarryOut
  | 10 => cmpInstr p rsource shifterOperand
  | 11 => cmnInstr p rsource shifterOperand
  | 12 => orrInstr p rsource rdest shifterOperand shifterCarryOut s
  | 13 => movInstr p rdest shifterOperand shifterCarryOut s
  | 14 => bicInstr p rsource rdest shifterOperand shifterCarryOut s
  | 15 => mvnInstr p rdest shifterOperand shifterCarryOut s
  | _ => (1, p)

def traitementLS (h : Host) (p : ArmCoreData) (mot : Word) : Int × ArmCoreData :=
  armLoadStore h p mot

/-- The result code of `arm_branch` is dropped. -/
def traitementBR (p : ArmCoreData) (mot : Word) : Int × ArmCoreData :=
  let (_, p) := armBranch p mot
  (0, p)

def traitementSPE (p : ArmCoreData) : Int × ArmCoreData := (0, p)

/-- The switch of `select_execute_instruction`, over whatever its branches yield. -/
def selectInstruction {α : Type} (mot : Word) (halfword dataProcessing loadStore branch special
    other : α) : α :=
  let typeop := u8 ((mot >>> 26) &&& 3)
  match typeop.toNat with
  | 0 =>
    let bit7 := u8 ((mot >>> 7) &&& 1)
    let bit4 := u8 ((mot >>> 4) &&& 1)
    if bit7 ≠ 0 ∧ bit4 ≠ 0 then halfword else dataProcessing
  | 1 => loadStore
  | 2 => branch
  | 3 => special
  | _ => other

/-- The parameters `flag_N`, `flag_Z` and `flag_V` of the source are not used. -/
def selectExecuteInstruction (h : Host) (p : ArmCoreData) (mot : Word) (flagC : Byte) :
    Int × ArmCoreData :=
  selectInstruction mot (armLoadStoreH h p mot) (traitementAR h p mot flagC) (traitementLS h p mot)
    (traitementBR p mot) (traitementSPE p) (1, p)

/-! ## The step -/

def flagOf (cpsr : Word) (bit : Byte) : Byte := u8 ((cpsr >>> bit.toNat) &&& 1)

/-- The test of `arm_execute_instruction` on the word and the core the fetch leaves. -/
def condFailed (p : ArmCoreData) (mot : Word) : Prop :=
  let cond := u8 ((mot >>> 28) &&& 15)
  let cpsr := armReadCpsr p
  checkCondFailed (flagOf cpsr bitN) (flagOf cpsr bitZ) (flagOf cpsr bitV) (flagOf cpsr bitC) cond ≠ 0

instance (p : ArmCoreData) (mot : Word) : Decidable (condFailed p mot) :=
  inferInstanceAs (Decidable (_ ≠ _))

def armExecuteInstruction (h : Host) (p : ArmCoreData) : Int × ArmCoreData :=
  let mot := armReadCpsr p
  let (_, mot, p) := armFetch h p mot
  if condFailed p mot then (1, p)
  else selectExecuteInstruction h p mot (flagOf (armReadCpsr p) bitC)

def armStep (h : Host) (p : ArmCoreData) : Int × ArmCoreData :=
  let (result, p) := armExecuteInstruction h p
  if result ≠ 0 then (result, armException p (BitVec.ofInt 8 result)) else (result, p)

/-- The core after a step. -/
def stepped (h : Host) (p : ArmCoreData) : ArmCoreData := (armStep h p).2

/-- The word a step finds in `mot` and the core it has after its fetch. -/
def fetchedWord (h : Host) (p : ArmCoreData) : Word := (armFetch h p (armReadCpsr p)).2.1

def fetchedCore (h : Host) (p : ArmCoreData) : ArmCoreData := (armFetch h p (armReadCpsr p)).2.2

theorem armExecuteInstruction_eq (h : Host) (p : ArmCoreData) :
    armExecuteInstruction h p =
      if condFailed (fetchedCore h p) (fetchedWord h p) then (1, fetchedCore h p)
      else selectExecuteInstruction h (fetchedCore h p) (fetchedWord h p)
        (flagOf (armReadCpsr (fetchedCore h p)) bitC) := rfl

end Armator
