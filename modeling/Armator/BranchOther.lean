import Armator.Core

/-!
# `arm_branch_other.c`
-/

namespace Armator

def bBlInstr (p : ArmCoreData) (ins : Word) : Int × ArmCoreData :=
  let l := u8 ((ins >>> 24) &&& 1)
  let si := ins &&& 0xFFFFFF
  let pc := armReadUsrRegister p 15
  let p := if l ≠ 0 then armWriteUsrRegister p 14 pc else p
  let b24 := u8 ((si >>> 23) &&& 1)
  let se := if b24 ≠ 0 then (si ||| 0x3F000000) <<< 2 else si <<< 2
  let pc := pc + se
  let p := armWriteUsrRegister p 15 pc
  (0, p)

def armBranch (p : ArmCoreData) (ins : Word) : Int × ArmCoreData :=
  if getBit ins 25 ≠ 0 then bBlInstr p ins else (UNDEFINED_INSTRUCTION, p)

/-- The result code, or `none` where the function calls `exit(0)`. -/
def armCoprocessorOthersSwi (p : ArmCoreData) (ins : Word) : Option Int × ArmCoreData :=
  if getBit ins 24 ≠ 0 then
    if ins &&& 0xFFFFFF = 0x123456 then (none, p) else (some SOFTWARE_INTERRUPT, p)
  else (some UNDEFINED_INSTRUCTION, p)

end Armator
