import Armator.Frame

/-!
# Branches

A step that executes `B` or `BL`. The fetch has moved the program counter 4 bytes behind the branch,
and reading it adds 4 again, so that `b_bl_instr` sees the address of the branch plus 8.

* `branch_target`: that is where the target of a branch is counted from.
* `call_return`: but `BL` links the same value, so a return skips the instruction behind the call.
-/

namespace Armator

/-! ## The offset -/

def branchField (ins : Word) : BitVec 24 := ins.extractLsb' 0 24

/-- `SE`. -/
def branchOffset (ins : Word) : Word :=
  let si := ins &&& 0xFFFFFF
  let b24 := u8 ((si >>> 23) &&& 1)
  if b24 ≠ 0 then (si ||| 0x3F000000) <<< 2 else si <<< 2

theorem toNat_branchField (ins : Word) :
    (ins &&& 0xFFFFFF).toNat = (branchField ins).toNat := by
  have hmask : (0xFFFFFF : Word).toNat = 2 ^ 24 - 1 := rfl
  rw [BitVec.toNat_and, hmask, Nat.and_two_pow_sub_one_eq_mod, branchField,
    BitVec.extractLsb'_toNat, Nat.shiftRight_zero]

theorem branchOffset_eq (ins : Word) :
    branchOffset ins = BitVec.ofInt 32 (4 * (branchField ins).toInt) := by
  have hfield := toNat_branchField ins
  have hlt := (branchField ins).isLt
  have hsign : u8 (((ins &&& 0xFFFFFF) >>> 23) &&& 1) ≠ 0 ↔ (branchField ins).msb = true := by
    rw [u8_bit_ne_zero, BitVec.msb_eq_decide, decide_eq_true_eq, BitVec.getLsbD, hfield,
      Nat.testBit_eq_decide_div_mod_eq, decide_eq_true_eq]
    omega
  apply BitVec.eq_of_toNat_eq
  rw [branchOffset, BitVec.toInt_eq_msb_cond, BitVec.toNat_ofInt]
  by_cases hmsb : (branchField ins).msb = true
  · have hones : ((ins &&& 0xFFFFFF) ||| 0x3F000000).toNat =
        0x3F000000 + (branchField ins).toNat := by
      have hor := Nat.two_pow_add_eq_or_of_lt hlt 0x3F
      rw [BitVec.toNat_or, hfield, Nat.or_comm]
      exact hor.symm
    rw [if_pos (hsign.mpr hmsb), if_pos hmsb, BitVec.toNat_shiftLeft, hones, Nat.shiftLeft_eq]
    omega
  · rw [if_neg (mt hsign.mp hmsb), if_neg hmsb, BitVec.toNat_shiftLeft, hfield, Nat.shiftLeft_eq]
    omega

/-! ## The step -/

theorem and_pcMask_of_aligned {x : Word} (hx : x.toNat % 4 = 0) : x &&& 0xFFFFFFFD = x := by
  apply BitVec.eq_of_toNat_eq
  rw [toNat_and_pcMask]
  omega

theorem bBlInstr_snd (p : ArmCoreData) (ins : Word) :
    (bBlInstr p ins).2 =
      armWriteUsrRegister (if ins.getLsbD 24 = true then
          armWriteUsrRegister p 14 (armReadUsrRegister p 15) else p) 15
        (armReadUsrRegister p 15 + branchOffset ins) := by
  unfold bBlInstr branchOffset
  simp only [u8_bit_ne_zero]

section
variable {h : Host} {p : ArmCoreData}

theorem armReadUsrRegister_fetchedCore_15 (haligned : (fetchAddress p).toNat % 4 = 0) :
    armReadUsrRegister (fetchedCore h p) 15 = fetchAddress p + 8 := by
  have height : fetchAddress p + 4 + 4 = fetchAddress p + 8 := BitVec.add_assoc _ 4 4
  have hmod : (fetchAddress p + 8).toNat % 4 = 0 := by
    have height' : (8 : Word).toNat = 8 := rfl
    rw [BitVec.toNat_add, height']
    omega
  rw [armReadUsrRegister_eq, if_pos rfl, fetchedCore, word_armFetch, if_pos rfl, height,
    and_pcMask_of_aligned hmod]

theorem stepped_of_branch (hbranch : Arm.IsBranch (fetchedWord h p)) (hpass : Passed h p) :
    stepped h p = (bBlInstr (fetchedCore h p) (fetchedWord h p)).2 := by
  rw [stepped, armStep_of_passed hpass, selectExecuteInstruction, selectInstruction_eq, hbranch.1,
    traitementBR_eq, if_pos hbranch.2]
  rfl

theorem fetchAddress_armWriteUsrRegister (q : ArmCoreData) {x : Word} (hx : x.toNat % 4 = 0) :
    fetchAddress (armWriteUsrRegister q 15 x) = x := by
  have hfour : (x + 4).toNat % 4 = 0 := by
    have hfour' : (4 : Word).toNat = 4 := rfl
    rw [BitVec.toNat_add, hfour']
    omega
  rw [fetchAddress_eq, word_armWriteUsrRegister, if_pos rfl, and_pcMask_of_aligned hfour,
    BitVec.add_sub_cancel]

variable (hbranch : Arm.IsBranch (fetchedWord h p)) (hpass : Passed h p)
  (haligned : (fetchAddress p).toNat % 4 = 0)
include hbranch hpass haligned

/-- **The target of a branch**: a step that executes `B` or `BL` at an aligned address leaves the
target in the program counter, where the next fetch finds it, and the targets are the words in reach.
-/
theorem branch_target :
    (stepped h p).word 15 = Arm.branchTarget (fetchAddress p) (branchField (fetchedWord h p)) ∧
    fetchAddress (stepped h p) =
      Arm.branchTarget (fetchAddress p) (branchField (fetchedWord h p)) ∧
    ∀ target, (∃ field, Arm.branchTarget (fetchAddress p) field = target) ↔
      target.toNat % 4 = 0 ∧ -2 ^ 25 ≤ (target - (fetchAddress p + 8)).toInt ∧
        (target - (fetchAddress p + 8)).toInt ≤ 2 ^ 25 - 4 := by
  have htarget : armReadUsrRegister (fetchedCore h p) 15 + branchOffset (fetchedWord h p) =
      Arm.branchTarget (fetchAddress p) (branchField (fetchedWord h p)) := by
    rw [armReadUsrRegister_fetchedCore_15 haligned, branchOffset_eq, Arm.branchTarget]
  rw [stepped_of_branch hbranch hpass, bBlInstr_snd, htarget]
  refine ⟨?_, ?_, fun target => Arm.branchTarget_reach haligned⟩
  · rw [word_armWriteUsrRegister, if_pos rfl]
  · exact fetchAddress_armWriteUsrRegister _ (Arm.branchTarget_aligned haligned _)

end

/-- `B` to itself. -/
theorem branch_target_self :
    Arm.branchTarget (fetchAddress (coreAt 0xEAFFFFFE)) (branchField 0xEAFFFFFE) = 0 ∧
    fetchAddress (stepped Host.x86 (coreAt 0xEAFFFFFE)) = 0 := by
  have hword : fetchedWord Host.x86 (coreAt 0xEAFFFFFE) = 0xEAFFFFFE := by decide
  have hself : Arm.branchTarget (fetchAddress (coreAt 0xEAFFFFFE)) (branchField 0xEAFFFFFE) = 0 := by
    decide
  have htarget := (branch_target (h := Host.x86) (p := coreAt 0xEAFFFFFE)
    (by rw [hword]; unfold Arm.IsBranch; decide) (by unfold Passed; decide) (by decide)).2.1
  refine ⟨hself, ?_⟩
  rw [htarget, hword, hself]

/-! ## Calls -/

/-- `BL` links the address behind it, and a return to the link of any core that has kept it fetches
from there. -/
structure CallsAndReturns (h : Host) (p : ArmCoreData) : Prop where
  link : (stepped h p).word 14 = fetchAddress p + 4
  back : ∀ q : ArmCoreData, q.word 14 = (stepped h p).word 14 →
    fetchAddress (armWriteUsrRegister q 15 (armReadUsrRegister q 14)) = fetchAddress p + 4

section
variable {h : Host} {p : ArmCoreData} (hbranch : Arm.IsBranch (fetchedWord h p))
  (hlink : (fetchedWord h p).getLsbD 24 = true) (hpass : Passed h p)
  (haligned : (fetchAddress p).toNat % 4 = 0)
include hbranch hlink hpass haligned

theorem link_stepped : (stepped h p).word 14 = fetchAddress p + 8 := by
  have hne : ¬ (14 : Byte) = 15 := by decide
  rw [stepped_of_branch hbranch hpass, bBlInstr_snd, if_pos hlink, word_armWriteUsrRegister,
    if_neg hne, word_armWriteUsrRegister, if_pos rfl, armReadUsrRegister_fetchedCore_15 haligned]

/-- **Call and return**: no call at an aligned address returns behind itself, it returns 4 bytes
further on. -/
theorem call_return :
    ¬ CallsAndReturns h p ∧ (stepped h p).word 14 = fetchAddress p + 8 ∧
    ∀ q : ArmCoreData, q.word 14 = (stepped h p).word 14 →
      fetchAddress (armWriteUsrRegister q 15 (armReadUsrRegister q 14)) = fetchAddress p + 8 := by
  have hstepped := link_stepped hbranch hlink hpass haligned
  refine ⟨fun hlaw => ?_, hstepped, fun q hq => ?_⟩
  · have hlink := hlaw.link
    rw [hstepped, BitVec.add_right_inj] at hlink
    exact absurd hlink (by decide)
  · have hmod : (fetchAddress p + 8).toNat % 4 = 0 := by
      have height : (8 : Word).toNat = 8 := rfl
      rw [BitVec.toNat_add, height]
      omega
    rw [armReadUsrRegister_of_lt q (by decide), hq, hstepped,
      fetchAddress_armWriteUsrRegister q hmod]

end

/-- A return from the instruction behind `BL` at address 0 goes to 8. -/
theorem call_return_back :
    fetchAddress (armWriteUsrRegister (stepped Host.x86 (coreAt 0xEB000000)) 15
      (armReadUsrRegister (stepped Host.x86 (coreAt 0xEB000000)) 14)) = 8 := by
  have hword : fetchedWord Host.x86 (coreAt 0xEB000000) = 0xEB000000 := by decide
  have hcall := call_return (h := Host.x86) (p := coreAt 0xEB000000)
    (by rw [hword]; unfold Arm.IsBranch; decide) (by rw [hword]; decide)
    (by unfold Passed; decide) (by decide)
  exact hcall.2.2 _ rfl

/-- `BL` at address 0 links 8. -/
theorem call_return_start :
    (stepped Host.x86 (coreAt 0xEB000000)).word 14 = 8 ∧
    ¬ CallsAndReturns Host.x86 (coreAt 0xEB000000) := by
  refine ⟨by decide, fun hlaw => ?_⟩
  exact absurd hlaw.link (by decide)

end Armator
