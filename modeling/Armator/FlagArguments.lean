import Armator.Evaluation

/-!
# The carry and overflow of the instruction functions

Eight of the instruction functions compute the carry and the overflow of their operation for
`update_flags` or `write_flags`. `flagArguments` is what they hand over, and `flags_instr` finds it in
the log of the call.

Three slips stand in these arguments. `~` of a borrow is 0xFE or 0xFF, so the five differences never
hand over a carry. The addition has overflowed, for `overflowFrom`, if the sign of the result is the
one of the operands; the other predicates are right (`predicates_iff`). And `Rn` is read again after
`Rd` has been written.
-/

namespace Armator

open Arm (Opcode)
open Logged (log)

section
variable (p : ArmCoreData) (rsource rdest : Byte) (shifterOperand : Half)
  (shifterCarryOut flagC s : Byte) (value : Word)

/-- The arguments `flag_C` and `flag_V` in the call of the function of an opcode, made with core `p`
after `value` has been computed. -/
def flagArguments : Opcode → Byte × Byte
  | .sub | .cmp =>
    (u8 (~~~(u32 (borrowFrom (armReadUsrRegister p rsource) (u32 shifterOperand)))),
      overflowFrom (armReadUsrRegister p rsource) (u32 shifterOperand) value 0)
  | .rsb =>
    (u8 (~~~(u32 (borrowFrom (u32 shifterOperand) (armReadUsrRegister p rsource)))),
      overflowFrom (u32 shifterOperand) (armReadUsrRegister p rsource) value 0)
  | .add =>
    (carryFrom (armReadUsrRegister p rsource) (u32 shifterOperand),
      overflowFrom (u32 shifterOperand) (armReadUsrRegister p rsource) value 1)
  | .adc =>
    (carryFrom (armReadUsrRegister p rsource) (u32 shifterOperand + u32 flagC),
      overflowFrom (u32 shifterOperand + u32 flagC) (armReadUsrRegister p rsource) value 1)
  | .sbc =>
    (u8 (~~~(u32 (borrowFrom (armReadUsrRegister p rsource)
        (u32 shifterOperand - ~~~(u32 flagC))))),
      overflowFrom (armReadUsrRegister p rsource) (u32 shifterOperand - ~~~(u32 flagC)) value 0)
  | .rsc =>
    (u8 (~~~(u32 (borrowFrom (u32 shifterOperand - ~~~(u32 flagC))
        (armReadUsrRegister p rsource)))),
      overflowFrom (u32 shifterOperand - ~~~(u32 flagC)) (armReadUsrRegister p rsource) value 0)
  | .cmn =>
    (carryFrom (armReadUsrRegister p rsource) (u32 shifterOperand),
      overflowFrom (armReadUsrRegister p rsource) (u32 shifterOperand) value 1)
  | .and | .eor | .tst | .teq | .orr | .mov | .bic | .mvn => (shifterCarryOut, 0xFF)

/-- The core a function calls `update_flags` or `write_flags` with. -/
def flagCore (op : Opcode) : ArmCoreData :=
  if op.isComparison then p
  else armWriteUsrRegister p rdest (instrValue p rsource shifterOperand flagC op)

/-- What the function of an opcode hands over. -/
def handedFlags (op : Opcode) : Byte × Byte :=
  flagArguments (flagCore p rsource rdest shifterOperand flagC op) rsource shifterOperand
    shifterCarryOut flagC (instrValue p rsource shifterOperand flagC op) op

end

/-! ### The calls -/

namespace Eval

section
variable (p : ArmCoreData) (reg rdest s c v c' v' : Byte) (x : Word)

theorem flags_armReadUsrRegister : .flags c v ∉ log (armReadUsrRegister p reg) := by
  simp [armReadUsrRegister]

theorem flags_armWriteUsrRegister : .flags c v ∉ log (armWriteUsrRegister p reg x) := by
  simp [armWriteUsrRegister]

theorem flags_writeFlags :
    .flags c v ∈ log (writeFlags p rdest c' v') ↔ (c, v) = (c', v') := by
  simp [writeFlags, flags_armReadUsrRegister]

theorem flags_updateFlags :
    .flags c v ∈ log (updateFlags p rdest s c' v') ↔ (c, v) = (c', v') := by
  rw [updateFlags, Logged.log_bind, Logged.log_tell, List.singleton_append, List.mem_cons,
    Event.flags.injEq, ← Prod.mk.injEq]
  refine or_iff_left_of_imp fun hrest => ?_
  simp only [Logged.log_ite, Logged.log_pure] at hrest
  split at hrest
  · split at hrest <;> cases hrest
  · split at hrest
    · exact (flags_writeFlags p rdest c v c' v').mp hrest
    · cases hrest

end

/-- The flags handed over in a call are those of `handedFlags`. -/
theorem flags_instr (p : ArmCoreData) (rsource rdest : Byte) (shifterOperand : Half)
    (shifterCarryOut flagC s c v : Byte) (op : Opcode) :
    .flags c v ∈ log (instr p rsource rdest shifterOperand shifterCarryOut flagC s op) ↔
      (c, v) = handedFlags p rsource rdest shifterOperand shifterCarryOut flagC op := by
  cases op <;> simp only [instr, andInstr, xorInstr, subInstr, rsbInstr, addInstr, adcInstr,
    sbcInstr, rscInstr, tstInstr, teqInstr, cmpInstr, cmnInstr, orrInstr, movInstr, bicInstr,
    mvnInstr, Logged.log_bind, Logged.log_pure, List.mem_append, List.not_mem_nil, or_false, false_or,
    flags_armReadUsrRegister, flags_armWriteUsrRegister, flags_writeFlags, flags_updateFlags,
    value_armReadUsrRegister, value_armWriteUsrRegister] <;> rfl

end Eval

/-! ## The helpers -/

theorem carryFrom_eq (x y : Word) :
    carryFrom x y = ofBool (decide (2 ^ 32 ≤ x.toNat + y.toNat)) := by
  have hx := x.isLt
  have hy := y.isLt
  have hones : (~~~0 : Word).toNat = 2 ^ 32 - 1 := rfl
  have htemp : ((~~~0 : Word) - x).toNat = 2 ^ 32 - 1 - x.toNat := by
    rw [BitVec.toNat_sub, hones]
    omega
  have hcarry : ~~~0 - x < y ↔ 2 ^ 32 ≤ x.toNat + y.toNat := by
    rw [BitVec.lt_def, htemp]
    omega
  exact congrArg ofBool (decide_eq_decide.mpr hcarry)

theorem signs_eq_iff (x y : Word) :
    (x >>> 31 == y >>> 31) = true ↔ (2 ^ 31 ≤ x.toNat ↔ 2 ^ 31 ≤ y.toNat) := by
  have hx := x.isLt
  have hy := y.isLt
  rw [beq_iff_eq, ← BitVec.toNat_inj, BitVec.toNat_ushiftRight, BitVec.toNat_ushiftRight,
    Nat.shiftRight_eq_div_pow, Nat.shiftRight_eq_div_pow]
  omega

theorem overflowFrom_sum (x y value : Word) :
    overflowFrom x y value 1 = ofBool (decide ((2 ^ 31 ≤ x.toNat ↔ 2 ^ 31 ≤ y.toNat) ∧
      (2 ^ 31 ≤ x.toNat ↔ 2 ^ 31 ≤ value.toNat))) := by
  rw [overflowFrom, if_pos rfl]
  congr 1
  rw [Bool.eq_iff_iff, Bool.and_eq_true, signs_eq_iff, signs_eq_iff, decide_eq_true_iff]

theorem ofBool_inj {b c : Bool} : ofBool b = ofBool c ↔ b = c := by
  revert b c
  decide

theorem overflowFrom_comm (x y value : Word) :
    overflowFrom x y value 1 = overflowFrom y x value 1 := by
  rw [overflowFrom_sum, overflowFrom_sum, ofBool_inj, decide_eq_decide]
  omega

theorem complement_ne_ofBool (b c : Bool) : u8 (~~~(u32 (ofBool b))) ≠ ofBool c := by
  revert b c
  decide

/-! ## The predicates -/

theorem borrowFrom_eq (x y : Word) : borrowFrom x y = ofBool (decide (x.toNat < y.toNat)) := rfl

theorem sign_beq (x y : Word) : (x >>> 31 == y >>> 31) = (x.msb == y.msb) := by
  rw [Bool.eq_iff_iff, signs_eq_iff, beq_iff_eq, BitVec.msb_eq_decide, BitVec.msb_eq_decide,
    decide_eq_decide]

/-- A number fits in a signed word. -/
def FitsSigned (n : Int) : Prop := -2 ^ 31 ≤ n ∧ n < 2 ^ 31

instance : DecidablePred FitsSigned := fun _ => inferInstanceAs (Decidable (_ ∧ _))

theorem overflowFrom_difference (x y : Word) :
    overflowFrom x y (x - y) 0 = ofBool (decide (¬ FitsSigned (x.toInt - y.toInt))) := by
  have hoverflow : x.ssubOverflow y = decide (¬ FitsSigned (x.toInt - y.toInt)) := by
    rw [BitVec.ssubOverflow, ← Bool.decide_or, decide_eq_decide]
    unfold FitsSigned
    omega
  rw [← hoverflow, BitVec.ssubOverflow_eq, overflowFrom, if_neg (by decide)]
  simp only [bne, sign_beq]
  cases x.msb <;> cases y.msb <;> cases (x - y).msb <;> rfl

/-- The sign of a sum is compared the wrong way round, which does not count if the operands have
different signs. -/
theorem overflowFrom_sum_iff (x y : Word) :
    overflowFrom x y (x + y) 1 = ofBool (decide (¬ FitsSigned (x.toInt + y.toInt))) ↔
      x.msb ≠ y.msb := by
  have hoverflow : x.saddOverflow y = decide (¬ FitsSigned (x.toInt + y.toInt)) := by
    rw [BitVec.saddOverflow, ← Bool.decide_or, decide_eq_decide]
    unfold FitsSigned
    omega
  rw [← hoverflow, BitVec.saddOverflow_eq, overflowFrom, if_pos rfl, ofBool_inj]
  simp only [sign_beq]
  cases x.msb <;> cases y.msb <;> cases (x + y).msb <;> decide

/-- **The predicates**: the carry, the borrow and the overflow of a difference are exact, the
overflow of a sum exactly for operands of different signs. -/
theorem predicates_iff (x y : Word) :
    carryFrom x y = ofBool (decide (2 ^ 32 ≤ x.toNat + y.toNat)) ∧
    borrowFrom x y = ofBool (decide (x.toNat < y.toNat)) ∧
    overflowFrom x y (x - y) 0 = ofBool (decide (¬ FitsSigned (x.toInt - y.toInt))) ∧
    (overflowFrom x y (x + y) 1 = ofBool (decide (¬ FitsSigned (x.toInt + y.toInt))) ↔
      x.msb ≠ y.msb) :=
  ⟨carryFrom_eq x y, borrowFrom_eq x y, overflowFrom_difference x y, overflowFrom_sum_iff x y⟩

/-- The sum of 0 and 0 has overflowed, for `overflowFrom`. -/
theorem predicates_iff_zero :
    overflowFrom 0 0 (0 + 0) 1 = 1 ∧ FitsSigned ((0 : Word).toInt + (0 : Word).toInt) ∧
    overflowFrom 0 0 (0 + 0) 1 ≠
      ofBool (decide (¬ FitsSigned ((0 : Word).toInt + (0 : Word).toInt))) := by
  decide

/-! ## The law -/

/-- The opcodes with a carry and an overflow of their own. -/
def arithmeticOpcodes : List Opcode := [.sub, .rsb, .add, .adc, .sbc, .rsc, .cmp, .cmn]

section
variable (p : ArmCoreData) (rsource rdest : Byte) (shifterOperand : Half) (shifterCarryOut : Byte)
  (c : Bool)

/-- The function hands over the carry and the overflow of its operation on the operands before it,
as 0 or 1. -/
def HandsFlags (op : Opcode) : Prop :=
  handedFlags p rsource rdest shifterOperand shifterCarryOut (ofBool c) op =
    (ofBool ((op.operation c).carry (armReadUsrRegister p rsource) (u32 shifterOperand) false),
      ofBool ((op.operation c).overflow (armReadUsrRegister p rsource) (u32 shifterOperand) false))

end

/-- When the carry and the overflow of a sum `x + y` are right although `Rn` has been overwritten
with it. The program counter reads as 4 more than it was written, without bit 1. -/
def RightAfterWrite (rsource : Byte) (x y : Nat) : Prop :=
  if rsource = 15 then
    2 ^ 31 - 4 ≤ x + y ∧ x + y < 2 ^ 31 ∨
      2 ^ 31 ≤ x ∧ x + y < 2 ^ 32 ∧
        (2 ^ 32 - 4 ≤ x + y ∨ (x + y + 4) / 4 * 4 + (x + y) % 2 + y < 2 ^ 32)
  else 2 ^ 31 ≤ x ∧ x + 2 * y < 2 ^ 32

/-- When the carry and the overflow of a sum `x + y` are right. -/
def RightSum (rsource rdest : Byte) (x y : Nat) : Prop :=
  if rsource = rdest then RightAfterWrite rsource x y else 2 ^ 31 ≤ x

/-- When the arguments of an opcode are right for `x` in `Rn` and the operand `y`. -/
def RightArguments (rsource rdest : Byte) (x y : Nat) (c : Bool) : Opcode → Prop
  | .add => RightSum rsource rdest x y
  | .adc => RightSum rsource rdest x (y + c.toNat)
  | .cmn => 2 ^ 31 ≤ x
  | _ => False

/-! ## Sums -/

section
variable {x x' y : Word} {c : Bool}

theorem sumFlags_iff (hy : y.toNat < 2 ^ 31) :
    (carryFrom x' y = ofBool ((Opcode.add.operation c).carry x y false) ∧
      overflowFrom y x' (x + y) 1 = ofBool ((Opcode.add.operation c).overflow x y false)) ↔
    (2 ^ 32 ≤ x'.toNat + y.toNat ↔ 2 ^ 32 ≤ x.toNat + y.toNat) ∧
      (x'.toNat < 2 ^ 31 ∧ (x + y).toNat < 2 ^ 31 ↔ x.toNat < 2 ^ 31 ∧ 2 ^ 31 ≤ (x + y).toNat) := by
  have hx := x.isLt
  have hsum : (x + y).toNat = (x.toNat + y.toNat) % 2 ^ 32 := BitVec.toNat_add x y
  have hcarry : (Opcode.add.operation c).carry x y false =
      decide ((2 : Int) ^ 32 ≤ x.toNat + y.toNat) := rfl
  have hover : (Opcode.add.operation c).overflow x y false =
      !decide (-2 ^ 31 ≤ x.toInt + y.toInt ∧ x.toInt + y.toInt < 2 ^ 31) := rfl
  rw [hcarry, hover, carryFrom_eq, ofBool_inj, overflowFrom_sum, ofBool_inj, decide_eq_decide,
    Bool.eq_iff_iff, decide_eq_true_iff, Bool.not_eq_true', decide_eq_false_iff_not,
    BitVec.toInt_eq_toNat_cond, BitVec.toInt_eq_toNat_cond]
  refine and_congr (by omega) ?_
  split <;> split <;> omega

theorem adc_flags (hy : y.toNat < 2 ^ 31 - 1) :
    (Opcode.adc.operation c).carry x y false =
        (Opcode.add.operation c).carry x (y + u32 (ofBool c)) false ∧
      (Opcode.adc.operation c).overflow x y false =
        (Opcode.add.operation c).overflow x (y + u32 (ofBool c)) false := by
  have hc : (u32 (ofBool c)).toNat = c.toNat := by cases c <;> rfl
  have hle : c.toNat ≤ 1 := Bool.toNat_le c
  have hint : c.toInt = c.toNat := by cases c <;> rfl
  have hsum : (y + u32 (ofBool c)).toNat = y.toNat + c.toNat := by
    rw [BitVec.toNat_add, hc]
    omega
  have hsigned : (y + u32 (ofBool c)).toInt = y.toInt + c.toInt := by
    rw [BitVec.toInt_eq_toNat_cond, BitVec.toInt_eq_toNat_cond, hsum, hint]
    split <;> split <;> omega
  simp only [Opcode.operation, Arm.Operation.carry, Arm.Operation.overflow, hsum, hsigned, hint,
    Int.natCast_add, Int.add_assoc, and_self]

variable {p : ArmCoreData} {rsource rdest : Byte}

theorem rightSum_iff (hy : y.toNat ≤ 2 ^ 16) :
    (carryFrom (armReadUsrRegister (armWriteUsrRegister p rdest (armReadUsrRegister p rsource + y))
          rsource) y =
        ofBool ((Opcode.add.operation c).carry (armReadUsrRegister p rsource) y false) ∧
      overflowFrom y
          (armReadUsrRegister (armWriteUsrRegister p rdest (armReadUsrRegister p rsource + y)) rsource)
          (armReadUsrRegister p rsource + y) 1 =
        ofBool ((Opcode.add.operation c).overflow (armReadUsrRegister p rsource) y false)) ↔
    RightSum rsource rdest (armReadUsrRegister p rsource).toNat y.toNat := by
  rw [armReadUsrRegister_armWriteUsrRegister, sumFlags_iff (by omega), RightSum]
  generalize armReadUsrRegister p rsource = x
  have hx := x.isLt
  have hsum : (x + y).toNat = (x.toNat + y.toNat) % 2 ^ 32 := BitVec.toNat_add x y
  by_cases hsame : rsource = rdest
  · subst hsame
    rw [if_pos rfl, if_pos rfl, RightAfterWrite]
    by_cases h15 : rsource = 15
    · have hpc : ((x + y + 4) &&& 0xFFFFFFFD).toNat =
          (x.toNat + y.toNat + 4) % 2 ^ 32 / 4 * 4 + (x.toNat + y.toNat) % 2 := by
        have hfour : (x + y + 4).toNat = (x.toNat + y.toNat + 4) % 2 ^ 32 := by
          rw [BitVec.toNat_add, hsum]
          exact Nat.mod_add_mod _ _ _
        rw [toNat_and_pcMask, hfour]
        omega
      rw [if_pos h15, if_pos h15, hpc]
      omega
    · rw [if_neg h15, if_neg h15]
      omega
  · rw [if_neg hsame, if_neg hsame]
    omega

end

/-! ## The eight functions -/

section
variable (p : ArmCoreData) (rsource rdest : Byte) (shifterOperand : Half) (shifterCarryOut : Byte)
  (c : Bool)

theorem handsFlags_add :
    HandsFlags p rsource rdest shifterOperand shifterCarryOut c .add ↔
      RightSum rsource rdest (armReadUsrRegister p rsource).toNat shifterOperand.toNat := by
  have hlt := shifterOperand.isLt
  have hy := toNat_u32 (by decide) shifterOperand
  rw [← hy, ← rightSum_iff (c := c) (by omega), HandsFlags, Prod.ext_iff]
  rfl

theorem handsFlags_adc :
    HandsFlags p rsource rdest shifterOperand shifterCarryOut c .adc ↔
      RightSum rsource rdest (armReadUsrRegister p rsource).toNat
        (shifterOperand.toNat + c.toNat) := by
  have hlt := shifterOperand.isLt
  have hle : c.toNat ≤ 1 := Bool.toNat_le c
  have hy := toNat_u32 (by decide) shifterOperand
  have hc : (u32 (ofBool c)).toNat = c.toNat := by cases c <;> rfl
  have hsum : (u32 shifterOperand + u32 (ofBool c)).toNat = shifterOperand.toNat + c.toNat := by
    rw [BitVec.toNat_add, hy, hc]
    omega
  obtain ⟨hcarry, hover⟩ := adc_flags (x := armReadUsrRegister p rsource) (c := c)
    (show (u32 shifterOperand).toNat < 2 ^ 31 - 1 by omega)
  rw [← hsum, ← rightSum_iff (c := c) (by omega), HandsFlags, hcarry, hover, Prod.ext_iff,
    ← BitVec.add_assoc]
  rfl

/-- `CMN` writes nothing before its call. -/
theorem handsFlags_cmn :
    HandsFlags p rsource rdest shifterOperand shifterCarryOut c .cmn ↔
      2 ^ 31 ≤ (armReadUsrRegister p rsource).toNat := by
  have hlt := shifterOperand.isLt
  have hy := toNat_u32 (by decide) shifterOperand
  have hargs : handedFlags p rsource rdest shifterOperand shifterCarryOut (ofBool c) .cmn =
      (carryFrom (armReadUsrRegister p rsource) (u32 shifterOperand),
        overflowFrom (u32 shifterOperand) (armReadUsrRegister p rsource)
          (armReadUsrRegister p rsource + u32 shifterOperand) 1) := by
    rw [overflowFrom_comm]
    rfl
  rw [HandsFlags, hargs, Prod.ext_iff]
  refine (sumFlags_iff (c := c) (show (u32 shifterOperand).toNat < 2 ^ 31 by omega)).trans ?_
  have hx := (armReadUsrRegister p rsource).isLt
  have hsum : (armReadUsrRegister p rsource + u32 shifterOperand).toNat =
      ((armReadUsrRegister p rsource).toNat + (u32 shifterOperand).toNat) % 2 ^ 32 :=
    BitVec.toNat_add _ _
  omega

/-- No difference hands over the right flags, and a sum does exactly if it makes up for the helper's
test of the signs. -/
theorem handsFlags_iff (op : Opcode) (hop : op ∈ arithmeticOpcodes) :
    HandsFlags p rsource rdest shifterOperand shifterCarryOut c op ↔
      RightArguments rsource rdest (armReadUsrRegister p rsource).toNat shifterOperand.toNat c op := by
  have hnever : ∀ op x y, (handedFlags p rsource rdest shifterOperand shifterCarryOut (ofBool c) op).1 =
      u8 (~~~(u32 (borrowFrom x y))) →
      ¬ HandsFlags p rsource rdest shifterOperand shifterCarryOut c op := by
    intro op x y hargs hlaw
    rw [HandsFlags, Prod.ext_iff, hargs] at hlaw
    exact complement_ne_ofBool _ _ hlaw.1
  simp only [arithmeticOpcodes, List.mem_cons, List.not_mem_nil, or_false] at hop
  rcases hop with rfl | rfl | rfl | rfl | rfl | rfl | rfl | rfl
  · exact iff_of_false (hnever .sub _ _ rfl) not_false
  · exact iff_of_false (hnever .rsb _ _ rfl) not_false
  · exact handsFlags_add p rsource rdest shifterOperand shifterCarryOut c
  · exact handsFlags_adc p rsource rdest shifterOperand shifterCarryOut c
  · exact iff_of_false (hnever .sbc _ _ rfl) not_false
  · exact iff_of_false (hnever .rsc _ _ rfl) not_false
  · exact iff_of_false (hnever .cmp _ _ rfl) not_false
  · exact handsFlags_cmn p rsource rdest shifterOperand shifterCarryOut c

end

/-- `ADD r1, r0, #1` with a negative number in `r0`. -/
theorem handsFlags_iff_add :
    HandsFlags (armWriteUsrRegister (coreAt 0) 0 0x80000000) 0 1 1 0 false .add :=
  (handsFlags_iff (armWriteUsrRegister (coreAt 0) 0 0x80000000) 0 1 1 0 false .add (by decide)).mpr
    (by rw [RightArguments, RightSum, if_neg (by decide)]; decide)

/-- `CMP r0, #0` hands over the value reserved for a flag to be kept. -/
theorem handsFlags_iff_cmp :
    (handedFlags (coreAt 0) 0 0 0 0 (ofBool false) .cmp).1 = 0xFF ∧
    ¬ HandsFlags (coreAt 0) 0 0 0 0 false .cmp := by
  refine ⟨by decide, fun hlaw => ?_⟩
  exact absurd (congrArg Prod.fst hlaw) (by decide)

end Armator
