import Armator.Decode
import Armator.Lib.Shift

/-!
# The shifter operand

`update_shifter_operand` against the barrel shifter of the architecture. It keeps the operand in a
`uint16_t` and the register it shifts in a `uint8_t`, so that at best it delivers the shift of the
low byte of `Rm`, cut to 16 bits (`shiftByImmediate_eq`).

* `immediateOperand_iff`: an immediate is right if it fits in 16 bits once rotated.
* `shiftByImmediate_iff`: a shift by an immediate is right if the bits lost are clear; RRX is not
  there.
-/

namespace Armator

open Arm (Shift)

/-- What a function of the shifter leaves, carry-out and operand, is a value with its carry. -/
def Delivers (r : Byte × Half) (spec : Word × Bool) : Prop :=
  u32 r.2 = spec.1 ∧ r.1 = ofBool spec.2

/-- A value and a carry, cut to the operand of the source. -/
def narrow (v : Word × Bool) : Byte × Half := (ofBool v.2, u16 v.1)

/-- `RM`. -/
def low (x : Word) : Word := u32 (u8 x)

theorem getLsbD_low (x : Word) (j : Nat) : (low x).getLsbD j = (decide (j < 8) && x.getLsbD j) := by
  rw [low, BitVec.getLsbD_setWidth, BitVec.getLsbD_setWidth]
  by_cases hj : j < 8
  · rw [decide_eq_true hj, decide_eq_true (show j < 32 by omega), Bool.true_and, Bool.true_and]
  · rw [decide_eq_false hj, Bool.false_and, Bool.and_false]

theorem u16_u8 (x : Word) : u16 (u8 x) = u16 (low x) := by
  apply BitVec.eq_of_toNat_eq
  simp only [low, BitVec.toNat_setWidth]
  omega

theorem u32_u8 (x : Word) : u32 (u8 x) = low x := rfl

theorem getLsbD_low_last (x : Word) : (low x).getLsbD 31 = false := by
  rw [getLsbD_low]
  rfl

theorem msb_low (x : Word) : (low x).msb = false := by
  rw [BitVec.msb_eq_getLsbD_last]
  exact getLsbD_low_last x

theorem delivers_narrow (v spec : Word × Bool) :
    Delivers (narrow v) spec ↔
      (∀ j < 32, (decide (j < 16) && v.1.getLsbD j) = spec.1.getLsbD j) ∧ v.2 = spec.2 := by
  have hinj : ofBool v.2 = ofBool spec.2 ↔ v.2 = spec.2 := by
    cases v.2 <;> cases spec.2 <;> decide
  rw [Delivers, narrow, hinj, BitVec.eq_of_getLsbD_eq_iff]
  refine and_congr_left fun _ => forall_congr' fun j => imp_congr_right fun hj => ?_
  rw [BitVec.getLsbD_setWidth, BitVec.getLsbD_setWidth, decide_eq_true hj, Bool.true_and]

/-! ## Immediates -/

section
variable (mot : Word)

def immediateField : Word := u32 (mot.extractLsb' 0 8)

def rotationField : Nat := (mot.extractLsb' 8 4).toNat

theorem rotationField_lt : rotationField mot < 16 := (mot.extractLsb' 8 4).isLt

theorem immediateField_lt : (immediateField mot).toNat < 2 ^ 8 := by
  have hlt := (mot.extractLsb' 0 8).isLt
  rwa [immediateField, toNat_u32 (by decide)]

theorem toNat_u16_operand : (u16 (mot &&& 4095)).toNat = mot.toNat % 2 ^ 12 := by
  have hmask : (4095 : Word).toNat = 2 ^ 12 - 1 := rfl
  rw [BitVec.toNat_setWidth, BitVec.toNat_and, hmask, Nat.and_two_pow_sub_one_eq_mod]
  omega

theorem u32_immediate : u32 (u16 (mot &&& 4095) &&& 0xFF) = immediateField mot := by
  have hmask : (0xFF : Half).toNat = 2 ^ 8 - 1 := rfl
  apply BitVec.eq_of_toNat_eq
  rw [immediateField, toNat_u32 (by decide), toNat_u32 (by decide), BitVec.toNat_and, hmask,
    Nat.and_two_pow_sub_one_eq_mod, toNat_u16_operand, BitVec.extractLsb'_toNat, Nat.shiftRight_zero]
  omega

theorem toNat_rotation : (u8 ((u16 (mot &&& 4095) >>> 8) &&& 0xF)).toNat = rotationField mot := by
  have hmask : (0xF : Half).toNat = 2 ^ 4 - 1 := rfl
  rw [rotationField, BitVec.toNat_setWidth, BitVec.toNat_and, hmask,
    Nat.and_two_pow_sub_one_eq_mod, BitVec.toNat_ushiftRight, toNat_u16_operand,
    BitVec.extractLsb'_toNat, Nat.shiftRight_eq_div_pow, Nat.shiftRight_eq_div_pow]
  omega

/-- A rotated immediate is cut to 16 bits, and then has no bit 31 to carry out. -/
theorem shifterOf_immediate (h : Host) (p : ArmCoreData) (flagC : Byte)
    (h25 : mot.getLsbD 25 = true) :
    shifterOf h p mot flagC =
      (if rotationField mot = 0 then flagC else 0,
        u16 (ror h (immediateField mot) (BitVec.ofNat 8 (2 * rotationField mot)))) := by
  have hlt := rotationField_lt mot
  have hrotation := toNat_rotation mot
  have hdouble : u8 (u32 (u8 ((u16 (mot &&& 4095) >>> 8) &&& 0xF)) * 2) =
      BitVec.ofNat 8 (2 * rotationField mot) := by
    apply BitVec.eq_of_toNat_eq
    rw [BitVec.toNat_setWidth, BitVec.toNat_mul, toNat_u32 (by decide), hrotation, BitVec.toNat_ofNat]
    change rotationField mot * 2 % 2 ^ 32 % 2 ^ 8 = 2 * rotationField mot % 2 ^ 8
    omega
  have hzero : u8 ((u16 (mot &&& 4095) >>> 8) &&& 0xF) = 0 ↔ rotationField mot = 0 := by
    rw [← BitVec.toNat_inj, hrotation]
    rfl
  have htop : ∀ v : Half, (u32 v).getLsbD 31 = false := by
    intro v
    rw [BitVec.getLsbD_setWidth, BitVec.getLsbD_of_ge v 31 (by decide)]
    rfl
  have hone : ¬ ofBool true = 0 := by decide
  rw [shifterOf, u8_bit, h25, updateShifterOperand, if_neg hone]
  simp only [hdouble, hzero, u32_immediate, u8_bit, htop]
  split <;> rfl

theorem u32_u16_eq_iff (x : Word) : u32 (u16 x) = x ↔ x.toNat < 2 ^ 16 := by
  rw [← BitVec.toNat_inj, toNat_u32 (by decide), BitVec.toNat_setWidth]
  exact Nat.mod_eq_iff_lt (by decide)

/-- An immediate is delivered exactly if it fits in 16 bits once rotated; the rotation by 0 shifts by
32, whose result is the host's. -/
theorem immediateOperand_iff (h : Host) (p : ArmCoreData) (c : Bool)
    (h25 : mot.getLsbD 25 = true) :
    Delivers (shifterOf h p mot (ofBool c))
        (Shift.ror.byAmount c (immediateField mot) (2 * rotationField mot)) ↔
      if rotationField mot = 0 then
        u16 (immediateField mot ||| h.shlOut (immediateField mot) 32) = u16 (immediateField mot)
      else ((immediateField mot).rotateRight (2 * rotationField mot)).toNat < 2 ^ 16 := by
  have hlt := rotationField_lt mot
  have himm := immediateField_lt mot
  rw [shifterOf_immediate mot h p _ h25]
  generalize immediateField mot = x at himm ⊢
  by_cases hzero : rotationField mot = 0
  · have hror : ror h x (BitVec.ofNat 8 (2 * rotationField mot)) = x ||| h.shlOut x 32 := by
      rw [hzero]
      exact ror_zero h x
    have hfits : u32 (u16 x) = x := (u32_u16_eq_iff x).mpr (by omega)
    rw [if_pos hzero, if_pos hzero, hror, hzero, Shift.byAmount_zero, Delivers]
    constructor
    · rintro ⟨hvalue, -⟩
      have hnat := congrArg BitVec.toNat hvalue
      rw [toNat_u32 (by decide)] at hnat
      apply BitVec.eq_of_toNat_eq
      rw [hnat, BitVec.toNat_setWidth, Nat.mod_eq_of_lt (by omega)]
    · intro hvalue
      rw [hvalue]
      exact ⟨hfits, rfl⟩
  · have hcount : (BitVec.ofNat 8 (2 * rotationField mot)).toNat = 2 * rotationField mot :=
      Nat.mod_eq_of_lt (by omega)
    rw [if_neg hzero, if_neg hzero, ror_eq h x (by omega) (by omega), hcount,
      Shift.byAmount_ror (by omega), Delivers, u32_u16_eq_iff, and_iff_left_iff_imp]
    intro hfits
    have hmsb : (x.rotateRight (2 * rotationField mot)).msb = false := by
      rw [BitVec.msb_eq_decide, decide_eq_false (by omega)]
    rw [hmsb]
    rfl

end

/-- `MOV r0, #0x42`. -/
theorem immediateOperand_iff_byte :
    Delivers (shifterOf Host.x86 (coreAt 0) 0xE3A00042 (ofBool false))
      (Shift.ror.byAmount false (immediateField 0xE3A00042) (2 * rotationField 0xE3A00042)) :=
  (immediateOperand_iff 0xE3A00042 Host.x86 (coreAt 0) false (by decide)).mpr (by decide)

/-- `MOV r0, #0x10000` moves 0. -/
theorem immediateOperand_iff_wide :
    handler 0xE3A00801 = .dataProcessing .mov ∧
    Shift.ror.byAmount false (immediateField 0xE3A00801) (2 * rotationField 0xE3A00801) =
      (0x10000, false) ∧
    ¬ Delivers (shifterOf Host.x86 (coreAt 0) 0xE3A00801 (ofBool false))
      (Shift.ror.byAmount false (immediateField 0xE3A00801) (2 * rotationField 0xE3A00801)) := by
  refine ⟨by decide, by decide, fun hlaw => ?_⟩
  exact absurd hlaw.1 (by decide)

/-! ## Fields of the operand -/

theorem ite_shift {α : Type} (bits : BitVec 2) (a b c d : α) :
    (if u8 bits = 0 then a else if u8 bits = 1 then b else if u8 bits = 2 then c else d) =
      match Shift.ofBits bits with
      | .lsl => a
      | .lsr => b
      | .asr => c
      | .ror => d := by
  obtain ⟨⟨k, hk⟩⟩ := bits
  interval_cases k <;> rfl

section
variable (op : Half)

theorem updateShifterOperand_register (h : Host) (p : ArmCoreData) (rdest flagC : Byte)
    (h4 : op.getLsbD 4 = true) :
    updateShifterOperand h p rdest op 0 flagC = shiftByRegister h p rdest op flagC := by
  simp only [updateShifterOperand, u8_bit_half, h4, if_true]
  rfl

theorem updateShifterOperand_immediate (h : Host) (p : ArmCoreData) (rdest flagC : Byte)
    (h4 : op.getLsbD 4 = false) :
    updateShifterOperand h p rdest op 0 flagC = shiftByImmediate h p op flagC := by
  simp only [updateShifterOperand, u8_bit_half, h4, if_true]
  rfl

theorem u8_rm : u8 (op &&& 0xF) = u8 (op.extractLsb' 0 4) := u8_low_field op rfl

theorem u8_shift : u8 ((op >>> 5) &&& 3) = u8 (op.extractLsb' 5 2) := u8_field op 5 rfl

theorem u8_amount : u8 ((op >>> 7) &&& 0x1F) = u8 (op.extractLsb' 7 5) := u8_field op 7 rfl

end

/-! ## Shifts by an immediate -/

section
variable (h : Host) (p : ArmCoreData) (op : Half) (c : Bool)

/-- The value of `Rm`. -/
def rmValue : Word := armReadUsrRegister p (u8 (op.extractLsb' 0 4))

def shiftField : Shift := .ofBits (op.extractLsb' 5 2)

def amountField : Nat := (op.extractLsb' 7 5).toNat

theorem u8_amount_eq_zero : u8 (op.extractLsb' 7 5) = 0 ↔ amountField op = 0 := by
  rw [← BitVec.toNat_inj, BitVec.toNat_setWidth_of_le (by decide)]
  rfl

theorem toNat_u8_amount : (u8 (op.extractLsb' 7 5)).toNat = amountField op :=
  BitVec.toNat_setWidth_of_le (by decide)

theorem amountField_lt : amountField op < 32 := (op.extractLsb' 7 5).isLt

/-- `ROR #0` writes neither of the two results. -/
theorem shiftByImmediate_rrx (flagC : Byte) (hs : shiftField op = .ror) (hn : amountField op = 0) :
    shiftByImmediate h p op flagC = (h.garbage 8, op) := by
  unfold shiftByImmediate
  simp only [u8_shift, u8_amount, u8_amount_eq_zero]
  rw [ite_shift, ← shiftField, hs]
  exact if_pos hn

theorem shiftByImmediate_eq (hror : shiftField op = .ror → amountField op ≠ 0) :
    shiftByImmediate h p op (ofBool c) =
      narrow ((shiftField op).byImmediate c (low (rmValue p op)) (amountField op)) := by
  have hlt := amountField_lt op
  have hcount := toNat_u8_amount op
  have hmsb := msb_low (rmValue p op)
  unfold shiftByImmediate
  simp only [u8_shift, u8_amount, u8_rm, u8_bit, u8_amount_eq_zero, hcount, u32_u8, u16_u8]
  rw [← rmValue, ite_shift, ← shiftField]
  generalize low (rmValue p op) = x at hmsb ⊢
  generalize amountField op = n at hlt hror hcount ⊢
  cases hs : shiftField op with
  | lsl =>
    by_cases hn : n = 0
    · rw [Shift.byImmediate, if_pos hn, hn]
      rfl
    · rw [Shift.byImmediate, if_neg hn, Shift.byAmount_lsl hn, decide_eq_true (by omega),
        Bool.true_and]
      rfl
  | lsr =>
    by_cases hn : n = 0
    · simp only [Shift.byImmediate, if_pos hn]
      rw [Shift.byAmount_lsr (by decide), BitVec.ushiftRight_eq_zero (by decide)]
      rfl
    · simp only [Shift.byImmediate, if_neg hn]
      rw [Shift.byAmount_lsr hn]
      rfl
  | asr =>
    by_cases hn : n = 0
    · -- the source shifts to the left here, so that its test never sees the sign
      have hzero : (x <<< 31) &&& 1 = 0 := by
        have hbit : ¬ getBit (x <<< 31) 0 ≠ 0 := by
          rw [getBit_ne_zero, BitVec.getLsbD_shiftLeft]
          exact Bool.false_ne_true
        rw [getBit, BitVec.ushiftRight_zero] at hbit
        exact not_not.mp hbit
      simp only [Shift.byImmediate, if_pos hn, if_pos hzero]
      rw [Shift.byAmount_asr (by decide), BitVec.sshiftRight_eq_of_msb_false hmsb,
        BitVec.ushiftRight_eq_zero (by decide)]
      rfl
    · simp only [Shift.byImmediate, if_neg hn]
      rw [Shift.byAmount_asr hn, if_pos (by omega), asr_eq h x (by omega) (by omega), hcount]
      rfl
  | ror =>
    have hn : n ≠ 0 := hror hs
    simp only [Shift.byImmediate, if_neg hn]
    rw [Shift.byAmount_ror hn, Shift.msb_rotateRight_of_lt hn hlt,
      ror_eq h x (by omega) (by omega), hcount]
    rfl

/-- The bits of `Rm` that a shift by an immediate loses: they do not fit in the operand of the
source, or are not in the low byte but reach the value or the carry-out. -/
def LostByImmediate (n j : Nat) : Shift → Prop
  | .lsl => 8 ≤ j ∧ j + n ≤ 32 ∨ 16 ≤ j + n ∧ j + n < 32
  | .lsr | .asr => 8 ≤ j ∧ (if n = 0 then 32 else n) ≤ j + 1
  | .ror => 8 ≤ j ∨ n ≤ j + 16 ∧ j < n

end

instance (n j : Nat) : (s : Shift) → Decidable (LostByImmediate n j s)
  | .lsl => inferInstanceAs (Decidable (_ ∨ _))
  | .lsr | .asr => inferInstanceAs (Decidable (_ ∧ _))
  | .ror => inferInstanceAs (Decidable (_ ∨ _))

/-! ### What is lost -/

section
variable {c : Bool} {x : Word} {n : Nat}

theorem getLsbD_low_of_lt {j : Nat} (hj : j < 8) : (low x).getLsbD j = x.getLsbD j := by
  rw [getLsbD_low, decide_eq_true hj, Bool.true_and]

theorem getLsbD_low_of_le {j : Nat} (hj : 8 ≤ j) : (low x).getLsbD j = false := by
  rw [getLsbD_low, decide_eq_false (by omega), Bool.false_and]

theorem lsl_right_iff (hlt : n < 32) :
    Delivers (narrow (Shift.lsl.byAmount c (low x) n)) (Shift.lsl.byAmount c x n) ↔
      ∀ j < 32, LostByImmediate n j .lsl → x.getLsbD j = false := by
  rw [delivers_narrow, Shift.byAmount_lsl_fst, Shift.byAmount_lsl_fst]
  simp only [BitVec.getLsbD_shiftLeft, LostByImmediate]
  constructor
  · rintro ⟨hvalue, hcarry⟩ j hj hlost
    by_cases hin : j + n < 32
    · have hbit := hvalue (j + n) hin
      rw [decide_eq_true hin, decide_eq_false (show ¬ j + n < n by omega), Nat.add_sub_cancel] at hbit
      rcases hlost with ⟨h8, -⟩ | ⟨h16, -⟩
      · rw [getLsbD_low_of_le h8, Bool.and_false, Bool.and_false] at hbit
        simpa using hbit.symm
      · rw [decide_eq_false (show ¬ j + n < 16 by omega), Bool.false_and] at hbit
        simpa using hbit.symm
    · -- the last bit shifted out
      have hn : n ≠ 0 := by omega
      obtain rfl : j = 32 - n := by omega
      rw [Shift.byAmount_lsl hn, Shift.byAmount_lsl hn, decide_eq_true (by omega), Bool.true_and,
        Bool.true_and, getLsbD_low_of_le (by omega)] at hcarry
      exact hcarry.symm
  · intro hlost
    constructor
    · intro j hj
      by_cases hn : j < n
      · simp [hn]
      · by_cases hkept : j < 16 ∧ j - n < 8
        · rw [getLsbD_low_of_lt hkept.2, decide_eq_true hkept.1, Bool.true_and]
        · have hbit := hlost (j - n) (by omega) (by omega)
          rw [getLsbD_low, hbit, Bool.and_false, Bool.and_false, Bool.and_false]
    · by_cases hn : n = 0
      · rw [hn, Shift.byAmount_zero, Shift.byAmount_zero]
      · rw [Shift.byAmount_lsl hn, Shift.byAmount_lsl hn]
        by_cases h8 : 32 - n < 8
        · rw [getLsbD_low_of_lt h8]
        · rw [getLsbD_low_of_le (by omega), hlost (32 - n) (by omega) (by omega)]

theorem lsr_right_iff (hn : n ≠ 0) (hle : n ≤ 32) :
    Delivers (narrow (Shift.lsr.byAmount c (low x) n)) (Shift.lsr.byAmount c x n) ↔
      ∀ j < 32, 8 ≤ j → n ≤ j + 1 → x.getLsbD j = false := by
  rw [delivers_narrow, Shift.byAmount_lsr hn, Shift.byAmount_lsr hn]
  simp only [BitVec.getLsbD_ushiftRight]
  constructor
  · rintro ⟨hvalue, hcarry⟩ j hj h8 hin
    by_cases hlast : n = j + 1
    · rw [hlast, Nat.add_sub_cancel, getLsbD_low_of_le h8] at hcarry
      exact hcarry.symm
    · have hbit := hvalue (j - n) (by omega)
      rw [Nat.add_sub_cancel' (by omega), getLsbD_low_of_le h8, Bool.and_false] at hbit
      exact hbit.symm
  · intro hlost
    constructor
    · intro j hj
      by_cases h8 : n + j < 8
      · rw [getLsbD_low_of_lt h8, decide_eq_true (by omega), Bool.true_and]
      · rw [getLsbD_low_of_le (by omega), Bool.and_false]
        by_cases hin : n + j < 32
        · exact (hlost (n + j) hin (by omega) (by omega)).symm
        · exact (BitVec.getLsbD_of_ge x _ (by omega)).symm
    · by_cases h8 : n - 1 < 8
      · exact getLsbD_low_of_lt h8
      · rw [getLsbD_low_of_le (by omega), hlost (n - 1) (by omega) (by omega) (by omega)]

/-- An arithmetic shift of a negative number is never right: the low byte has no sign. -/
theorem asr_right_iff (hn : n ≠ 0) (hle : n ≤ 32) :
    Delivers (narrow (Shift.asr.byAmount c (low x) n)) (Shift.asr.byAmount c x n) ↔
      ∀ j < 32, 8 ≤ j → n ≤ j + 1 → x.getLsbD j = false := by
  rw [Shift.byAmount_asr_of_msb_false (msb_low x) hle]
  cases hmsb : x.msb with
  | false => rw [Shift.byAmount_asr_of_msb_false hmsb hle, lsr_right_iff hn hle]
  | true =>
    refine iff_of_false ?_ ?_
    · intro hright
      have hbit := (delivers_narrow _ _).mp hright |>.1 31 (by decide)
      rw [Shift.byAmount_asr hn, BitVec.getLsbD_sshiftRight, if_neg (by omega), hmsb] at hbit
      exact Bool.noConfusion hbit
    · intro hlost
      have hbit := hlost 31 (by decide) (by decide) (by omega)
      rw [BitVec.msb_eq_getLsbD_last, hbit] at hmsb
      exact Bool.noConfusion hmsb

theorem ror_right_iff (hn : n ≠ 0) (hlt : n < 32) :
    Delivers (narrow (Shift.ror.byAmount c (low x) n)) (Shift.ror.byAmount c x n) ↔
      ∀ j < 32, LostByImmediate n j .ror → x.getLsbD j = false := by
  rw [delivers_narrow, Shift.byAmount_ror hn, Shift.byAmount_ror hn,
    Shift.msb_rotateRight_of_lt hn hlt, Shift.msb_rotateRight_of_lt hn hlt]
  simp only [LostByImmediate]
  have hplace : ∀ i < 32, ∀ y : Word, (y.rotateRight n).getLsbD i = y.getLsbD ((i + n) % 32) :=
    fun i hi y => Shift.getLsbD_rotateRight_of_lt_width hi
  constructor
  · rintro ⟨hvalue, -⟩ j hj hlost
    -- bit `j` of `Rm` goes to bit `j - n` of the value
    have hbit := hvalue ((j + 32 - n) % 32) (Nat.mod_lt _ (by decide))
    have hback : ((j + 32 - n) % 32 + n) % 32 = j := by omega
    rw [hplace _ (by omega), hplace _ (by omega), hback] at hbit
    rcases hlost with h8 | ⟨h16, hjn⟩
    · rw [getLsbD_low_of_le h8, Bool.and_false] at hbit
      exact hbit.symm
    · rw [decide_eq_false (by omega), Bool.false_and] at hbit
      exact hbit.symm
  · intro hlost
    constructor
    · intro i hi
      rw [hplace i hi, hplace i hi]
      by_cases hkept : i < 16 ∧ (i + n) % 32 < 8
      · rw [decide_eq_true hkept.1, getLsbD_low_of_lt hkept.2, Bool.true_and]
      · have hbit := hlost ((i + n) % 32) (by omega) (by omega)
        rw [getLsbD_low, hbit, Bool.and_false, Bool.and_false]
    · by_cases h8 : n - 1 < 8
      · exact getLsbD_low_of_lt h8
      · rw [getLsbD_low_of_le (by omega), hlost (n - 1) (by omega) (by omega)]

end

section
variable (h : Host) (p : ArmCoreData) (rdest : Byte) (op : Half) (c : Bool)

/-- A shift by an immediate is delivered, whatever a local that the source has not written holds. -/
def ShiftsByImmediate : Prop :=
  ∀ garbage, Delivers (updateShifterOperand { h with garbage := garbage } p rdest op 0 (ofBool c))
    ((shiftField op).byImmediate c (rmValue p op) (amountField op))

/-- The source shifts by an immediate as the architecture does exactly if it is not `RRX` and no set
bit of `Rm` is lost. -/
theorem shiftByImmediate_iff (h4 : op.getLsbD 4 = false) :
    ShiftsByImmediate h p rdest op c ↔
      ¬ (shiftField op = .ror ∧ amountField op = 0) ∧
        ∀ j < 32, LostByImmediate (amountField op) j (shiftField op) →
          (rmValue p op).getLsbD j = false := by
  have hlt := amountField_lt op
  simp only [ShiftsByImmediate, updateShifterOperand_immediate op _ p rdest _ h4]
  by_cases hrrx : shiftField op = .ror ∧ amountField op = 0
  · refine iff_of_false (fun hall => ?_) (fun hgood => hgood.1 hrrx)
    have hcarry := (hall fun w => BitVec.ofNat w 2).2
    rw [shiftByImmediate_rrx _ p op _ hrrx.1 hrrx.2] at hcarry
    have hne : ∀ b, (2 : Byte) ≠ ofBool b := by decide
    exact hne _ hcarry
  · have hror : shiftField op = .ror → amountField op ≠ 0 := fun hs hn => hrrx ⟨hs, hn⟩
    rw [and_iff_right hrrx]
    simp only [shiftByImmediate_eq _ p op c hror, forall_const]
    generalize rmValue p op = x
    generalize amountField op = n at hlt hror ⊢
    have hamount : (if n = 0 then 32 else n) ≠ 0 ∧ (if n = 0 then 32 else n) ≤ 32 := by
      split <;> omega
    cases hs : shiftField op with
    | lsl => exact lsl_right_iff hlt
    | lsr =>
      refine (lsr_right_iff hamount.1 hamount.2).trans ?_
      simp only [LostByImmediate, and_imp]
    | asr =>
      refine (asr_right_iff hamount.1 hamount.2).trans ?_
      simp only [LostByImmediate, and_imp]
    | ror =>
      simp only [Shift.byImmediate, if_neg (hror hs)]
      exact ror_right_iff (hror hs) hlt

end

/-- A core with a value in `r0`. -/
def coreWith (value : Word) : ArmCoreData := armWriteUsrRegister (coreAt 0) 0 value

/-- `MOV r1, r0` with a byte in `r0`. -/
theorem shiftByImmediate_iff_byte : ShiftsByImmediate Host.x86 (coreWith 0x42) 1 0 false :=
  (shiftByImmediate_iff Host.x86 (coreWith 0x42) 1 0 false (by decide)).mpr (by decide)

/-- `MOV r1, r0` delivers the low byte of `r0`. -/
theorem shiftByImmediate_iff_word :
    updateShifterOperand Host.x86 (coreWith 0x1FF) 1 0 0 (ofBool false) = (0, 0xFF) ∧
    ¬ ShiftsByImmediate Host.x86 (coreWith 0x1FF) 1 0 false := by
  refine ⟨by decide, fun hlaw => ?_⟩
  exact absurd (hlaw fun _ => 0).1 (by decide)

end Armator
