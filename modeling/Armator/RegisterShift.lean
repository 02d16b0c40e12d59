import Armator.ShifterOperand

/-!
# The shifter operand, shifted by a register

`update_shifter_operand` takes the amount from the numbers of `Rd` and `Rs` and never reads the
register `Rs`, so what it delivers depends on the destination.

* `shiftByRegister_eq`: what it delivers, for each shift.
* `shiftByRegister_iff`: it is the shift by `Rs` for every destination only in the cases of
  `RightByRegister`.
-/

namespace Armator

open Arm (Shift)

/-! ## The shift of the source -/

section
variable (h : Host) (p : ArmCoreData) (rdest : Byte) (op : Half) (c : Bool)

def rsField : Nat := (op.extractLsb' 8 4).toNat

/-- The amount the architecture shifts by: the low byte of `Rs`. -/
def rsAmount : Nat := (u8 (armReadUsrRegister p (u8 (op.extractLsb' 8 4)))).toNat

theorem rsField_lt : rsField op < 16 := (op.extractLsb' 8 4).isLt

/-- The amount the source shifts by: the two register fields. -/
def rs7 : Byte := u8 ((u32 rdest <<< 4) ||| u32 (u8 (op.extractLsb' 8 4)))

theorem toNat_rs7 (hrd : rdest.toNat < 16) :
    (rs7 rdest op).toNat = 16 * rdest.toNat + rsField op := by
  have hlt := rsField_lt op
  have hrs : (u32 (u8 (op.extractLsb' 8 4))).toNat = rsField op := by
    rw [toNat_u32 (by decide), BitVec.toNat_setWidth_of_le (by decide)]
    rfl
  have hshift : (u32 rdest <<< 4).toNat = rdest.toNat <<< 4 := by
    rw [BitVec.toNat_shiftLeft, toNat_u32 (by decide), Nat.shiftLeft_eq]
    omega
  rw [rs7, BitVec.toNat_setWidth, BitVec.toNat_or, hshift, hrs,
    ← Nat.shiftLeft_add_eq_or_of_lt (show rsField op < 2 ^ 4 by omega), Nat.shiftLeft_eq]
  omega

theorem u8_rs : u8 ((op >>> 8) &&& 0xF) = u8 (op.extractLsb' 8 4) := u8_field op 8 rfl

theorem u8_rs_eq_zero : u8 (op.extractLsb' 8 4) = 0 ↔ rsField op = 0 := by
  rw [← BitVec.toNat_inj, BitVec.toNat_setWidth_of_le (by decide)]
  rfl

theorem toNat_u8_rs : (u8 (op.extractLsb' 8 4)).toNat = rsField op :=
  BitVec.toNat_setWidth_of_le (by decide)

/-- What the source delivers for an amount `k` and the low byte `x` of `Rm`; in a rotation only the
number `n` of `Rs` counts, and it is a shift. -/
def registerShift (x : Word) (n k : Nat) : Shift → Byte × Half
  | .lsl => narrow (Shift.lsl.byAmount c x k)
  | .lsr => narrow (Shift.lsr.byAmount c x k)
  | .asr => if k < 32 then narrow (Shift.lsr.byAmount c x k) else (0, 0xFFFF)
  | .ror =>
    if k = 0 then narrow (x, c)
    else if n = 0 then narrow (x, false)
    else narrow (Shift.lsr.byAmount c x n)

theorem shiftByRegister_eq (hrd : rdest.toNat < 16) :
    shiftByRegister h p rdest op (ofBool c) =
      registerShift c (low (rmValue p op)) (rsField op) (16 * rdest.toNat + rsField op)
        (shiftField op) := by
  have hn := rsField_lt op
  have hk := toNat_rs7 rdest op hrd
  have hrs := toNat_u8_rs op
  have hmsb := msb_low (rmValue p op)
  have htop := getLsbD_low_last (rmValue p op)
  have hrs7 : u8 ((u32 rdest <<< 4) ||| u32 (u8 (op.extractLsb' 8 4))) = rs7 rdest op := rfl
  have hzero : rs7 rdest op = 0 ↔ (rs7 rdest op).toNat = 0 := by rw [← BitVec.toNat_inj]; rfl
  have hless : rs7 rdest op < 32 ↔ (rs7 rdest op).toNat < 32 := by rw [BitVec.lt_def]; rfl
  have heq : rs7 rdest op = 32 ↔ (rs7 rdest op).toNat = 32 := by rw [← BitVec.toNat_inj]; rfl
  unfold shiftByRegister
  simp only [u8_rs, hrs7]
  simp only [u8_shift, u8_rm, u8_bit, u32_u8, u16_u8, u8_rs_eq_zero, hrs, hzero, hless, heq, hk]
  rw [← rmValue, ite_shift, ← shiftField]
  generalize low (rmValue p op) = x at hmsb htop ⊢
  generalize 16 * rdest.toNat + rsField op = k at hk ⊢
  cases hs : shiftField op with
  | lsl =>
    dsimp only [registerShift]
    by_cases hk0 : k = 0
    · rw [if_pos hk0, hk0]
      rfl
    · rw [if_neg hk0, Shift.byAmount_lsl hk0]
      by_cases hlt : k < 32
      · rw [if_pos hlt, decide_eq_true (by omega), Bool.true_and]
        rfl
      · rw [if_neg hlt, BitVec.shiftLeft_eq_zero (by omega)]
        by_cases h32 : k = 32
        · have hbit : u8 (x &&& 1) = ofBool (x.getLsbD 0) := by
            rw [← u8_bit, BitVec.ushiftRight_zero]
          rw [if_pos h32, hbit, h32]
          rfl
        · rw [if_neg h32, decide_eq_false (by omega)]
          rfl
  | lsr =>
    dsimp only [registerShift]
    by_cases hk0 : k = 0
    · rw [if_pos hk0, hk0]
      rfl
    · rw [if_neg hk0, Shift.byAmount_lsr hk0]
      by_cases hlt : k < 32
      · rw [if_pos hlt]
        rfl
      · rw [if_neg hlt, BitVec.ushiftRight_eq_zero (by omega)]
        by_cases h32 : k = 32
        · rw [if_pos h32, h32]
          rfl
        · rw [if_neg h32, BitVec.getLsbD_of_ge x _ (by omega)]
          rfl
  | asr =>
    dsimp only [registerShift]
    by_cases hk0 : k = 0
    · rw [if_pos hk0, if_pos (by omega), hk0]
      rfl
    · rw [if_neg hk0]
      by_cases hlt : k < 32
      · rw [if_pos hlt, if_pos hlt, asr_eq h x (by omega) (by omega), hk,
          BitVec.sshiftRight_eq_of_msb_false hmsb, Shift.byAmount_lsr hk0]
        rfl
      · have hsign : ¬ (x >>> 31) &&& 1 ≠ 0 := by
          rw [← getBit, getBit_31, hmsb]
          exact Bool.false_ne_true
        rw [if_neg hlt, if_neg hlt, if_neg hsign, htop]
        rfl
  | ror =>
    dsimp only [registerShift]
    by_cases hk0 : k = 0
    · rw [if_pos hk0, if_pos hk0]
      rfl
    · rw [if_neg hk0, if_neg hk0]
      by_cases hn0 : rsField op = 0
      · rw [if_pos hn0, if_pos hn0, htop]
        rfl
      · rw [if_neg hn0, if_neg hn0, asr_eq h x (by omega) (by omega), hrs,
          BitVec.sshiftRight_eq_of_msb_false hmsb, Shift.byAmount_lsr hn0]
        rfl

end

/-! ## One result for every destination -/

/-- When a shift of `x` by the amount `s`, taken from register `n`, is delivered for every
destination. -/
def RightByRegister (x : Word) (n s : Nat) (c : Bool) : Shift → Prop
  | .lsl => ((n = 0 ∨ s = 0) → c = false) ∧
      ∀ j < 32, j + s ≤ 32 ∨ j < 8 ∧ j + n ≤ 16 → x.getLsbD j = false
  | .lsr => ((n = 0 ∨ s = 0) → c = false) ∧
      ∀ j < 32, s ≤ j + 1 ∨ j < 8 ∧ n ≤ j + 1 → x.getLsbD j = false
  | .asr => False
  | .ror => ((n = 0 ∨ s = 0) → c = false) ∧
      (x = 0#32 ∨ s % 32 = n ∧ ∀ j < 32, 8 ≤ j ∨ j < n → x.getLsbD j = false)

instance (x : Word) (n s : Nat) (c : Bool) (shift : Shift) :
    Decidable (RightByRegister x n s c shift) :=
  match shift with
  | .lsl => inferInstanceAs (Decidable (_ ∧ ∀ j < 32, _ → _))
  | .lsr => inferInstanceAs (Decidable (_ ∧ ∀ j < 32, _ → _))
  | .asr => inferInstanceAs (Decidable False)
  | .ror => inferInstanceAs (Decidable (_ ∧ (_ ∨ _ ∧ ∀ j < 32, _ → _)))

theorem delivers_zero (spec : Word × Bool) :
    Delivers (narrow (0#32, false)) spec ↔ spec = (0#32, false) := by
  have hcarry : ofBool false = ofBool spec.2 ↔ spec.2 = false := by cases spec.2 <;> decide
  rw [Delivers, narrow, hcarry, Prod.ext_iff]
  exact and_congr_left fun _ => eq_comm

theorem narrow_delivers_zero (v : Word × Bool) :
    Delivers (narrow v) (0#32, false) ↔ (∀ j < 16, v.1.getLsbD j = false) ∧ v.2 = false := by
  rw [delivers_narrow]
  refine and_congr_left fun _ => ⟨fun hall j hj => ?_, fun hall j _ => ?_⟩
  · have hbit := hall j (by omega)
    rwa [decide_eq_true hj, Bool.true_and, BitVec.getLsbD_zero] at hbit
  · rw [BitVec.getLsbD_zero, Bool.and_eq_false_iff, decide_eq_false_iff_not]
    exact (Nat.lt_or_ge j 16).symm.imp Nat.not_lt.mpr (hall j)

/-- A result that is zero for one destination can only be right if it is zero for all. -/
theorem forall_delivers_iff {v : Nat → Word × Bool} (hthree : v 3 = (0#32, false))
    {spec : Word × Bool} :
    (∀ k < 16, Delivers (narrow (v k)) spec) ↔
      spec = (0#32, false) ∧ ∀ k < 16, Delivers (narrow (v k)) (0#32, false) := by
  constructor
  · intro hall
    have hspec := hall 3 (by decide)
    rw [hthree, delivers_zero] at hspec
    exact ⟨hspec, hspec ▸ hall⟩
  · rintro ⟨rfl, hall⟩
    exact hall

section
variable {c : Bool} {x : Word} {n s : Nat}

theorem lsl_zeros_iff (hn : n < 16) :
    (∀ k < 16, Delivers (narrow (Shift.lsl.byAmount c (low x) (16 * k + n))) (0#32, false)) ↔
      (n = 0 → c = false) ∧ ∀ j < 8, j + n ≤ 16 → x.getLsbD j = false := by
  simp only [narrow_delivers_zero, Shift.byAmount_lsl_fst, BitVec.getLsbD_shiftLeft]
  constructor
  · intro hall
    obtain ⟨hvalue, hcarry⟩ := hall 0 (by decide)
    refine ⟨?_, fun j h8 hin => ?_⟩
    · rintro rfl
      exact hcarry
    · by_cases hlast : j + n = 16
      · -- the bit that the destination number 1 carries out
        have hcarry1 := (hall 1 (by decide)).2
        rw [Shift.byAmount_lsl (by omega), decide_eq_true (by omega), Bool.true_and,
          show 32 - (16 * 1 + n) = j by omega, getLsbD_low_of_lt h8] at hcarry1
        exact hcarry1
      · have hbit := hvalue (j + n) (by omega)
        rwa [decide_eq_true (by omega), decide_eq_false (by omega),
          show j + n - (16 * 0 + n) = j by omega, getLsbD_low_of_lt h8] at hbit
  · rintro ⟨hcarry, hbits⟩ k hk
    have hlow : ∀ j, j + n ≤ 16 → (low x).getLsbD j = false := by
      intro j hin
      rw [getLsbD_low, Bool.and_eq_false_iff]
      by_cases h8 : j < 8
      · exact .inr (hbits j h8 hin)
      · exact .inl (decide_eq_false h8)
    constructor
    · intro j hj
      by_cases hin : 16 * k + n ≤ j
      · rw [hlow _ (by omega), Bool.and_false]
      · rw [decide_eq_true (show j < 16 * k + n by omega), Bool.not_true, Bool.and_false,
          Bool.false_and]
    · by_cases hzero : 16 * k + n = 0
      · rw [hzero, Shift.byAmount_zero]
        exact hcarry (by omega)
      · rw [Shift.byAmount_lsl hzero, Bool.and_eq_false_iff]
        by_cases h8 : 16 * k + n ≤ 32 ∧ 32 - (16 * k + n) < 8
        · exact .inr (hlow _ (by omega))
        · rw [getLsbD_low, Bool.and_eq_false_iff]
          simp only [decide_eq_false_iff_not]
          omega

theorem lsr_zeros_iff :
    (∀ k < 16, Delivers (narrow (Shift.lsr.byAmount c (low x) (16 * k + n))) (0#32, false)) ↔
      (n = 0 → c = false) ∧ ∀ j < 8, n ≤ j + 1 → x.getLsbD j = false := by
  simp only [narrow_delivers_zero, Shift.byAmount_lsr_fst, BitVec.getLsbD_ushiftRight]
  constructor
  · intro hall
    obtain ⟨hvalue, hcarry⟩ := hall 0 (by decide)
    rw [Nat.mul_zero, Nat.zero_add] at hvalue hcarry
    refine ⟨?_, fun j h8 hin => ?_⟩
    · rintro rfl
      exact hcarry
    · by_cases hlast : n = j + 1
      · rwa [Shift.byAmount_lsr (by omega), hlast, Nat.add_sub_cancel,
          getLsbD_low_of_lt h8] at hcarry
      · have hbit := hvalue (j - n) (by omega)
        rwa [Nat.add_sub_cancel' (by omega), getLsbD_low_of_lt h8] at hbit
  · rintro ⟨hcarry, hbits⟩ k hk
    have hlow : ∀ j, n ≤ j + 1 → (low x).getLsbD j = false := by
      intro j hin
      rw [getLsbD_low, Bool.and_eq_false_iff]
      by_cases h8 : j < 8
      · exact .inr (hbits j h8 hin)
      · exact .inl (decide_eq_false h8)
    refine ⟨fun j hj => hlow _ (by omega), ?_⟩
    by_cases hzero : 16 * k + n = 0
    · rw [hzero, Shift.byAmount_zero]
      exact hcarry (by omega)
    · rw [Shift.byAmount_lsr hzero]
      exact hlow _ (by omega)

theorem both_clear_iff {kept low : Nat → Prop} :
    ((s = 0 → c = false) ∧ ∀ j < 32, kept j → x.getLsbD j = false) ∧
        ((n = 0 → c = false) ∧ ∀ j < 8, low j → x.getLsbD j = false) ↔
      ((n = 0 ∨ s = 0) → c = false) ∧
        ∀ j < 32, kept j ∨ j < 8 ∧ low j → x.getLsbD j = false := by
  constructor
  · rintro ⟨⟨hcarry, hbits⟩, hcarry', hbits'⟩
    refine ⟨fun hzero => hzero.elim hcarry' hcarry, fun j hj hin => ?_⟩
    exact hin.elim (hbits j hj) fun hlow => hbits' j hlow.1 hlow.2
  · rintro ⟨hcarry, hbits⟩
    refine ⟨⟨fun hs => hcarry (.inr hs), fun j hj hin => hbits j hj (.inl hin)⟩,
      fun hn0 => hcarry (.inl hn0), fun j h8 hin => hbits j (by omega) (.inr ⟨h8, hin⟩)⟩

theorem lsl_register_iff (hn : n < 16) :
    (∀ k < 16, Delivers (registerShift c (low x) n (16 * k + n) .lsl)
      (Shift.lsl.byAmount c x s)) ↔ RightByRegister x n s c .lsl := by
  have hthree : Shift.lsl.byAmount c (low x) (16 * 3 + n) = (0#32, false) := by
    rw [Shift.byAmount_lsl (by omega), BitVec.shiftLeft_eq_zero (by omega),
      decide_eq_false (by omega), Bool.false_and]
  simp only [registerShift, RightByRegister]
  rw [forall_delivers_iff hthree, lsl_zeros_iff hn, Shift.lsl_eq_zero_iff]
  exact both_clear_iff

theorem lsr_register_iff :
    (∀ k < 16, Delivers (registerShift c (low x) n (16 * k + n) .lsr)
      (Shift.lsr.byAmount c x s)) ↔ RightByRegister x n s c .lsr := by
  have hthree : Shift.lsr.byAmount c (low x) (16 * 3 + n) = (0#32, false) := by
    rw [Shift.byAmount_lsr (by omega), BitVec.ushiftRight_eq_zero (by omega),
      BitVec.getLsbD_of_ge _ _ (by omega)]
  simp only [registerShift, RightByRegister]
  rw [forall_delivers_iff hthree, lsr_zeros_iff, Shift.lsr_eq_zero_iff]
  exact both_clear_iff

/-- Destination 1 shifts the low byte out, destination 2 delivers `0xFFFF`. -/
theorem not_asr_register (hn : n < 16) (spec : Word × Bool) :
    ¬ ∀ k < 16, Delivers (registerShift c (low x) n (16 * k + n) .asr) spec := by
  intro hall
  have hout : low x >>> (16 * 1 + n) = 0#32 := by
    apply BitVec.eq_of_getLsbD_eq
    intro i hi
    rw [BitVec.getLsbD_ushiftRight, getLsbD_low_of_le (by omega), BitVec.getLsbD_zero]
  have hone := (hall 1 (by decide)).1
  have htwo := (hall 2 (by decide)).1
  rw [registerShift, if_pos (by omega), narrow, Shift.byAmount_lsr (by omega), hout] at hone
  rw [registerShift, if_neg (by omega), ← hone] at htwo
  have hne : ¬ u32 (0xFFFF : Half) = u32 (u16 (0#32)) := by decide
  exact hne htwo

/-- No value has a property whose holders all have a holder of smaller measure. -/
theorem not_of_measure {P : Nat → Prop} (μ : Nat → Nat)
    (hstep : ∀ j, P j → ∃ i, P i ∧ μ i < μ j) (j : Nat) : ¬ P j := by
  induction j using (measure μ).wf.induction with
  | h j ih =>
    intro hj
    obtain ⟨i, hi, hless⟩ := hstep j hj
    exact ih i hless hi

/-- A rotation by `s` shifts the low byte down by `n` exactly if the amounts agree and only zeros go
round: with two different amounts a set bit would go up, or down, for ever. -/
theorem rotateRight_eq_low_iff (hn : n < 16) :
    x.rotateRight s = low x >>> n ↔
      x = 0#32 ∨ s % 32 = n ∧ ∀ j < 32, 8 ≤ j ∨ j < n → x.getLsbD j = false := by
  have ht : s % 32 < 32 := Nat.mod_lt s (by decide)
  have hrotate : ∀ i < 32, (x.rotateRight s).getLsbD i = x.getLsbD ((i + s % 32) % 32) := by
    intro i hi
    rw [Shift.getLsbD_rotateRight_of_lt_width hi, Nat.add_mod_mod]
  have hshift : ∀ i, (low x >>> n).getLsbD i = (decide (n + i < 8) && x.getLsbD (n + i)) := by
    intro i
    rw [BitVec.getLsbD_ushiftRight, getLsbD_low]
  constructor
  · intro hvalue
    -- where a set bit comes from
    have hfrom : ∀ j < 32, x.getLsbD j = true →
        n + (j + 32 - s % 32) % 32 < 8 ∧ x.getLsbD (n + (j + 32 - s % 32) % 32) = true := by
      intro j hj hset
      have hbit := hrotate ((j + 32 - s % 32) % 32) (Nat.mod_lt _ (by decide))
      rw [hvalue, hshift, show ((j + 32 - s % 32) % 32 + s % 32) % 32 = j by omega, hset,
        Bool.and_eq_true, decide_eq_true_iff] at hbit
      exact hbit
    have hclear : (∀ j, ¬ (j < 8 ∧ x.getLsbD j = true)) → x = 0#32 := by
      intro hnone
      apply BitVec.eq_of_getLsbD_eq
      intro j hj
      rw [BitVec.getLsbD_zero, Bool.eq_false_iff]
      exact fun hset => hnone _ (hfrom j hj hset)
    by_cases hsame : s % 32 = n
    · refine .inr ⟨hsame, fun j hj hout => ?_⟩
      rw [Bool.eq_false_iff]
      intro hset
      have hless := (hfrom j hj hset).1
      omega
    · refine .inl (hclear ?_)
      by_cases hup : s % 32 < n ∨ 8 ≤ s % 32
      · refine not_of_measure (fun j => 8 - j) fun j hj => ?_
        exact ⟨_, hfrom j (by omega) hj.2, by omega⟩
      · refine not_of_measure (fun j => j) fun j hj => ?_
        have hless := (hfrom j (by omega) hj.2).1
        exact ⟨_, hfrom j (by omega) hj.2, by omega⟩
  · rintro (rfl | ⟨hsame, hclear⟩)
    · apply BitVec.eq_of_getLsbD_eq
      intro i hi
      rw [hrotate i hi, hshift, BitVec.getLsbD_zero, BitVec.getLsbD_zero, Bool.and_false]
    · apply BitVec.eq_of_getLsbD_eq
      intro i hi
      rw [hrotate i hi, hshift, hsame]
      by_cases hin : n + i < 8
      · rw [decide_eq_true hin, Bool.true_and, Nat.mod_eq_of_lt (by omega), Nat.add_comm]
      · rw [decide_eq_false hin, Bool.false_and]
        exact hclear _ (by omega) (by omega)

theorem narrow_low_delivers (b : Bool) (spec : Word × Bool) :
    Delivers (narrow (low x >>> n, b)) spec ↔ spec = (low x >>> n, b) := by
  have hfits : u32 (u16 (low x >>> n)) = low x >>> n := by
    apply BitVec.eq_of_getLsbD_eq
    intro i hi
    rw [BitVec.getLsbD_setWidth, BitVec.getLsbD_setWidth, BitVec.getLsbD_ushiftRight,
      decide_eq_true hi, Bool.true_and]
    by_cases hin : i < 16
    · rw [decide_eq_true hin, Bool.true_and]
    · rw [decide_eq_false hin, Bool.false_and, getLsbD_low_of_le (by omega)]
  have hcarry : ofBool b = ofBool spec.2 ↔ spec.2 = b := by
    cases b <;> cases spec.2 <;> decide
  rw [Delivers, narrow, hfits, hcarry, Prod.ext_iff]
  exact and_congr_left fun _ => eq_comm

/-- What a rotation is right for: it goes round by the number of the register, and no bit is lost. -/
def RotatesDown (x : Word) (n s : Nat) : Prop :=
  x = 0#32 ∨ s % 32 = n ∧ ∀ j < 32, 8 ≤ j ∨ j < n → x.getLsbD j = false

/-- The carry-out of a rotation of the source, but for the amount 0. -/
def rorCarry (x : Word) (n : Nat) : Bool := decide (n ≠ 0) && (low x).getLsbD (n - 1)

theorem registerShift_ror (k : Nat) :
    registerShift c (low x) n (16 * k + n) .ror =
      narrow (low x >>> n, if 16 * k + n = 0 then c else rorCarry x n) := by
  rw [registerShift, rorCarry]
  by_cases hn0 : n = 0
  · subst hn0
    rw [if_pos rfl, BitVec.ushiftRight_zero]
    split <;> rfl
  · rw [if_neg (by omega), if_neg hn0, if_neg (by omega), Shift.byAmount_lsr hn0,
      decide_eq_true hn0, Bool.true_and]

theorem RotatesDown.carry (hright : RotatesDown x n s) (hn : n < 16) : rorCarry x n = false := by
  rw [rorCarry, Bool.and_eq_false_iff]
  by_cases hn0 : n = 0
  · exact .inl (decide_eq_false (not_not.mpr hn0))
  · refine .inr ?_
    rcases hright with rfl | ⟨-, hclear⟩
    · rw [getLsbD_low, BitVec.getLsbD_zero, Bool.and_false]
    · rw [getLsbD_low, hclear _ (by omega) (.inr (by omega)), Bool.and_false]

theorem ror_eq_low_iff (hn : n < 16) :
    Shift.ror.byAmount c x s = (low x >>> n, rorCarry x n) ↔
      (s = 0 → c = false) ∧ RotatesDown x n s := by
  have hcarry : RotatesDown x n s → rorCarry x n = false := fun hright => hright.carry hn
  rw [RotatesDown, ← rotateRight_eq_low_iff hn] at hcarry ⊢
  by_cases hs : s = 0
  · have hrotate : x.rotateRight 0 = x := by
      apply BitVec.eq_of_getLsbD_eq
      intro i hi
      rw [Shift.getLsbD_rotateRight_of_lt_width hi, Nat.add_zero, Nat.mod_eq_of_lt hi]
    subst hs
    rw [hrotate] at hcarry ⊢
    rw [Shift.byAmount_zero, Prod.mk.injEq]
    constructor
    · rintro ⟨hvalue, hc⟩
      exact ⟨fun _ => hc.trans (hcarry hvalue), hvalue⟩
    · rintro ⟨hc, hvalue⟩
      exact ⟨hvalue, (hc rfl).trans (hcarry hvalue).symm⟩
  · have hmsb : (low x >>> n).msb = false := by
      rw [BitVec.msb_eq_getLsbD_last, BitVec.getLsbD_ushiftRight, getLsbD_low_of_le (by omega)]
    rw [Shift.byAmount_ror hs, Prod.mk.injEq]
    constructor
    · rintro ⟨hvalue, -⟩
      exact ⟨fun h0 => absurd h0 hs, hvalue⟩
    · rintro ⟨-, hvalue⟩
      exact ⟨hvalue, by rw [hvalue, hmsb, hcarry hvalue]⟩

theorem ror_register_iff (hn : n < 16) :
    (∀ k < 16, Delivers (registerShift c (low x) n (16 * k + n) .ror)
      (Shift.ror.byAmount c x s)) ↔ RightByRegister x n s c .ror := by
  simp only [registerShift_ror, narrow_low_delivers]
  constructor
  · intro hall
    have hone := hall 1 (by decide)
    rw [if_neg (by omega)] at hone
    obtain ⟨hc, hright⟩ := (ror_eq_low_iff hn).mp hone
    refine ⟨?_, hright⟩
    rintro (rfl | hs)
    · -- destination 0 hands the old carry on
      have hzero := hall 0 (by decide)
      rw [if_pos rfl, hone] at hzero
      exact (congrArg Prod.snd hzero).symm.trans (hright.carry hn)
    · exact hc hs
  · rintro ⟨hc, hright⟩ k hk
    rw [(ror_eq_low_iff hn).mpr ⟨fun hs => hc (.inr hs), hright⟩]
    by_cases hzero : 16 * k + n = 0
    · rw [if_pos hzero, hc (.inl (by omega)), RotatesDown.carry hright hn]
    · rw [if_neg hzero]

end

section
variable (h : Host) (p : ArmCoreData) (op : Half) (c : Bool)

/-- A shift by a register is delivered for every destination. -/
def ShiftsByRegister : Prop :=
  ∀ rdest : Byte, rdest.toNat < 16 →
    Delivers (updateShifterOperand h p rdest op 0 (ofBool c))
      ((shiftField op).byAmount c (rmValue p op) (rsAmount p op))

/-- A shift by a register is right exactly in the cases of `RightByRegister`: the source makes the
amount of the numbers of `Rd` and `Rs`. -/
theorem shiftByRegister_iff (h4 : op.getLsbD 4 = true) :
    ShiftsByRegister h p op c ↔
      RightByRegister (rmValue p op) (rsField op) (rsAmount p op) c (shiftField op) := by
  have hn := rsField_lt op
  have hnumber : ShiftsByRegister h p op c ↔ ∀ k < 16,
      Delivers (registerShift c (low (rmValue p op)) (rsField op) (16 * k + rsField op)
        (shiftField op)) ((shiftField op).byAmount c (rmValue p op) (rsAmount p op)) := by
    constructor
    · intro hlaw k hk
      have hk8 : (BitVec.ofNat 8 k).toNat = k := Nat.mod_eq_of_lt (by omega)
      have hright := hlaw (BitVec.ofNat 8 k) (by omega)
      rwa [updateShifterOperand_register op h p _ _ h4, shiftByRegister_eq h p _ op c (by omega),
        hk8] at hright
    · intro hall rdest hrd
      rw [updateShifterOperand_register op h p _ _ h4, shiftByRegister_eq h p _ op c hrd]
      exact hall _ hrd
  rw [hnumber]
  cases hs : shiftField op with
  | lsl => exact lsl_register_iff hn
  | lsr => exact lsr_register_iff
  | asr => exact iff_of_false (not_asr_register hn _) id
  | ror => exact ror_register_iff hn

end

/-- `MOV r1, r0, LSL r0` with 0 in `r0`. -/
theorem shiftByRegister_iff_zero : ShiftsByRegister Host.x86 (coreAt 0) 0x010 false :=
  (shiftByRegister_iff Host.x86 (coreAt 0) 0x010 false (by decide)).mpr (by decide)

/-- A core with 1 in `r0` and `r1`. -/
def coreOfOnes : ArmCoreData := armWriteUsrRegister (coreWith 1) 1 1

/-- `MOV r0, r0, LSL r1` should give 2: it gives 2 in `r0`, and 0 in `r2`. -/
theorem shiftByRegister_iff_one :
    (shiftField 0x110).byAmount false (rmValue coreOfOnes 0x110) (rsAmount coreOfOnes 0x110) =
      (2, false) ∧
    updateShifterOperand Host.x86 coreOfOnes 0 0x110 0 (ofBool false) = (0, 2) ∧
    updateShifterOperand Host.x86 coreOfOnes 2 0x110 0 (ofBool false) = (0, 0) ∧
    ¬ ShiftsByRegister Host.x86 coreOfOnes 0x110 false := by
  refine ⟨by decide, by decide, by decide, fun hlaw => ?_⟩
  exact absurd (hlaw 2 (by decide)).1 (by decide)

end Armator
