import Mathlib.Logic.Basic

/-!
# The barrel shifter

The four shifts of the second operand of an ARM instruction on words of any width, each with its
carry-out. An amount that comes from a register is used as it is (`byAmount`); of an amount in the
instruction 0 has a meaning of its own (`byImmediate`).
-/

namespace Arm

inductive Shift where
  | lsl | lsr | asr | ror
  deriving DecidableEq

def Shift.ofBits (bits : BitVec 2) : Shift :=
  match bits with
  | 0 => lsl | 1 => lsr | 2 => asr | _ => ror

namespace Shift

variable {w : Nat}

/-- The value and the carry-out, which is the last bit shifted out. Beyond the width zeros are
shifted out, or copies of the sign, and a rotation goes round again. -/
def byAmount (carry : Bool) (x : BitVec w) (n : Nat) (s : Shift) : BitVec w × Bool :=
  if n = 0 then (x, carry)
  else
    match s with
    | lsl => (x <<< n, decide (n ≤ w) && x.getLsbD (w - n))
    | lsr => (x >>> n, x.getLsbD (n - 1))
    | asr => (x.sshiftRight n, if n ≤ w then x.getLsbD (n - 1) else x.msb)
    | ror => (x.rotateRight n, (x.rotateRight n).msb)

/-- The rotation by one through the carry. -/
def rrx (carry : Bool) (x : BitVec w) : BitVec w :=
  x >>> 1 ||| ((BitVec.ofBool carry).setWidth w <<< (w - 1))

/-- An immediate amount of 0 is no shift to the left, a shift to the right by the whole width, or a
rotation through the carry. -/
def byImmediate (carry : Bool) (x : BitVec w) (n : Nat) (s : Shift) : BitVec w × Bool :=
  match s with
  | lsl => byAmount carry x n lsl
  | lsr => byAmount carry x (if n = 0 then w else n) lsr
  | asr => byAmount carry x (if n = 0 then w else n) asr
  | ror => if n = 0 then (rrx carry x, x.getLsbD 0) else byAmount carry x n ror

/-! ## Bits -/

section
variable {carry : Bool} {x y : BitVec w} {n : Nat}

theorem byAmount_zero (s : Shift) : byAmount carry x 0 s = (x, carry) := if_pos rfl

theorem byAmount_lsl (hn : n ≠ 0) :
    byAmount carry x n lsl = (x <<< n, decide (n ≤ w) && x.getLsbD (w - n)) := if_neg hn

theorem byAmount_lsr (hn : n ≠ 0) : byAmount carry x n lsr = (x >>> n, x.getLsbD (n - 1)) :=
  if_neg hn

theorem byAmount_asr (hn : n ≠ 0) :
    byAmount carry x n asr = (x.sshiftRight n, if n ≤ w then x.getLsbD (n - 1) else x.msb) :=
  if_neg hn

theorem byAmount_ror (hn : n ≠ 0) :
    byAmount carry x n ror = (x.rotateRight n, (x.rotateRight n).msb) := if_neg hn

theorem byAmount_lsl_fst : (byAmount carry x n lsl).1 = x <<< n := by
  by_cases hn : n = 0
  · rw [hn, byAmount_zero, BitVec.shiftLeft_zero]
  · rw [byAmount_lsl hn]

theorem byAmount_lsr_fst : (byAmount carry x n lsr).1 = x >>> n := by
  by_cases hn : n = 0
  · rw [hn, byAmount_zero, BitVec.ushiftRight_zero]
  · rw [byAmount_lsr hn]

theorem byAmount_asr_of_msb_false (hmsb : x.msb = false) (hn : n ≤ w) :
    byAmount carry x n asr = byAmount carry x n lsr := by
  by_cases hzero : n = 0
  · rw [hzero, byAmount_zero, byAmount_zero]
  · rw [byAmount_asr hzero, byAmount_lsr hzero, if_pos hn, BitVec.sshiftRight_eq_of_msb_false hmsb]

theorem getLsbD_rotateRight_of_lt_width {i : Nat} (hi : i < w) :
    (x.rotateRight n).getLsbD i = x.getLsbD ((i + n) % w) := by
  have hn : n % w < w := Nat.mod_lt n (by omega)
  rw [BitVec.getLsbD_rotateRight, ← Nat.add_mod_mod]
  generalize n % w = r at hn ⊢
  by_cases hin : i < w - r
  · rw [decide_eq_true hin, cond_true, Nat.mod_eq_of_lt (show i + r < w by omega), Nat.add_comm]
  · rw [decide_eq_false hin, cond_false, decide_eq_true hi, Bool.true_and,
      Nat.mod_eq_sub_mod (by omega), Nat.mod_eq_of_lt (by omega)]
    congr 1
    omega

theorem rotateRight_rotateRight {m : Nat} (hmn : (m + n) % w = 0) :
    (x.rotateRight m).rotateRight n = x := by
  apply BitVec.eq_of_getLsbD_eq
  intro i hi
  rw [getLsbD_rotateRight_of_lt_width hi,
    getLsbD_rotateRight_of_lt_width (Nat.mod_lt _ (by omega)), Nat.mod_add_mod, Nat.add_assoc,
    Nat.add_comm n m, Nat.add_mod, hmn, Nat.add_zero, Nat.mod_mod, Nat.mod_eq_of_lt hi]

theorem msb_rotateRight_of_lt (hn : n ≠ 0) (hlt : n < w) :
    (x.rotateRight n).msb = x.getLsbD (n - 1) := by
  rw [BitVec.msb_eq_getLsbD_last, getLsbD_rotateRight_of_lt_width (by omega),
    Nat.mod_eq_sub_mod (by omega), Nat.mod_eq_of_lt (by omega)]
  congr 1
  omega

theorem eq_zero_iff : x = 0#w ↔ ∀ j < w, x.getLsbD j = false := by
  rw [BitVec.zero_iff_eq_false]
  refine ⟨fun hx j _ => hx j, fun hx j => ?_⟩
  by_cases hj : j < w
  · exact hx j hj
  · exact BitVec.getLsbD_of_ge x j (by omega)

theorem lsl_eq_zero_iff :
    byAmount carry x n lsl = (0#w, false) ↔
      (n = 0 → carry = false) ∧ ∀ j < w, j + n ≤ w → x.getLsbD j = false := by
  by_cases hn : n = 0
  · subst hn
    rw [byAmount_zero, Prod.mk.injEq, eq_zero_iff]
    constructor
    · rintro ⟨hx, hc⟩
      exact ⟨fun _ => hc, fun j hj _ => hx j hj⟩
    · rintro ⟨hc, hx⟩
      exact ⟨fun j hj => hx j hj (by omega), hc rfl⟩
  · rw [byAmount_lsl hn, Prod.mk.injEq, eq_zero_iff]
    constructor
    · rintro ⟨hvalue, hcarry⟩
      refine ⟨fun h => absurd h hn, fun j _ hin => ?_⟩
      by_cases hlast : j + n = w
      · obtain rfl : j = w - n := by omega
        rwa [decide_eq_true (by omega), Bool.true_and] at hcarry
      · have hbit := hvalue (j + n) (by omega)
        rwa [BitVec.getLsbD_shiftLeft, decide_eq_true (by omega), decide_eq_false (by omega),
          Nat.add_sub_cancel] at hbit
    · rintro ⟨-, hx⟩
      constructor
      · intro j hj
        rw [BitVec.getLsbD_shiftLeft]
        by_cases hin : n ≤ j
        · rw [hx (j - n) (by omega) (by omega), Bool.and_false]
        · rw [decide_eq_true (show j < n by omega), Bool.not_true, Bool.and_false, Bool.false_and]
      · by_cases hle : n ≤ w
        · rw [Bool.and_eq_false_iff]
          by_cases hw : w - n < w
          · exact .inr (hx (w - n) hw (by omega))
          · exact .inr (BitVec.getLsbD_of_ge x _ (by omega))
        · rw [decide_eq_false hle, Bool.false_and]

theorem lsr_eq_zero_iff :
    byAmount carry x n lsr = (0#w, false) ↔
      (n = 0 → carry = false) ∧ ∀ j < w, n ≤ j + 1 → x.getLsbD j = false := by
  by_cases hn : n = 0
  · subst hn
    rw [byAmount_zero, Prod.mk.injEq, eq_zero_iff]
    constructor
    · rintro ⟨hx, hc⟩
      exact ⟨fun _ => hc, fun j hj _ => hx j hj⟩
    · rintro ⟨hc, hx⟩
      exact ⟨fun j hj => hx j hj (by omega), hc rfl⟩
  · rw [byAmount_lsr hn, Prod.mk.injEq, eq_zero_iff]
    constructor
    · rintro ⟨hvalue, hcarry⟩
      refine ⟨fun h => absurd h hn, fun j hj hin => ?_⟩
      by_cases hlast : n = j + 1
      · rwa [hlast, Nat.add_sub_cancel] at hcarry
      · have hbit := hvalue (j - n) (by omega)
        rwa [BitVec.getLsbD_ushiftRight, Nat.add_sub_cancel' (by omega)] at hbit
    · rintro ⟨-, hx⟩
      have hall : ∀ j, n ≤ j + 1 → x.getLsbD j = false := by
        intro j hin
        by_cases hj : j < w
        · exact hx j hj hin
        · exact BitVec.getLsbD_of_ge x j (by omega)
      refine ⟨fun j _ => ?_, hall _ (by omega)⟩
      rw [BitVec.getLsbD_ushiftRight]
      exact hall _ (by omega)

end

end Shift

end Arm
