import Mathlib.Algebra.Order.Ring.Int
import Armator.Lib.Shift

/-!
# The C host

The fixed-width types of the sources (`Byte`, `Half` and `Word` are `uint8_t`, `uint16_t` and
`uint32_t`), the conversions `u8`, `u16` and `u32` to them, and what the C standard leaves to the
host: its byte order, the order in which the arguments of a call are evaluated, the result of a
shift whose count is not in `0..31`, and the content of a local variable that is read before it is
written. Everything else of C that the simulator uses is modelled by the operations of `BitVec`:
unsigned arithmetic modulo `2^w`, `int` as a 32-bit word in two's complement (with the wrap-around
every host the simulator is built for has), conversions that keep the low bits.

The second half is `util.c`.
-/

namespace Armator

abbrev Byte := BitVec 8
abbrev Half := BitVec 16
abbrev Word := BitVec 32

abbrev u8 {n : Nat} (x : BitVec n) : Byte := x.setWidth 8
abbrev u16 {n : Nat} (x : BitVec n) : Half := x.setWidth 16
abbrev u32 {n : Nat} (x : BitVec n) : Word := x.setWidth 32

theorem toNat_u32 {n : Nat} (hn : n ≤ 32) (x : BitVec n) : (u32 x).toNat = x.toNat :=
  BitVec.toNat_setWidth_of_le hn

theorem u8_ushiftRight {n : Nat} (x : BitVec n) (k : Nat) :
    u8 (x >>> k) = BitVec.ofNat 8 (x.toNat / 2 ^ k) := by
  apply BitVec.eq_of_toNat_eq
  simp only [BitVec.toNat_setWidth, BitVec.toNat_ushiftRight, Nat.shiftRight_eq_div_pow,
    BitVec.toNat_ofNat]

theorem u8_and_255 {n : Nat} (hn : 8 ≤ n) (x : BitVec n) : u8 (x &&& 255) = u8 x := by
  have hpow : 2 ^ 8 ≤ 2 ^ n := Nat.pow_le_pow_right (by decide) hn
  have h255 : (255 : BitVec n).toNat = 2 ^ 8 - 1 :=
    Nat.mod_eq_of_lt (Nat.lt_of_lt_of_le (by decide) hpow)
  apply BitVec.eq_of_toNat_eq
  rw [BitVec.toNat_setWidth, BitVec.toNat_and, h255, Nat.and_two_pow_sub_one_eq_mod, Nat.mod_mod,
    BitVec.toNat_setWidth]

theorem u8_field {w : Nat} (x : BitVec w) (i : Nat) {n : Nat} {mask : BitVec w}
    (hmask : mask.toNat = 2 ^ n - 1) : u8 ((x >>> i) &&& mask) = u8 (x.extractLsb' i n) := by
  apply BitVec.eq_of_toNat_eq
  simp only [BitVec.toNat_setWidth, BitVec.toNat_and, hmask, Nat.and_two_pow_sub_one_eq_mod,
    BitVec.extractLsb'_toNat, BitVec.toNat_ushiftRight]

theorem u8_low_field {w : Nat} (x : BitVec w) {n : Nat} {mask : BitVec w}
    (hmask : mask.toNat = 2 ^ n - 1) : u8 (x &&& mask) = u8 (x.extractLsb' 0 n) := by
  have hfield := u8_field x 0 hmask
  rwa [BitVec.ushiftRight_zero] at hfield

theorem u8_nibble (x : Word) (i : Nat) : u8 ((x >>> i) &&& 15) = u8 (x.extractLsb' i 4) :=
  u8_field x i rfl

/-- The value of a C comparison or of a logical operator. -/
def ofBool (b : Bool) : Byte := if b then 1 else 0

theorem ofBool_ne_zero (b : Bool) : ofBool b ≠ 0 ↔ b = true := by cases b <;> decide

theorem u8_bit (x : Word) (i : Nat) : u8 ((x >>> i) &&& 1) = ofBool (x.getLsbD i) := by
  have hone : (1 : Word) = 1#32 := rfl
  rw [hone, BitVec.and_one_eq_setWidth_ofBool_getLsbD, BitVec.getLsbD_ushiftRight, Nat.add_zero]
  cases x.getLsbD i <;> rfl

theorem u8_bit_half (x : Half) (i : Nat) : u8 ((x >>> i) &&& 1) = ofBool (x.getLsbD i) := by
  have hone : (1 : Half) = 1#16 := rfl
  rw [hone, BitVec.and_one_eq_setWidth_ofBool_getLsbD, BitVec.getLsbD_ushiftRight, Nat.add_zero]
  cases x.getLsbD i <;> rfl

theorem u8_bit_ne_zero (x : Word) (i : Nat) : u8 ((x >>> i) &&& 1) ≠ 0 ↔ x.getLsbD i = true := by
  rw [u8_bit, ofBool_ne_zero]

theorem u8_bit_eq_zero (x : Word) (i : Nat) : u8 ((x >>> i) &&& 1) = 0 ↔ x.getLsbD i = false := by
  rw [← not_iff_not, ← ne_eq, u8_bit_ne_zero, Bool.not_eq_false]

/-- What C leaves to the host. -/
structure Host where
  bigEndian : Bool
  /-- The arguments of a call are evaluated from the last to the first. -/
  rightToLeft : Bool
  /-- `x << n` for a count outside `0..31`. -/
  shlOut : Word → Int → Word
  /-- `x >> n` for a count outside `0..31`. -/
  shrOut : Word → Int → Word
  /-- The content of a `w`-bit local variable that has not been written. -/
  garbage : (w : Nat) → BitVec w

namespace Host

def shl (h : Host) (x : Word) (n : Int) : Word :=
  if 0 ≤ n ∧ n < 32 then x <<< n.toNat else h.shlOut x n

def shr (h : Host) (x : Word) (n : Int) : Word :=
  if 0 ≤ n ∧ n < 32 then x >>> n.toNat else h.shrOut x n

/-! ## Object representations -/

/-- Byte `i` in memory of a 32-bit object of value `x`. -/
def objectByte (h : Host) (x : Word) (i : Nat) : Byte :=
  u8 (x >>> (8 * if h.bigEndian then 3 - i else i))

/-- The value of a 32-bit object with bytes `b 0`, `b 1`, `b 2`, `b 3` in memory. -/
def ofObject (h : Host) (b : Nat → Byte) : Word :=
  if h.bigEndian then b 0 ++ b 1 ++ b 2 ++ b 3 else b 3 ++ b 2 ++ b 1 ++ b 0

theorem toNat_append_bytes (b3 b2 b1 b0 : Byte) :
    (b3 ++ b2 ++ b1 ++ b0).toNat =
      b3.toNat * 2 ^ 24 + b2.toNat * 2 ^ 16 + b1.toNat * 2 ^ 8 + b0.toNat := by
  have h3 := b3.isLt
  have h2 := b2.isLt
  have h1 := b1.isLt
  have h0 := b0.isLt
  simp only [BitVec.toNat_append]
  rw [← Nat.shiftLeft_add_eq_or_of_lt (by omega), ← Nat.shiftLeft_add_eq_or_of_lt (by omega),
    ← Nat.shiftLeft_add_eq_or_of_lt (by omega)]
  simp only [Nat.shiftLeft_eq]
  omega

/-- An x86 host: little-endian, shift counts taken modulo 32, unwritten locals zero. -/
def x86 : Host where
  bigEndian := false
  rightToLeft := true
  shlOut x n := x <<< (n % 32).toNat
  shrOut x n := x >>> (n % 32).toNat
  garbage _ := 0

/-- A big-endian host. -/
def bigEndianHost : Host := { Host.x86 with bigEndian := true }

end Host

/-! ## `util.c` -/

def getBit (x : Word) (i : Nat) : Word := (x >>> i) &&& 1

theorem getBit_ne_zero (x : Word) (i : Nat) : getBit x i ≠ 0 ↔ x.getLsbD i = true := by
  have hone : (1 : Word) = 1#32 := rfl
  rw [getBit, hone, BitVec.and_one_eq_setWidth_ofBool_getLsbD, BitVec.getLsbD_ushiftRight,
    Nat.add_zero]
  cases x.getLsbD i <;> decide

def asr (h : Host) (value : Word) (shift : Byte) : Word :=
  h.shr value shift.toNat |||
    if getBit value 31 ≠ 0 then h.shl (~~~0) (32 - (shift.toNat : Int)) else 0

def ror (h : Host) (value : Word) (rotation : Byte) : Word :=
  h.shr value rotation.toNat ||| h.shl value (32 - (rotation.toNat : Int))

theorem getBit_31 (x : Word) : getBit x 31 ≠ 0 ↔ x.msb = true := by
  rw [getBit_ne_zero, BitVec.msb_eq_getLsbD_last]

section
variable (h : Host) (x : Word) {n : Byte} (hn : n.toNat ≠ 0) (hlt : n.toNat < 32)

theorem Host.shl_eq {k : Int} (hk : 0 ≤ k) (hlt : k < 32) : h.shl x k = x <<< k.toNat :=
  if_pos ⟨hk, hlt⟩

theorem Host.shr_eq {k : Int} (hk : 0 ≤ k) (hlt : k < 32) : h.shr x k = x >>> k.toNat :=
  if_pos ⟨hk, hlt⟩

theorem Host.shr_zero : h.shr x 0 = x :=
  (h.shr_eq x (by decide) (by decide)).trans (BitVec.ushiftRight_zero x)

theorem Host.shl_32 : h.shl x 32 = h.shlOut x 32 := if_neg (by decide)

/-- The amount 0 shifts by 32 to the left. -/
theorem asr_zero : asr h x 0 = x ||| if x.msb then h.shlOut (~~~0) 32 else 0 := by
  rw [asr]
  simp only [getBit_31]
  show h.shr x 0 ||| (if x.msb = true then h.shl (~~~0) 32 else 0) = _
  rw [h.shr_zero, h.shl_32]

theorem ror_zero : ror h x 0 = x ||| h.shlOut x 32 := by
  show h.shr x 0 ||| h.shl x 32 = _
  rw [h.shr_zero, h.shl_32]

include hn hlt

theorem asr_eq : asr h x n = x.sshiftRight n.toNat := by
  rw [asr, h.shr_eq x (by omega) (by omega), h.shl_eq _ (by omega) (by omega), Int.toNat_natCast]
  cases hmsb : x.msb with
  | false =>
    have hbit : ¬ getBit x 31 ≠ 0 := by rw [getBit_31, hmsb]; exact Bool.false_ne_true
    rw [if_neg hbit, BitVec.sshiftRight_eq_of_msb_false hmsb]
    exact BitVec.or_zero
  | true =>
    have hones : ∀ j < 32, (~~~0 : Word).getLsbD j = true := by decide
    apply BitVec.eq_of_getLsbD_eq
    intro i hi
    rw [if_pos ((getBit_31 x).mpr hmsb), BitVec.getLsbD_or, BitVec.getLsbD_ushiftRight,
      BitVec.getLsbD_shiftLeft, BitVec.getLsbD_sshiftRight, hmsb]
    by_cases hin : n.toNat + i < 32
    · rw [if_pos hin, decide_eq_true (show i < ((32 : Int) - n.toNat).toNat by omega)]
      simp [hi]
    · rw [if_neg hin, hones _ (by omega),
        decide_eq_false (show ¬ i < ((32 : Int) - n.toNat).toNat by omega)]
      simp [hi]

theorem ror_eq : ror h x n = x.rotateRight n.toNat := by
  rw [ror, h.shr_eq x (by omega) (by omega), h.shl_eq _ (by omega) (by omega), Int.toNat_natCast,
    BitVec.rotateRight_def, Nat.mod_eq_of_lt hlt]
  congr 2
  omega

end

/-- What the helpers do for a count from 1 to 31: `asr` divides by a power of 2 and rounds down, so
that the counts of two of them add up, and `ror` is a rotation, which another one undoes. -/
structure ShiftLaw (h : Host) (v : Word) (s : Byte) : Prop where
  floor : (asr h v s).toInt = v.toInt / 2 ^ s.toNat
  bits : ∀ i < 32, (ror h v s).getLsbD i = v.getLsbD ((i + s.toNat) % 32)
  back : ror h (ror h v s) (32 - s) = v
  twice : ∀ t : Byte, 1 ≤ t.toNat → s.toNat + t.toNat ≤ 31 → asr h (asr h v s) t = asr h v (s + t)

/-- **The shift helpers** are right for every count from 1 to 31, on any host. -/
theorem shiftHelpers (h : Host) (v : Word) (s : Byte) (hpos : 1 ≤ s.toNat) (hle : s.toNat ≤ 31) :
    ShiftLaw h v s := by
  constructor
  · rw [asr_eq h v (by omega) (by omega), BitVec.toInt_sshiftRight, Int.shiftRight_eq_div_pow]
    rfl
  · intro i hi
    rw [ror_eq h v (by omega) (by omega), Arm.Shift.getLsbD_rotateRight_of_lt_width hi]
  · have hback : (32 - s).toNat = 32 - s.toNat := by bv_omega
    rw [ror_eq h v (by omega) (by omega), ror_eq h _ (by omega) (by omega), hback]
    exact Arm.Shift.rotateRight_rotateRight (by omega)
  · intro t ht hsum
    have hadd : (s + t).toNat = s.toNat + t.toNat := by bv_omega
    rw [asr_eq h v (by omega) (by omega), asr_eq h _ (by omega) (by omega),
      asr_eq h v (by omega) (by omega), hadd, BitVec.sshiftRight_add]

/-- A negative number halved. -/
theorem shiftHelpers_half : ShiftLaw Host.x86 0xFFFFFFFD 1 :=
  shiftHelpers Host.x86 0xFFFFFFFD 1 (by decide) (by decide)

/-- The first byte of the object `one` is zero exactly on a big-endian host. -/
def isBigEndian (h : Host) : Bool := h.objectByte 1 0 == 0

end Armator
