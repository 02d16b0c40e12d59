import Mathlib.Algebra.Order.Ring.Int

/-!
# The ARM instruction set

What the architecture says about an instruction word and its result, without any machine state: the
condition field and when it holds of the flags, the sixteen data-processing opcodes with the flags
they set, what the conditions say of two numbers after their comparison, the address of a load or
store, and the class an encoding belongs to. Arithmetic is stated in the integers, so that carry,
borrow and overflow are facts about exact values and not about bits.
-/

namespace Arm

/-! ## Flags and conditions -/

structure Flags where
  n : Bool
  z : Bool
  c : Bool
  v : Bool
  deriving DecidableEq

def Flags.ofStatus (cpsr : BitVec 32) : Flags where
  n := cpsr.getLsbD 31
  z := cpsr.getLsbD 30
  c := cpsr.getLsbD 29
  v := cpsr.getLsbD 28

inductive Condition where
  | eq | ne | cs | cc | mi | pl | vs | vc | hi | ls | ge | lt | gt | le | al | nv
  deriving DecidableEq

def Condition.ofBits (bits : BitVec 4) : Condition :=
  match bits with
  | 0 => eq | 1 => ne | 2 => cs | 3 => cc | 4 => mi | 5 => pl | 6 => vs | 7 => vc
  | 8 => hi | 9 => ls | 10 => ge | 11 => lt | 12 => gt | 13 => le | 14 => al | _ => nv

def Condition.holds (f : Flags) : Condition → Bool
  | eq => f.z
  | ne => !f.z
  | cs => f.c
  | cc => !f.c
  | mi => f.n
  | pl => !f.n
  | vs => f.v
  | vc => !f.v
  | hi => f.c && !f.z
  | ls => !f.c || f.z
  | ge => f.n == f.v
  | lt => f.n != f.v
  | gt => !f.z && f.n == f.v
  | le => f.z || f.n != f.v
  | al => true
  | nv => false

def condition (w : BitVec 32) : Condition := .ofBits (w.extractLsb' 28 4)

/-! ## Data processing -/

inductive Opcode where
  | and | eor | sub | rsb | add | adc | sbc | rsc | tst | teq | cmp | cmn | orr | mov | bic | mvn
  deriving DecidableEq

def Opcode.ofBits (bits : BitVec 4) : Opcode :=
  match bits with
  | 0 => and | 1 => eor | 2 => sub | 3 => rsb | 4 => add | 5 => adc | 6 => sbc | 7 => rsc
  | 8 => tst | 9 => teq | 10 => cmp | 11 => cmn | 12 => orr | 13 => mov | 14 => bic | _ => mvn

def Opcode.isComparison : Opcode → Bool
  | tst | teq | cmp | cmn => true
  | _ => false

/-- What an opcode does with its two operands: something bit by bit, or a sum or difference of
integers. -/
inductive Operation where
  | bitwise (f : BitVec 32 → BitVec 32 → BitVec 32)
  | sum (f : Int → Int → Int)
  | difference (f : Int → Int → Int)

def Opcode.operation (carry : Bool) : Opcode → Operation
  | and | tst => .bitwise fun x y => x &&& y
  | eor | teq => .bitwise fun x y => x ^^^ y
  | sub | cmp => .difference fun x y => x - y
  | rsb => .difference fun x y => y - x
  | add | cmn => .sum fun x y => x + y
  | adc => .sum fun x y => x + y + carry.toInt
  | sbc => .difference fun x y => x - y - (!carry).toInt
  | rsc => .difference fun x y => y - x - (!carry).toInt
  | orr => .bitwise fun x y => x ||| y
  | mov => .bitwise fun _ y => y
  | bic => .bitwise fun x y => x &&& ~~~y
  | mvn => .bitwise fun _ y => ~~~y

namespace Operation

variable (x y : BitVec 32)

def result : Operation → BitVec 32
  | bitwise f => f x y
  | sum f | difference f => BitVec.ofInt 32 (f x.toNat y.toNat)

/-- The carry flag: the carry-out of the shifter, the carry out of bit 31, or the absence of a
borrow. -/
def carry (shifterCarry : Bool) : Operation → Bool
  | bitwise _ => shifterCarry
  | sum f => decide (2 ^ 32 ≤ f x.toNat y.toNat)
  | difference f => decide (0 ≤ f x.toNat y.toNat)

/-- The overflow flag: the signed value does not fit. -/
def overflow (old : Bool) : Operation → Bool
  | bitwise _ => old
  | sum f | difference f => !decide (-2 ^ 31 ≤ f x.toInt y.toInt ∧ f x.toInt y.toInt < 2 ^ 31)

/-- The flags an operation leaves, from those before it. -/
def flags (o : Operation) (shifterCarry : Bool) (old : Flags) : Flags where
  n := (o.result x y).msb
  z := o.result x y == 0
  c := o.carry x y shifterCarry
  v := o.overflow x y old.v

end Operation

theorem ofInt_toNat (x : BitVec 32) : BitVec.ofInt 32 x.toNat = x := by
  rw [BitVec.ofInt_natCast, BitVec.ofNat_toNat, BitVec.setWidth_eq]

theorem ofInt_sub (x y : Int) :
    BitVec.ofInt 32 (x - y) = BitVec.ofInt 32 x - BitVec.ofInt 32 y := by
  rw [Int.sub_eq_add_neg, BitVec.ofInt_add, BitVec.ofInt_neg, BitVec.sub_eq_add_neg]

/-! ### Numbers of two words -/

theorem toNat_append_word (hi lo : BitVec 32) :
    (hi ++ lo).toNat = hi.toNat * 2 ^ 32 + lo.toNat := by
  have hlt := lo.isLt
  rw [BitVec.toNat_append, ← Nat.shiftLeft_add_eq_or_of_lt hlt, Nat.shiftLeft_eq]

theorem result_sbc_append_sub (c shifterCarry : Bool) (xh xl yh yl : BitVec 32) :
    (Opcode.sbc.operation ((Opcode.sub.operation c).carry xl yl shifterCarry)).result xh yh ++
      (Opcode.sub.operation c).result xl yl = (xh ++ xl) - (yh ++ yl) := by
  have hxh := xh.isLt
  have hxl := xl.isLt
  have hyh := yh.isLt
  have hyl := yl.isLt
  have hcarry : (Opcode.sub.operation c).carry xl yl shifterCarry =
      decide ((0 : Int) ≤ (xl.toNat : Int) - yl.toNat) := rfl
  apply BitVec.eq_of_toNat_eq
  rw [BitVec.toNat_sub, toNat_append_word, toNat_append_word, toNat_append_word, hcarry]
  simp only [Opcode.operation, Operation.result, BitVec.toNat_ofInt]
  by_cases hborrow : (0 : Int) ≤ (xl.toNat : Int) - yl.toNat
  · rw [decide_eq_true hborrow]
    simp only [Bool.not_true, Bool.toInt_false]
    omega
  · rw [decide_eq_false hborrow]
    simp only [Bool.not_false, Bool.toInt_true]
    omega

/-! ### Comparisons -/

/-- The flags of the difference of two numbers. -/
def Flags.ofDifference (x y : BitVec 32) : Flags :=
  (Opcode.cmp.operation false).flags x y false ⟨false, false, false, false⟩

/-- What a condition on the flags of a difference says of the two numbers, if it compares them. -/
def Condition.relation : Condition → Option (BitVec 32 → BitVec 32 → Prop)
  | eq => some fun x y => x = y
  | ne => some fun x y => x ≠ y
  | cs => some fun x y => y.toNat ≤ x.toNat
  | cc => some fun x y => x.toNat < y.toNat
  | hi => some fun x y => y.toNat < x.toNat
  | ls => some fun x y => x.toNat ≤ y.toNat
  | ge => some fun x y => y.toInt ≤ x.toInt
  | lt => some fun x y => x.toInt < y.toInt
  | gt => some fun x y => y.toInt < x.toInt
  | le => some fun x y => x.toInt ≤ y.toInt
  | mi | pl | vs | vc | al | nv => none

section
variable (x y : BitVec 32)

theorem c_ofDifference : (Flags.ofDifference x y).c = true ↔ y.toNat ≤ x.toNat := by
  show decide ((0 : Int) ≤ (x.toNat : Int) - y.toNat) = true ↔ _
  rw [decide_eq_true_iff]
  omega

theorem z_ofDifference : (Flags.ofDifference x y).z = true ↔ x = y := by
  have hx := x.isLt
  have hy := y.isLt
  show (BitVec.ofInt 32 ((x.toNat : Int) - y.toNat) == 0) = true ↔ _
  rw [beq_iff_eq, ← BitVec.toNat_inj, ← BitVec.toNat_inj, BitVec.toNat_ofInt]
  change (((x.toNat : Int) - y.toNat) % (2 ^ 32 : Nat)).toNat = 0 ↔ _
  omega

theorem n_ofDifference :
    (Flags.ofDifference x y).n = (Flags.ofDifference x y).v ↔ y.toInt ≤ x.toInt := by
  have hx := x.isLt
  have hy := y.isLt
  have hn : (Flags.ofDifference x y).n =
      decide (2 ^ 31 ≤ (((x.toNat : Int) - y.toNat) % (2 ^ 32 : Nat)).toNat) := by
    show (BitVec.ofInt 32 ((x.toNat : Int) - y.toNat)).msb = _
    rw [BitVec.msb_eq_decide, BitVec.toNat_ofInt]
  have hv : (Flags.ofDifference x y).v =
      !decide (-2 ^ 31 ≤ x.toInt - y.toInt ∧ x.toInt - y.toInt < 2 ^ 31) := rfl
  rw [hn, hv, BitVec.toInt_eq_toNat_cond, BitVec.toInt_eq_toNat_cond, Bool.eq_iff_iff,
    Bool.not_eq_true', decide_eq_true_iff, decide_eq_false_iff_not]
  split <;> split <;> omega

variable {x y}

/-- A condition holds of the flags of a difference exactly if its relation holds of the numbers. -/
theorem holds_ofDifference {c : Condition} {r : BitVec 32 → BitVec 32 → Prop}
    (hc : c.relation = some r) : c.holds (.ofDifference x y) = true ↔ r x y := by
  have hcarry := c_ofDifference x y
  have hzero := z_ofDifference x y
  have hsign := n_ofDifference x y
  -- the equality of the numbers is the one of their unsigned and of their signed values
  have hnat : x.toNat = y.toNat ↔ x = y := BitVec.toNat_inj
  have hint : x.toInt = y.toInt ↔ x = y := BitVec.toInt_inj
  generalize Flags.ofDifference x y = f at hcarry hzero hsign ⊢
  cases c <;> simp only [Condition.relation, reduceCtorEq, Option.some.injEq] at hc <;>
    subst hc <;> grind [Condition.holds]

end

/-! ## Addresses -/

section
variable {w : Nat}

/-- The base of a load or store, moved upwards or downwards by the offset. -/
def moved (up : Bool) (base offset : BitVec w) : BitVec w :=
  if up then base + offset else base - offset

variable {up : Bool} {base x y : BitVec w}

theorem moved_zero : moved up base 0#w = base := by
  unfold moved
  split
  · exact BitVec.add_zero base
  · exact BitVec.sub_zero base

theorem moved_inj : moved up base x = moved up base y ↔ x = y := by
  unfold moved
  split
  · exact BitVec.add_right_inj base
  · exact BitVec.sub_right_inj base

theorem moved_eq_base : moved up base x = base ↔ x = 0#w := by
  constructor
  · intro hsame
    exact moved_inj.mp (hsame.trans moved_zero.symm)
  · rintro rfl
    exact moved_zero

end

/-! ## Branches -/

/-- Where a branch at an address goes: 8 bytes behind it and a signed number of words from there. -/
def branchTarget (address : BitVec 32) (field : BitVec 24) : BitVec 32 :=
  address + 8 + BitVec.ofInt 32 (4 * field.toInt)

section
variable {address target : BitVec 32}

theorem branchTarget_sub (field : BitVec 24) :
    (branchTarget address field - (address + 8)).toInt = 4 * field.toInt := by
  have hlow := BitVec.two_mul_toInt_lt (x := field)
  have hhigh := BitVec.le_two_mul_toInt (x := field)
  rw [branchTarget, BitVec.add_comm, BitVec.add_sub_cancel, BitVec.toInt_ofInt]
  apply Int.bmod_eq_of_le <;> omega

theorem branchTarget_eq_iff (field : BitVec 24) :
    branchTarget address field = target ↔ (target - (address + 8)).toInt = 4 * field.toInt := by
  constructor
  · rintro rfl
    exact branchTarget_sub field
  · intro hoffset
    rw [branchTarget, ← hoffset, BitVec.ofInt_toInt, BitVec.add_comm, BitVec.sub_add_cancel]

variable (target) in
theorem toInt_distance_emod (haddress : address.toNat % 4 = 0) :
    (target - (address + 8)).toInt % 4 = (target.toNat : Int) % 4 := by
  have height : (8 : BitVec 32).toNat = 8 := rfl
  have hlt := address.isLt
  have hlt' := target.isLt
  rw [BitVec.toInt_eq_toNat_cond, BitVec.toNat_sub, BitVec.toNat_add, height]
  split <;> omega

theorem branchTarget_aligned (haddress : address.toNat % 4 = 0) (field : BitVec 24) :
    (branchTarget address field).toNat % 4 = 0 := by
  have hmod := toInt_distance_emod (branchTarget address field) haddress
  rw [branchTarget_sub] at hmod
  omega

theorem branchTarget_reach (haddress : address.toNat % 4 = 0) :
    (∃ field, branchTarget address field = target) ↔
      target.toNat % 4 = 0 ∧ -2 ^ 25 ≤ (target - (address + 8)).toInt ∧
        (target - (address + 8)).toInt ≤ 2 ^ 25 - 4 := by
  constructor
  · rintro ⟨field, rfl⟩
    have hlow := BitVec.two_mul_toInt_lt (x := field)
    have hhigh := BitVec.le_two_mul_toInt (x := field)
    rw [branchTarget_sub]
    exact ⟨branchTarget_aligned haddress field, by omega, by omega⟩
  · rintro ⟨htarget, hlow, hhigh⟩
    have hmod := toInt_distance_emod target haddress
    refine ⟨BitVec.ofInt 24 ((target - (address + 8)).toInt / 4), ?_⟩
    rw [branchTarget_eq_iff, BitVec.toInt_ofInt, Int.bmod_eq_of_le] <;> omega

end

/-! ## Block transfers -/

/-- The registers of a list, in the order they are transferred. -/
def registersOf (list : BitVec 16) : List Nat := (List.range 16).filter fun i => list.getLsbD i

/-- The lowest address of a block of `n` words, for the bits that say whether the base moves before
each word and whether it moves upwards. -/
def blockStart (before up : Bool) (base : BitVec 32) (n : Nat) : BitVec 32 :=
  match before, up with
  | false, false => base - BitVec.ofNat 32 (4 * n) + 4
  | false, true => base
  | true, false => base - BitVec.ofNat 32 (4 * n)
  | true, true => base + 4

/-- The place of a register in a block: behind the lower ones of the list. -/
def blockIndex (list : BitVec 16) (i : Nat) : Nat :=
  ((List.range i).filter fun j => list.getLsbD j).length

theorem blockIndex_succ (list : BitVec 16) (n : Nat) :
    blockIndex list (n + 1) = blockIndex list n + (list.getLsbD n).toNat := by
  rw [blockIndex, List.range_succ, List.filter_append, List.length_append, blockIndex]
  cases hbit : list.getLsbD n <;> simp [hbit]

theorem length_registersOf (list : BitVec 16) :
    (registersOf list).length = blockIndex list 15 + (list.getLsbD 15).toNat :=
  blockIndex_succ list 15

theorem length_registersOf_pos {list : BitVec 16} (hlist : list ≠ 0) :
    0 < (registersOf list).length := by
  rw [List.length_pos_iff]
  intro hnil
  refine hlist (BitVec.eq_of_getLsbD_eq fun i hi => ?_)
  have hnot := List.filter_eq_nil_iff.mp hnil i (List.mem_range.mpr hi)
  exact (Bool.eq_false_iff.mpr hnot).trans BitVec.getLsbD_zero.symm

theorem length_registersOf_le (list : BitVec 16) : (registersOf list).length ≤ 16 :=
  (List.length_filter_le _ _).trans_eq List.length_range

/-! ## Encodings -/

/-- `MRS`, `MSR` and the rest of the miscellaneous instructions have the opcodes of the comparisons
and set no flags. -/
def IsMiscellaneous (w : BitVec 32) : Prop := w.extractLsb' 23 2 = 0b10 ∧ w.getLsbD 20 = false

/-- The multiplies and the loads and stores that are not of words, in the space of the shifts by
register. -/
def IsExtension (w : BitVec 32) : Prop :=
  w.extractLsb' 26 2 = 0 ∧ w.getLsbD 25 = false ∧ w.getLsbD 7 = true ∧ w.getLsbD 4 = true

def IsHalfwordTransfer (w : BitVec 32) : Prop := IsExtension w ∧ w.extractLsb' 5 2 = 0b01

/-- The undefined words among the loads and stores. -/
def IsUndefinedTransfer (w : BitVec 32) : Prop :=
  w.extractLsb' 26 2 = 1 ∧ w.getLsbD 25 = true ∧ w.getLsbD 4 = true

def IsBlockTransfer (w : BitVec 32) : Prop := w.extractLsb' 26 2 = 2 ∧ w.getLsbD 25 = false

def IsBranch (w : BitVec 32) : Prop := w.extractLsb' 26 2 = 2 ∧ w.getLsbD 25 = true

def IsCoprocessor (w : BitVec 32) : Prop :=
  w.extractLsb' 26 2 = 3 ∧ (w.getLsbD 25 = false ∨ w.getLsbD 24 = false)

def IsSoftwareInterrupt (w : BitVec 32) : Prop :=
  w.extractLsb' 26 2 = 3 ∧ w.getLsbD 25 = true ∧ w.getLsbD 24 = true

instance : DecidablePred IsMiscellaneous := fun _ => inferInstanceAs (Decidable (_ ∧ _))
instance : DecidablePred IsExtension := fun _ => inferInstanceAs (Decidable (_ ∧ _))
instance : DecidablePred IsHalfwordTransfer := fun _ => inferInstanceAs (Decidable (_ ∧ _))
instance : DecidablePred IsBranch := fun _ => inferInstanceAs (Decidable (_ ∧ _))

def opcode (w : BitVec 32) : Opcode := .ofBits (w.extractLsb' 21 4)

/-- What a word with bits 27..26 clear is. -/
inductive Class where
  | halfword
  | dataProcessing (op : Opcode)
  /-- Multiplies, the other extensions and the miscellaneous instructions. -/
  | other
  deriving DecidableEq

def classOf (w : BitVec 32) : Class :=
  if IsExtension w then (if IsHalfwordTransfer w then .halfword else .other)
  else if IsMiscellaneous w then .other
  else .dataProcessing (opcode w)

end Arm
