import Armator.Lib.Arm
import Armator.Lib.ByteStore
import Armator.Lib.Shift

/-!
# The ARM machine

What an instruction does to the registers, the flags and the memory of a processor in user mode: the
data-processing instructions, the loads and stores of words, bytes and halfwords, and the branches.
`step` is partial: it is not defined on the other instructions, on an address that is not aligned and
where the architecture leaves the result open.
-/

namespace Arm

/-- Register 15 is the address of the next instruction. -/
structure Machine where
  reg : BitVec 4 → BitVec 32
  flags : Flags
  mem : BitVec 32 → BitVec 8

def Flags.clear : Flags := ⟨false, false, false, false⟩

theorem Flags.ofStatus_eq_clear {cpsr : BitVec 32} (hlow : cpsr.toNat < 2 ^ 28) :
    Flags.ofStatus cpsr = .clear := by
  have hbit : ∀ i, 28 ≤ i → cpsr.getLsbD i = false := fun i hi =>
    Nat.testBit_lt_two_pow (lt_of_lt_of_le hlow (Nat.pow_le_pow_right (by decide) hi))
  rw [Flags.ofStatus, hbit 31 (by decide), hbit 30 (by decide), hbit 29 (by decide),
    hbit 28 (by decide)]
  rfl

/-! ## Fields of an instruction -/

section
variable (w : BitVec 32)

def rn : BitVec 4 := w.extractLsb' 16 4
def rd : BitVec 4 := w.extractLsb' 12 4
def rs : BitVec 4 := w.extractLsb' 8 4
def rm : BitVec 4 := w.extractLsb' 0 4

/-- The shift of a register operand or a register offset, and its amount. -/
def shift : Shift := .ofBits (w.extractLsb' 5 2)
def amount : Nat := (w.extractLsb' 7 5).toNat

/-- A load or store of a word or a byte, or one of a halfword. -/
def IsTransfer : Prop :=
  w.extractLsb' 26 2 = 1 ∧ ¬ IsUndefinedTransfer w ∨ IsHalfwordTransfer w

/-- The number of bytes of a transfer. -/
def width : Nat := if w.extractLsb' 26 2 = 1 then (if w.getLsbD 22 then 1 else 4) else 2

/-- The base register of a transfer is post-indexed, or pre-indexed with its `W` bit. -/
def WritesBack : Prop := w.getLsbD 24 = false ∨ w.getLsbD 21 = true

instance : DecidablePred IsUndefinedTransfer := fun _ => inferInstanceAs (Decidable (_ ∧ _))
instance : DecidablePred IsTransfer := fun _ => inferInstanceAs (Decidable (_ ∨ _))
instance : DecidablePred WritesBack := fun _ => inferInstanceAs (Decidable (_ ∨ _))

end

namespace Machine

section
variable (m : Machine) (be : Bool) (w : BitVec 32)

def setReg (r : BitVec 4) (x : BitVec 32) : Machine := { m with reg := Function.update m.reg r x }

/-- A register as an instruction reads it: the program counter is 8 bytes ahead. -/
def read (r : BitVec 4) : BitVec 32 := if r = 15 then m.reg 15 + 8 else m.reg r

/-- The number of `n` bytes at an address. -/
def number (a : BitVec 32) (n : Nat) : Nat :=
  ByteStore.read be m.mem (fun k => a + BitVec.ofNat 32 k) n

def store (a : BitVec 32) (n v : Nat) : Machine :=
  { m with mem := LastWrite.writeAll m.mem (ByteStore.writes be (fun k => a + BitVec.ofNat 32 k) n v) }

def fetch : BitVec 32 := BitVec.ofNat 32 (m.number be (m.reg 15) 4)

def skip : Machine := m.setReg 15 (m.reg 15 + 4)

/-! ## Data processing -/

/-- The second operand, with the carry-out of the shifter. -/
def operand : BitVec 32 × Bool :=
  if w.getLsbD 25 then
    Shift.ror.byAmount m.flags.c ((w.extractLsb' 0 8).setWidth 32) (2 * (w.extractLsb' 8 4).toNat)
  else if w.getLsbD 4 then
    (shift w).byAmount m.flags.c (m.read (rm w)) ((m.read (rs w)).toNat % 256)
  else (shift w).byImmediate m.flags.c (m.read (rm w)) (amount w)

/-- A shift by a register does not work on the program counter, and nothing writes it with `S`. -/
def IsUnpredictable : Prop :=
  w.getLsbD 25 = false ∧ w.getLsbD 4 = true ∧ (rd w = 15 ∨ rn w = 15 ∨ rs w = 15 ∨ rm w = 15) ∨
    w.getLsbD 20 = true ∧ rd w = 15

instance : DecidablePred IsUnpredictable := fun _ => inferInstanceAs (Decidable (_ ∨ _))

def dataProcessing (op : Opcode) : Machine :=
  let o := op.operation m.flags.c
  let x := m.read (rn w)
  let y := m.operand w
  let m' := if op.isComparison then m.skip else m.skip.setReg (rd w) (o.result x y.1)
  if w.getLsbD 20 then { m' with flags := o.flags x y.1 y.2 m.flags } else m'

/-! ## Loads and stores -/

def offset : BitVec 32 :=
  if w.extractLsb' 26 2 = 1 then
    if w.getLsbD 25 then ((shift w).byImmediate m.flags.c (m.read (rm w)) (amount w)).1
    else (w.extractLsb' 0 12).setWidth 32
  else if w.getLsbD 22 then (w.extractLsb' 8 4 ++ w.extractLsb' 0 4).setWidth 32
  else m.read (rm w)

/-- The base moved by the offset. -/
def target : BitVec 32 := moved (w.getLsbD 23) (m.read (rn w)) (m.offset w)

def address : BitVec 32 := if w.getLsbD 24 then m.target w else m.read (rn w)

/-- What a load gives its register. -/
def loaded : BitVec 32 := BitVec.ofNat 32 (m.number be (m.address w) (width w))

/-- The program counter is left out as the register loaded or stored. -/
def IsPredictable : Prop :=
  rd w ≠ 15 ∧ (WritesBack w → rn w ≠ 15 ∧ rn w ≠ rd w) ∧ (m.address w).toNat % width w = 0

instance : Decidable (m.IsPredictable w) := inferInstanceAs (Decidable (_ ∧ _ ∧ _))

/-- The access, after which the base is written back. -/
def accessed : Machine :=
  if w.getLsbD 20 then m.skip.setReg (rd w) (m.loaded be w)
  else m.skip.store be (m.address w) (width w) (m.read (rd w)).toNat

def transfer : Machine :=
  if WritesBack w then (m.accessed be w).setReg (rn w) (m.target w) else m.accessed be w

/-! ## Steps -/

def branch : Machine :=
  let m' := if w.getLsbD 24 then m.skip.setReg 14 (m.reg 15 + 4) else m.skip
  m'.setReg 15 (branchTarget (m.reg 15) (w.extractLsb' 0 24))

def execute : Option Machine :=
  if IsTransfer w then if m.IsPredictable w then some (m.transfer be w) else none
  else if IsBranch w then some (m.branch w)
  else if w.extractLsb' 26 2 = 0 then
    match classOf w with
    | .dataProcessing op => if IsUnpredictable w then none else some (m.dataProcessing w op)
    | _ => none
  else none

def step : Option Machine :=
  let w := m.fetch be
  if (m.reg 15).toNat % 4 ≠ 0 ∨ condition w = .nv then none
  else if (condition w).holds m.flags then m.execute be w
  else some m.skip

def run (be : Bool) : Nat → Machine → Option Machine
  | 0, m => some m
  | n + 1, m => (m.step be).bind (run be n)

end

/-! ## Runs -/

theorem run_add (be : Bool) (k n : Nat) (m : Machine) :
    m.run be (k + n) = (m.run be k).bind (run be n) := by
  induction k generalizing m with
  | zero =>
    rw [Nat.zero_add]
    rfl
  | succ k ih =>
    rw [Nat.succ_add, run, run, Option.bind_assoc]
    congr 1
    funext m'
    exact ih m'

theorem exists_run {be : Bool} {k n : Nat} {m m' : Machine} (hrun : m.run be n = some m')
    (hk : k ≤ n) : ∃ c, m.run be k = some c := by
  obtain ⟨j, rfl⟩ := Nat.exists_eq_add_of_le hk
  rw [run_add] at hrun
  obtain ⟨c, hc, -⟩ := Option.bind_eq_some_iff.mp hrun
  exact ⟨c, hc⟩

/-! ## Registers and memory -/

section
variable (m : Machine) (r r' : BitVec 4) (x : BitVec 32)

@[simp] theorem reg_setReg : (m.setReg r x).reg r' = if r' = r then x else m.reg r' :=
  Function.update_apply m.reg r x r'

theorem setReg_reg : m.setReg r (m.reg r) = m := by
  unfold setReg
  rw [Function.update_eq_self]

theorem number_lt (be : Bool) (a : BitVec 32) (n : Nat) : m.number be a n < 256 ^ n := by
  have hlt := ByteStore.value_lt be ((List.range n).map fun k => m.mem (a + BitVec.ofNat 32 k))
  rwa [List.length_map, List.length_range] at hlt

theorem read_of_ne {r : BitVec 4} (hne : r ≠ 15) : m.read r = m.reg r := if_neg hne

end

/-! ## Addresses -/

section
variable {m : Machine} {be : Bool} {w : BitVec 32}

theorem width_le (w : BitVec 32) : width w = 1 ∨ width w = 2 ∨ width w = 4 := by
  unfold width
  split
  · split
    · exact .inl rfl
    · exact .inr (.inr rfl)
  · exact .inr (.inl rfl)

theorem target_of_offset_eq_zero (hzero : m.offset w = 0) : m.target w = m.read (rn w) := by
  rw [target, hzero]
  exact moved_zero

theorem address_eq_target (hindexed : w.getLsbD 24 = true ∨ m.offset w = 0) :
    m.address w = m.target w := by
  rw [address]
  split
  · rfl
  · next hpost => exact (target_of_offset_eq_zero (hindexed.resolve_left hpost)).symm

/-- With the offset 0 the base is what a write back would make it, unless it has been loaded. -/
theorem setReg_target (hzero : m.offset w = 0) (hrn : rn w ≠ 15)
    (hload : w.getLsbD 20 = true → rn w ≠ rd w) :
    (m.accessed be w).setReg (rn w) (m.target w) = m.accessed be w := by
  have hbase : (m.accessed be w).reg (rn w) = m.target w := by
    rw [target_of_offset_eq_zero hzero, read_of_ne m hrn, accessed]
    split
    · next hl => rw [reg_setReg, if_neg (hload hl), skip, reg_setReg, if_neg hrn]
    · show m.skip.reg (rn w) = m.reg (rn w)
      rw [skip, reg_setReg, if_neg hrn]
  rw [← hbase]
  exact setReg_reg _ _

theorem address_mod (hpred : m.IsPredictable w) : (m.address w).toNat % 4 + width w ≤ 4 := by
  have hmod := hpred.2.2
  rcases width_le w with hw | hw | hw <;> rw [hw] at hmod ⊢ <;> omega

theorem toNat_loaded : (m.loaded be w).toNat = m.number be (m.address w) (width w) := by
  have hlt := m.number_lt be (m.address w) (width w)
  have hle : 256 ^ width w ≤ 2 ^ 32 := by
    rcases width_le w with hw | hw | hw <;> rw [hw] <;> decide
  exact Nat.mod_eq_of_lt (lt_of_lt_of_le hlt hle)

end

end Machine

end Arm
