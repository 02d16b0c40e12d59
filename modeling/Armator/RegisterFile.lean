import Armator.Core
import Armator.Lib.LastWrite

/-!
# The registers as seventeen locations

The callers of the register file mean seventeen locations, `r0` to `r15` and the CPSR. The file
keeps them in the words of their numbers, and the CPSR in word 15. So every location holds the last
value written to it exactly if the last values written to `r15` and to the CPSR agree
(`registers_independent_iff`), and the program counter and the CPSR of a core are one word.
-/

namespace Armator

open LastWrite

inductive Location where
  | register (r : Fin 16)
  | cpsr
  deriving DecidableEq

/-- The word of the file a location is kept in. -/
def Location.number : Location → Byte
  | register r => BitVec.ofNat 8 r
  | cpsr => 15

def Location.read (r : RegistersData) : Location → Word
  | register i => readUsrRegister r (BitVec.ofNat 8 i)
  | cpsr => readCpsr r

inductive RegisterOp where
  | writeUsr (r : Fin 16) (value : Word)
  | writeReg (r : Fin 16) (value : Word)
  | writeStatus (value : Word)

namespace RegisterOp

def apply (r : RegistersData) : RegisterOp → RegistersData
  | writeUsr i value => writeUsrRegister r (BitVec.ofNat 8 i) value
  | writeReg i value => writeRegister r (BitVec.ofNat 8 i) value
  | writeStatus value => writeCpsr r value

def write : RegisterOp → Location × Word
  | writeUsr i value | writeReg i value => (.register i, value)
  | writeStatus value => (.cpsr, value)

end RegisterOp

def afterWrites (r : RegistersData) (ops : List RegisterOp) : RegistersData :=
  ops.foldl RegisterOp.apply r

/-- The value last written to a location in a run that starts from `r`. -/
def lastValue (r : RegistersData) (ops : List RegisterOp) (l : Location) : Word :=
  (lastWrite (ops.map RegisterOp.write) l).getD (l.read r)

/-- Every location holds the value last written to it. -/
def Independent (r : RegistersData) (ops : List RegisterOp) : Prop :=
  ∀ l : Location, l.read (afterWrites r ops) = lastValue r ops l

/-! ## Locations and words -/

theorem Location.read_eq (r : RegistersData) (l : Location) :
    l.read r = readUsrRegister r l.number := by cases l <;> rfl

theorem Location.eq_of_number_eq {l l' : Location} (h : l.number = l'.number) :
    l = l' ∨ l.number = 15 := by
  have hnum : ∀ i : Fin 16, (BitVec.ofNat 8 i).toNat = i := fun i =>
    Nat.mod_eq_of_lt (by have := i.isLt; omega)
  cases l with
  | cpsr => exact Or.inr rfl
  | register i =>
    cases l' with
    | cpsr => exact Or.inr h
    | register j =>
      left
      have hval := congrArg BitVec.toNat h
      simp only [Location.number, hnum] at hval
      rw [Fin.ext hval]

theorem Location.number_eq_15 {l : Location} (h : l.number = 15) : l = .register 15 ∨ l = .cpsr := by
  cases l with
  | cpsr => exact Or.inr rfl
  | register i =>
    left
    have hval : i.val % 2 ^ 8 = 15 := congrArg BitVec.toNat h
    have hlt := i.isLt
    rw [show i = 15 from Fin.ext (by omega)]

theorem RegisterOp.apply_view (r : RegistersData) (op : RegisterOp) :
    readUsrRegister (op.apply r) =
      writeAll (readUsrRegister r) (atPlaces Location.number [op.write]) := by
  funext reg
  rw [writeAll_apply, atPlaces, List.map_singleton, lastWrite_singleton]
  cases op <;> simp only [apply, write, Location.number, writeRegister, writeCpsr_eq, read_write,
    eq_comm] <;> split <;> rfl

theorem read_afterWrites (r : RegistersData) (ops : List RegisterOp) (l : Location) :
    l.read (afterWrites r ops) =
      (lastWrite (atPlaces Location.number (ops.map RegisterOp.write)) l.number).getD (l.read r) := by
  have hlist : ops.flatMap (fun op => atPlaces Location.number [op.write]) =
      atPlaces Location.number (ops.map RegisterOp.write) := by
    induction ops with
    | nil => rfl
    | cons op ops ih => rw [List.flatMap_cons, ih]; rfl
  rw [Location.read_eq, Location.read_eq, afterWrites, ← hlist]
  exact view_foldl RegisterOp.apply readUsrRegister
    (fun op => atPlaces Location.number [op.write]) (fun _ => True)
    (fun r op _ => RegisterOp.apply_view r op) r ops (fun _ _ => trivial) l.number

/-! ## Independence -/

theorem register15_read (r : RegistersData) : (Location.register 15).read r = r.cpsr := rfl

theorem cpsr_read (r : RegistersData) : Location.cpsr.read r = r.cpsr := rfl

theorem read_of_number_ne (r : RegistersData) (ops : List RegisterOp) (l : Location)
    (hl : l.number ≠ 15) : l.read (afterWrites r ops) = lastValue r ops l := by
  have halone : ∀ k : Location, k.number = l.number → k = l := fun k hk =>
    (Location.eq_of_number_eq hk).resolve_right (hk ▸ hl)
  rw [read_afterWrites, lastWrite_atPlaces Location.number _ l halone, lastValue]

theorem read_of_number_eq (r : RegistersData) (ops : List RegisterOp) (l : Location)
    (hl : l.number = 15)
    (hagree : lastValue r ops (.register 15) = lastValue r ops .cpsr) :
    l.read (afterWrites r ops) = lastValue r ops l := by
  have hshared := lastWrite_atPlaces_or Location.number (ops.map RegisterOp.write)
    (.register 15) .cpsr rfl (fun k hk => Location.number_eq_15 hk)
  have hword : (Location.register 15).read (afterWrites r ops) =
      lastValue r ops (.register 15) := by
    rw [read_afterWrites]
    rcases hshared with h | h
    · rw [h, lastValue]
    · rw [h, hagree, lastValue, register15_read, cpsr_read]
  rcases Location.number_eq_15 hl with rfl | rfl
  · exact hword
  · rw [← hagree, ← hword]
    rfl

theorem independent_iff (r : RegistersData) (ops : List RegisterOp) :
    Independent r ops ↔ lastValue r ops (.register 15) = lastValue r ops .cpsr := by
  constructor
  · intro hind
    rw [← hind (.register 15), ← hind .cpsr]
    rfl
  · intro hagree l
    by_cases hl : l.number = 15
    · exact read_of_number_eq r ops l hl hagree
    · exact read_of_number_ne r ops l hl

/-- A run of writes keeps the seventeen locations apart exactly if the last values written to `r15`
and to the CPSR agree; and on a core, whatever state it is in, the fetch changes the CPSR, a write
of the CPSR keeps the program counter exactly if it writes its value, and after the reset exception
the CPSR is 0 with the program counter. -/
theorem registers_independent_iff (r : RegistersData) (ops : List RegisterOp) (h : Host)
    (p : ArmCoreData) (value : Word) :
    (Independent r ops ↔ lastValue r ops (.register 15) = lastValue r ops .cpsr) ∧
    armReadCpsr (armFetch h p value).2.2 ≠ armReadCpsr p ∧
    ((armWriteCpsr p value).word 15 = p.word 15 ↔ value = p.word 15) ∧
    (armException p RESET).word 15 = 0 ∧ armReadCpsr (armException p RESET) ≠ 0x1d3 := by
  refine ⟨independent_iff r ops, ?_, ?_, word_armException_reset p, ?_⟩
  · rw [armReadCpsr_eq, word_armFetch, if_pos rfl]
    exact fetchAddress_add_ne p
  · rw [armWriteCpsr_eq, word_armWriteUsrRegister, if_pos rfl]
  · rw [armReadCpsr_eq, word_armException_reset]
    decide

/-- After a write of 8 to `r15` the CPSR reads 8. -/
theorem registers_independent_iff_alias :
    ¬ Independent ⟨Vector.replicate 15 0, 0x1d3, fun _ => 0⟩ [.writeUsr 15 8] := by
  intro hind
  exact absurd (hind .cpsr) (by decide)

end Armator
