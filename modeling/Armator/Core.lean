import Armator.Registers
import Armator.Memory

/-!
# `arm_core.c`, `arm_exception.c` and `arm_constants.h`

The core is a register file, a memory and a cycle counter. The trace the accessors print is left
out: they return the value they trace.
-/

namespace Armator

/-! ## `arm_constants.h` -/

def RESET : Byte := 1
def UNDEFINED_INSTRUCTION : Int := 2
def SOFTWARE_INTERRUPT : Int := 3
def PREFETCH_ABORT : Int := 4
def DATA_ABORT : Int := 5

def bitN : Byte := 31
def bitZ : Byte := 30
def bitC : Byte := 29
def bitV : Byte := 28

/-! ## `arm_core.c` -/

structure ArmCoreData where
  cycleCount : Word
  reg : RegistersData
  mem : MemoryData

def armCurrentModeHasSpsr (p : ArmCoreData) : Int := currentModeHasSpsr p.reg

/-- The program counter reads as the value in the register file plus 4. -/
def armReadRegister (p : ArmCoreData) (reg : Byte) : Word :=
  let value := readRegister p.reg reg
  if reg = 15 then (value + 4) &&& 0xFFFFFFFD else value

def armReadUsrRegister (p : ArmCoreData) (reg : Byte) : Word :=
  let value := readUsrRegister p.reg reg
  if reg = 15 then (value + 4) &&& 0xFFFFFFFD else value

def armReadCpsr (p : ArmCoreData) : Word := readCpsr p.reg

def armReadSpsr (p : ArmCoreData) : Word := readSpsr p.reg

def armWriteRegister (p : ArmCoreData) (reg : Byte) (value : Word) : ArmCoreData :=
  { p with reg := writeRegister p.reg reg value }

def armWriteUsrRegister (p : ArmCoreData) (reg : Byte) (value : Word) : ArmCoreData :=
  { p with reg := writeUsrRegister p.reg reg value }

def armWriteCpsr (p : ArmCoreData) (value : Word) : ArmCoreData :=
  { p with reg := writeCpsr p.reg value }

def fetchAddress (p : ArmCoreData) : Word := armReadRegister p 15 - 4

/-- The result code, the instruction variable and the core after the fetch. -/
def armFetch (h : Host) (p : ArmCoreData) (value : Word) : Int × Word × ArmCoreData :=
  let p := { p with cycleCount := p.cycleCount + 1 }
  let address := fetchAddress p
  let (result, value) := memoryReadWord h p.mem address value
  let p := armWriteRegister p 15 (address + 4)
  (result, value, p)

def armReadByte (h : Host) (p : ArmCoreData) (address : Word) (value : Byte) : Int × Byte :=
  memoryReadByte h p.mem address value

def armReadHalf (h : Host) (p : ArmCoreData) (address : Word) (value : Half) : Int × Half :=
  memoryReadHalf h p.mem address value

def armReadWord (h : Host) (p : ArmCoreData) (address : Word) (value : Word) : Int × Word :=
  memoryReadWord h p.mem address value

def armWriteByte (h : Host) (p : ArmCoreData) (address : Word) (value : Byte) :
    Int × ArmCoreData :=
  let (result, mem) := memoryWriteByte h p.mem address value
  (result, { p with mem := mem })

def armWriteHalf (h : Host) (p : ArmCoreData) (address : Word) (value : Half) :
    Int × ArmCoreData :=
  let (result, mem) := memoryWriteHalf h p.mem address value
  (result, { p with mem := mem })

def armWriteWord (h : Host) (p : ArmCoreData) (address : Word) (value : Word) :
    Int × ArmCoreData :=
  let (result, mem) := memoryWriteWord h p.mem address value
  (result, { p with mem := mem })

/-! ## `arm_exception.c` -/

/-- Only `RESET` is supported; `Exception_bit_9` is 0. -/
def armException (p : ArmCoreData) (exception : Byte) : ArmCoreData :=
  if exception = RESET then
    let p := armWriteCpsr p (0x1d3 ||| (0 <<< 9))
    armWriteUsrRegister p 15 0
  else p

def armCreate (mem : MemoryData) (content : RegistersData) (cycleCount : Word) : ArmCoreData :=
  let p : ArmCoreData := { cycleCount := cycleCount, reg := registersCreate content, mem := mem }
  let p := armException p RESET
  { p with cycleCount := 0 }

/-- A core at address 0 of a memory that holds one word, big-endian. -/
def coreAt (word : Word) : ArmCoreData :=
  armCreate (memoryCreate 1 true fun i => u8 (word >>> (8 * (3 - i.toNat))))
    ⟨Vector.replicate 15 0, 0, fun _ => 0⟩ 0

/-- A core at address 0 of a memory of `size` words that starts with some, big-endian. -/
def coreOf (size : Nat) (words : List Word) : ArmCoreData :=
  armCreate (memoryCreate size true fun i =>
      u8 (words.getD (i.toNat / 4) 0 >>> (8 * (3 - i.toNat % 4))))
    ⟨Vector.replicate 15 0, 0, fun _ => 0⟩ 0

/-! ## Registers of the core -/

/-- What the register file holds for a register number. -/
def ArmCoreData.word (p : ArmCoreData) (reg : Byte) : Word := readUsrRegister p.reg reg

/-- `r0` to `r14`, the CPSR and the memory are as they were. -/
structure Undisturbed (p p' : ArmCoreData) : Prop where
  reg : ∀ reg : Byte, reg.toNat < 15 → p'.word reg = p.word reg
  cpsr : armReadCpsr p' = armReadCpsr p
  mem : p'.mem = p.mem

section
variable (p : ArmCoreData) (reg reg' : Byte) (value : Word)

@[simp] theorem armReadCpsr_eq : armReadCpsr p = p.word 15 := rfl

@[simp] theorem armWriteCpsr_eq : armWriteCpsr p value = armWriteUsrRegister p 15 value := rfl

@[simp] theorem word_armWriteUsrRegister :
    (armWriteUsrRegister p reg value).word reg' = if reg' = reg then value else p.word reg' :=
  read_write p.reg reg reg' value

theorem armReadUsrRegister_eq :
    armReadUsrRegister p reg = if reg = 15 then (p.word 15 + 4) &&& 0xFFFFFFFD else p.word reg := by
  unfold armReadUsrRegister
  split
  · next h15 => rw [h15]; rfl
  · rfl

theorem armReadUsrRegister_armWriteUsrRegister :
    armReadUsrRegister (armWriteUsrRegister p reg value) reg' =
      if reg' = reg then (if reg = 15 then (value + 4) &&& 0xFFFFFFFD else value)
      else armReadUsrRegister p reg' := by
  rw [armReadUsrRegister_eq, armReadUsrRegister_eq, word_armWriteUsrRegister,
    word_armWriteUsrRegister]
  by_cases hreg : reg' = reg
  · subst hreg
    rw [if_pos rfl, if_pos rfl]
    by_cases h15 : reg' = 15
    · rw [if_pos h15, if_pos h15, if_pos h15.symm]
    · rw [if_neg h15, if_neg h15]
  · rw [if_neg hreg, if_neg hreg]
    by_cases h15 : reg' = 15
    · rw [if_pos h15, if_pos h15, if_neg (fun h => hreg (h15.trans h))]
    · rw [if_neg h15, if_neg h15]

theorem armWriteUsrRegister_word : armWriteUsrRegister p reg (p.word reg) = p := by
  unfold armWriteUsrRegister ArmCoreData.word
  rw [write_read]

theorem armWriteUsrRegister_twice :
    armWriteUsrRegister (armWriteUsrRegister p reg value) reg value =
      armWriteUsrRegister p reg value := by
  have hsame := armWriteUsrRegister_word (armWriteUsrRegister p reg value) reg
  rwa [word_armWriteUsrRegister, if_pos rfl] at hsame

theorem armReadUsrRegister_of_lt {reg : Byte} (hreg : reg.toNat < 15) :
    armReadUsrRegister p reg = p.word reg := by
  rw [armReadUsrRegister_eq, if_neg (ne_15_of_lt hreg)]

end

/-! ## The fetch -/

theorem toNat_and_pcMask (y : Word) :
    (y &&& 0xFFFFFFFD).toNat = y.toNat / 4 * 4 + y.toNat % 2 := by
  have hlt := y.isLt
  rw [BitVec.toNat_and]
  change y.toNat &&& 0xFFFFFFFD = _
  have hhigh : (y.toNat &&& 0xFFFFFFFD) / 2 ^ 2 = y.toNat / 4 := by
    rw [Nat.and_div_two_pow, show 0xFFFFFFFD / 2 ^ 2 = 2 ^ 30 - 1 by decide,
      Nat.and_two_pow_sub_one_eq_mod]
    omega
  have hlow : (y.toNat &&& 0xFFFFFFFD) % 2 ^ 2 = y.toNat % 2 := by
    rw [Nat.and_mod_two_pow, show 0xFFFFFFFD % 2 ^ 2 = 2 ^ 1 - 1 by decide,
      Nat.and_two_pow_sub_one_eq_mod]
    omega
  omega

section
variable (h : Host) (p : ArmCoreData) (value : Word) (reg : Byte)

theorem fetchAddress_eq : fetchAddress p = ((p.word 15 + 4) &&& 0xFFFFFFFD) - 4 := rfl

theorem fetchAddress_add : fetchAddress p + 4 = (p.word 15 + 4) &&& 0xFFFFFFFD :=
  BitVec.sub_add_cancel _ _

theorem fetchAddress_add_ne : fetchAddress p + 4 ≠ p.word 15 := by
  intro heq
  have hlt := (p.word 15).isLt
  have hmask := toNat_and_pcMask (p.word 15 + 4)
  rw [← fetchAddress_add, heq, BitVec.toNat_add] at hmask
  change _ = (_ + 4) % 2 ^ 32 / 4 * 4 + (_ + 4) % 2 ^ 32 % 2 at hmask
  omega

theorem armFetch_result : (armFetch h p value).1 = (memoryReadWord h p.mem (fetchAddress p) value).1 :=
  rfl

theorem armFetch_value :
    (armFetch h p value).2.1 = (memoryReadWord h p.mem (fetchAddress p) value).2 := rfl

theorem word_armFetch :
    (armFetch h p value).2.2.word reg = if reg = 15 then fetchAddress p + 4 else p.word reg :=
  read_write p.reg 15 reg (fetchAddress p + 4)

end

/-! ## The reset -/

section
variable (p : ArmCoreData) (exception reg : Byte)

@[simp] theorem mem_armException : (armException p exception).mem = p.mem := by
  unfold armException
  split <;> rfl

theorem word_armException_of_ne (hreg : reg ≠ 15) :
    (armException p exception).word reg = p.word reg := by
  unfold armException
  split
  · simp only [armWriteCpsr_eq, word_armWriteUsrRegister, if_neg hreg]
  · rfl

theorem word_armException_reset : (armException p RESET).word 15 = 0 := by
  simp only [armException, if_true, word_armWriteUsrRegister]

end

end Armator
