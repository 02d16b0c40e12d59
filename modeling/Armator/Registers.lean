import Armator.Host

/-!
# `registers.c`

The register file is the structure `{ uint32_t regs[15]; uint32_t cpsr; }` and is indexed without a
check by register numbers of type `uint8_t`. The array has fifteen elements, so `regs[15]` is the
word that follows `regs[14]` in the structure, which is `cpsr`, and a larger index reaches the heap
behind the structure.

`read_write` is all the other modules use: the file is a store of 256 words, one for each
register number, and `cpsr` is its word 15.
-/

namespace Armator

/-- `struct registers_data`, and the words of the heap behind it. -/
structure RegistersData where
  regs : Vector Word 15
  cpsr : Word
  /-- What `regs[reg]` is for a register number `reg` from 16 on. -/
  beyond : Byte → Word

/-- `malloc` gives storage with whatever content it has. -/
def registersCreate (content : RegistersData) : RegistersData := content

def currentModeHasSpsr (_r : RegistersData) : Int := 0

def readUsrRegister (r : RegistersData) (reg : Byte) : Word :=
  if h : reg.toNat < 15 then r.regs[reg.toNat]
  else if reg = 15 then r.cpsr
  else r.beyond reg

def readRegister (r : RegistersData) (reg : Byte) : Word := readUsrRegister r reg

def readCpsr (r : RegistersData) : Word := r.cpsr

def readSpsr (_r : RegistersData) : Word := 0

def writeUsrRegister (r : RegistersData) (reg : Byte) (value : Word) : RegistersData :=
  if h : reg.toNat < 15 then { r with regs := r.regs.set reg.toNat value }
  else if reg = 15 then { r with cpsr := value }
  else { r with beyond := Function.update r.beyond reg value }

def writeRegister (r : RegistersData) (reg : Byte) (value : Word) : RegistersData :=
  writeUsrRegister r reg value

def writeCpsr (r : RegistersData) (value : Word) : RegistersData := { r with cpsr := value }

/-! ## The store of 256 words -/

theorem ne_15_of_lt {reg : Byte} (hreg : reg.toNat < 15) : reg ≠ 15 := by
  rintro rfl
  exact absurd hreg (by decide)

theorem writeCpsr_eq (r : RegistersData) (value : Word) :
    writeCpsr r value = writeUsrRegister r 15 value := rfl

theorem read_write (r : RegistersData) (reg reg' : Byte) (value : Word) :
    readUsrRegister (writeUsrRegister r reg value) reg' =
      if reg' = reg then value else readUsrRegister r reg' := by
  unfold writeUsrRegister
  by_cases hreg : reg.toNat < 15
  · rw [dif_pos hreg]
    by_cases hreg' : reg'.toNat < 15
    · simp only [readUsrRegister, dif_pos hreg', Vector.getElem_set, ← BitVec.toNat_inj]
      simp only [eq_comm]
    · have hne : reg' ≠ reg := fun h => hreg' (h ▸ hreg)
      simp only [readUsrRegister, dif_neg hreg', if_neg hne]
  · rw [dif_neg hreg]
    by_cases h15 : reg = 15
    · subst h15
      rw [if_pos rfl]
      by_cases hreg' : reg'.toNat < 15
      · simp only [readUsrRegister, dif_pos hreg', if_neg (ne_15_of_lt hreg')]
      · simp only [readUsrRegister, dif_neg hreg']
        split <;> rfl
    · rw [if_neg h15]
      by_cases hreg' : reg'.toNat < 15
      · have hne : reg' ≠ reg := fun h => hreg (h ▸ hreg')
        simp only [readUsrRegister, dif_pos hreg', if_neg hne]
      · by_cases h15' : reg' = 15
        · have hne : reg' ≠ reg := fun h => h15 (h ▸ h15')
          simp only [readUsrRegister, dif_neg hreg', if_pos h15', if_neg hne]
        · simp only [readUsrRegister, dif_neg hreg', if_neg h15', Function.update_apply]

theorem write_read (r : RegistersData) (reg : Byte) :
    writeUsrRegister r reg (readUsrRegister r reg) = r := by
  unfold writeUsrRegister
  by_cases hreg : reg.toNat < 15
  · simp only [readUsrRegister, dif_pos hreg, Vector.set_getElem_self]
  · by_cases h15 : reg = 15
    · simp only [readUsrRegister, dif_neg hreg, if_pos h15]
    · simp only [readUsrRegister, dif_neg hreg, if_neg h15, Function.update_eq_self]

end Armator
