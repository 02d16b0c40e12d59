import Armator.Host

/-!
# `memory.c`

The memory is a buffer of `4 * size` bytes. The access functions index it with values of type
`uint32_t`; an index from `4 * size` on reaches the heap behind the buffer, so the model keeps one
byte for every index and the buffer is its part below `4 * size`.

A function with an output parameter `*value` takes the content of the pointed variable and returns
it beside its result code, changed or not.
-/

namespace Armator

structure MemoryData where
  size : Nat
  /-- The bytes from `memo` on: the buffer, then the heap behind it. -/
  memo : Word → Byte
  isBigEndian : Bool

/-- `malloc` gives a buffer with whatever content it has. -/
def memoryCreate (size : Nat) (isBigEndian : Bool) (content : Word → Byte) : MemoryData where
  size := size
  memo := content
  isBigEndian := isBigEndian

def memoryGetSize (mem : MemoryData) : Nat := mem.size

def MemoryData.set (mem : MemoryData) (address : Word) (value : Byte) : MemoryData :=
  { mem with memo := Function.update mem.memo address value }

def MemoryData.withMemo (mem : MemoryData) (memo : Word → Byte) : MemoryData :=
  { mem with memo := memo }

/-- The copy loop of `reverse_endianess`: `for (i=0; i<n; i++) *(--destination) = *(source++)`, with
`destination` starting `n` bytes into its object. -/
def copyReversed (n : Nat) (source destination : Nat → Byte) : Nat → Byte :=
  (List.range n).foldl (fun d i => Function.update d (n - 1 - i) (source i)) destination

/-- The test `taille == 8||16||32` of the source is true of every `taille`. -/
def reverseEndianess (h : Host) (value : Word) (taille : Byte) : Word :=
  let sizeOf := if taille = 8 then 1 else if taille = 16 then 2 else 4
  let value := if taille = 8 then u32 (u8 value) else value
  h.ofObject (copyReversed sizeOf (h.objectByte value) (h.objectByte 0))

def memoryReadByte (h : Host) (mem : MemoryData) (address : Word) (value : Byte) : Int × Byte :=
  if address.toNat < 0 ∨ address.toNat / 4 > mem.size then (-1, value)
  else
    let value := mem.memo address
    let value := if !mem.isBigEndian then u8 (reverseEndianess h (u32 value) 8) else value
    (0, value)

def memoryReadHalf (h : Host) (mem : MemoryData) (address : Word) (value : Half) : Int × Half :=
  if address.toNat < 0 ∨ address.toNat / 4 > mem.size ∨ address.toNat % 4 > 2 then (-1, value)
  else
    let value := u16 ((u32 (mem.memo address) <<< 8) + u32 (mem.memo (address + 1)))
    let value := if !mem.isBigEndian then u16 (reverseEndianess h (u32 value) 16) else value
    (0, value)

def memoryReadWord (h : Host) (mem : MemoryData) (address : Word) (value : Word) : Int × Word :=
  if address.toNat < 0 ∨ address.toNat / 4 > mem.size ∨ address.toNat % 4 > 0 then (-1, value)
  else if mem.isBigEndian then
    (0, (u32 (mem.memo address) <<< 24) + (u32 (mem.memo (address + 1)) <<< 16) +
      (u32 (mem.memo (address + 2)) <<< 8) + u32 (mem.memo (address + 3)))
  else
    let value := (u32 (mem.memo address) <<< 24) + (u32 (mem.memo (address + 1)) <<< 16) +
      (u32 (mem.memo (address + 2)) <<< 8) + u32 (mem.memo (address + 3))
    (0, reverseEndianess h value 32)

def memoryWriteByte (h : Host) (mem : MemoryData) (address : Word) (value : Byte) :
    Int × MemoryData :=
  if address.toNat < 0 ∨ address.toNat / 4 > mem.size then (-1, mem)
  else
    let value := if !mem.isBigEndian then u8 (reverseEndianess h (u32 value) 8) else value
    (0, mem.set address value)

def memoryWriteHalf (h : Host) (mem : MemoryData) (address : Word) (value : Half) :
    Int × MemoryData :=
  if address.toNat < 0 ∨ address.toNat / 4 > mem.size ∨ address.toNat % 4 > 2 then (-1, mem)
  else
    let value := if !mem.isBigEndian then u16 (reverseEndianess h (u32 value) 16) else value
    let mem := mem.set address (u8 (value >>> 8))
    let mem := mem.set (address + 1) (u8 (value &&& 255))
    (0, mem)

def memoryWriteWord (h : Host) (mem : MemoryData) (address : Word) (value : Word) :
    Int × MemoryData :=
  if address.toNat < 0 ∨ address.toNat / 4 > mem.size ∨ address.toNat % 4 > 0 then (-1, mem)
  else
    let value := if !mem.isBigEndian then reverseEndianess h value 32 else value
    let mem := mem.set address (u8 (value >>> 24))
    let mem := mem.set (address + 1) (u8 ((value >>> 16) &&& 255))
    let mem := mem.set (address + 2) (u8 ((value >>> 8) &&& 255))
    let mem := mem.set (address + 3) (u8 (value &&& 255))
    (0, mem)

/-! ## Byte reversal -/

section
variable (h : Host) (value : Word)

theorem reverseEndianess_word :
    (reverseEndianess h value 32).toNat =
      value.toNat % 256 * 2 ^ 24 + value.toNat / 2 ^ 8 % 256 * 2 ^ 16 +
        value.toNat / 2 ^ 16 % 256 * 2 ^ 8 + value.toNat / 2 ^ 24 := by
  have hbytes : reverseEndianess h value 32 =
      u8 value ++ u8 (value >>> 8) ++ u8 (value >>> 16) ++ u8 (value >>> 24) := by
    cases hb : h.bigEndian <;>
      simp [reverseEndianess, copyReversed, Host.ofObject, Host.objectByte, hb, List.range_succ]
  have hlt := value.isLt
  rw [hbytes, Host.toNat_append_bytes]
  simp only [BitVec.toNat_setWidth, BitVec.toNat_ushiftRight, Nat.shiftRight_eq_div_pow]
  omega

/-- At width 16 a little-endian host finds the significant bytes at the start of the object; a
big-endian host reverses the two bytes above them. -/
theorem reverseEndianess_two :
    (reverseEndianess h value 16).toNat =
      if h.bigEndian then value.toNat / 2 ^ 16 % 256 * 2 ^ 24 + value.toNat / 2 ^ 24 * 2 ^ 16
      else value.toNat % 256 * 2 ^ 8 + value.toNat / 2 ^ 8 % 256 := by
  have hbytes : reverseEndianess h value 16 =
      if h.bigEndian then u8 (value >>> 16) ++ u8 (value >>> 24) ++ 0#8 ++ 0#8
      else 0#8 ++ 0#8 ++ u8 value ++ u8 (value >>> 8) := by
    cases hb : h.bigEndian <;>
      simp [reverseEndianess, copyReversed, Host.ofObject, Host.objectByte, hb, List.range_succ]
  have hlt := value.isLt
  rw [hbytes]
  split
  all_goals
    rw [Host.toNat_append_bytes]
    simp only [BitVec.toNat_setWidth, BitVec.toNat_ushiftRight, Nat.shiftRight_eq_div_pow,
      BitVec.toNat_ofNat]
    omega

/-- At width 8 a big-endian host reverses the byte of the wrong end of the object. -/
theorem reverseEndianess_one :
    (reverseEndianess h value 8).toNat = if h.bigEndian then 0 else value.toNat % 256 := by
  have hbytes : reverseEndianess h value 8 =
      if h.bigEndian then u8 (u32 (u8 value) >>> 24) ++ 0#8 ++ 0#8 ++ 0#8
      else 0#8 ++ 0#8 ++ 0#8 ++ u8 value := by
    cases hb : h.bigEndian <;>
      simp [reverseEndianess, copyReversed, Host.ofObject, Host.objectByte, hb]
  rw [hbytes]
  split
  · rw [Host.toNat_append_bytes, u8_ushiftRight]
    simp only [BitVec.toNat_setWidth, BitVec.toNat_ofNat]
    omega
  · rw [Host.toNat_append_bytes]
    simp only [BitVec.toNat_setWidth, BitVec.toNat_ofNat]
    omega

end

theorem reverseEndianess_host (h h' : Host) (value : Word) :
    reverseEndianess h' value 32 = reverseEndianess h value 32 := by
  apply BitVec.eq_of_toNat_eq
  rw [reverseEndianess_word, reverseEndianess_word]

theorem memoryReadWord_host (h h' : Host) (mem : MemoryData) (address value : Word) :
    memoryReadWord h' mem address value = memoryReadWord h mem address value := by
  simp only [memoryReadWord, reverseEndianess_host h h']

theorem reverseEndianess_half (h : Host) (hle : h.bigEndian = false) (value : Half) :
    (reverseEndianess h (u32 value) 16).toNat = value.toNat % 256 * 2 ^ 8 + value.toNat / 2 ^ 8 := by
  have hlt := value.isLt
  rw [reverseEndianess_two, hle, if_neg Bool.false_ne_true, toNat_u32 (by decide)]
  omega

theorem reverseEndianess_byte (h : Host) (hle : h.bigEndian = false) (value : Byte) :
    u8 (reverseEndianess h (u32 value) 8) = value := by
  have hlt := value.isLt
  apply BitVec.eq_of_toNat_eq
  rw [BitVec.toNat_setWidth, reverseEndianess_one, hle, if_neg Bool.false_ne_true,
    toNat_u32 (by decide)]
  omega

theorem reverseEndianess_byte_lost (h : Host) (hbe : h.bigEndian = true) (value : Byte) :
    u8 (reverseEndianess h (u32 value) 8) = 0 := by
  apply BitVec.eq_of_toNat_eq
  rw [BitVec.toNat_setWidth, reverseEndianess_one, if_pos hbe]
  rfl

theorem reverseEndianess_half_lost (h : Host) (hbe : h.bigEndian = true) (value : Half) :
    u16 (reverseEndianess h (u32 value) 16) = 0 := by
  have hlt := value.isLt
  apply BitVec.eq_of_toNat_eq
  rw [BitVec.toNat_setWidth, reverseEndianess_two, if_pos hbe, toNat_u32 (by decide)]
  change _ = 0
  omega

theorem bytes_reverseEndianess_word (h : Host) (value : Word) :
    (reverseEndianess h value 32).toNat / 2 ^ 24 % 256 = value.toNat % 256 ∧
    (reverseEndianess h value 32).toNat / 2 ^ 16 % 256 = value.toNat / 2 ^ 8 % 256 ∧
    (reverseEndianess h value 32).toNat / 2 ^ 8 % 256 = value.toNat / 2 ^ 16 % 256 ∧
    (reverseEndianess h value 32).toNat % 256 = value.toNat / 2 ^ 24 % 256 := by
  have hlt := value.isLt
  rw [reverseEndianess_word, Nat.mod_eq_of_lt (show value.toNat / 2 ^ 24 < 256 by omega)]
  have h0 : value.toNat % 256 < 256 := by omega
  have h1 : value.toNat / 2 ^ 8 % 256 < 256 := by omega
  have h2 : value.toNat / 2 ^ 16 % 256 < 256 := by omega
  have h3 : value.toNat / 2 ^ 24 < 256 := by omega
  generalize value.toNat % 256 = d0 at *
  generalize value.toNat / 2 ^ 8 % 256 = d1 at *
  generalize value.toNat / 2 ^ 16 % 256 = d2 at *
  generalize value.toNat / 2 ^ 24 = d3 at *
  omega

theorem bytes_reverseEndianess_half (h : Host) (hle : h.bigEndian = false) (value : Half) :
    (u16 (reverseEndianess h (u32 value) 16)).toNat / 2 ^ 8 % 256 = value.toNat % 256 ∧
    (u16 (reverseEndianess h (u32 value) 16)).toNat % 256 = value.toNat / 2 ^ 8 % 256 := by
  have hlt := value.isLt
  rw [BitVec.toNat_setWidth, reverseEndianess_half h hle,
    Nat.mod_eq_of_lt (show value.toNat / 2 ^ 8 < 256 by omega)]
  have h0 : value.toNat % 256 < 256 := by omega
  have h1 : value.toNat / 2 ^ 8 < 256 := by omega
  generalize value.toNat % 256 = d0 at *
  generalize value.toNat / 2 ^ 8 = d1 at *
  omega

end Armator
