import Mathlib.Data.List.Nodup
import Armator.Memory
import Armator.Lib.ByteStore

/-!
# The six access functions of the memory

`Call.perform` is a call of one of the six functions. The test each function makes accepts an
address whose quotient by 4 is at most `size` (`Call.Accepted`); an accepted call does on the bytes
of the memory what `Call.onBytes` does on a store of bytes (`perform_accepted`, on a little-endian
host), and a rejected one does nothing (`perform_rejected`).

* `memory_bounds`: a call stays inside the buffer, or fails and changes nothing, exactly if it is
  not an aligned access to the word just behind the buffer.
* `memory_refines_byteStore`: a run of calls inside the buffer is a run of a store of bytes.
-/

namespace Armator

open LastWrite

/-- A call of one of the six functions, with the content of the output variable before it. -/
inductive Call where
  | readByte (address : Word) (value : Byte)
  | readHalf (address : Word) (value : Half)
  | readWord (address value : Word)
  | writeByte (address : Word) (value : Byte)
  | writeHalf (address : Word) (value : Half)
  | writeWord (address value : Word)

/-- The result code of a call, and the content of the output variable after a read. -/
structure Answer where
  result : Int
  output : Option Nat
  deriving DecidableEq

namespace Call

def address : Call → Word
  | readByte a _ | readHalf a _ | readWord a _ | writeByte a _ | writeHalf a _ | writeWord a _ => a

def width : Call → Nat
  | readByte _ _ | writeByte _ _ => 1
  | readHalf _ _ | writeHalf _ _ => 2
  | readWord _ _ | writeWord _ _ => 4

def place (c : Call) (k : Nat) : Word := c.address + BitVec.ofNat 32 k

def output : Call → Option Nat
  | readByte _ v => some v.toNat
  | readHalf _ v => some v.toNat
  | readWord _ v => some v.toNat
  | _ => none

def Aligned : Call → Prop
  | readByte _ _ | writeByte _ _ => True
  | readHalf a _ | writeHalf a _ => a.toNat % 4 ≤ 2
  | readWord a _ | writeWord a _ => a.toNat % 4 = 0

/-- The test the functions make, on a memory of `size` words. -/
def Accepted (size : Nat) (c : Call) : Prop := c.address.toNat / 4 ≤ size ∧ c.Aligned

def Inside (size : Nat) (c : Call) : Prop := c.address.toNat + c.width ≤ 4 * size ∧ c.Aligned

instance : DecidablePred Aligned
  | readByte _ _ | writeByte _ _ => inferInstanceAs (Decidable True)
  | readHalf _ _ | writeHalf _ _ => inferInstanceAs (Decidable (_ ≤ _))
  | readWord _ _ | writeWord _ _ => inferInstanceAs (Decidable (_ = _))

instance (size : Nat) : DecidablePred (Inside size) :=
  fun _ => inferInstanceAs (Decidable (_ ∧ _))

def perform (h : Host) (mem : MemoryData) : Call → Answer × MemoryData
  | readByte a v => let (result, v) := memoryReadByte h mem a v; (⟨result, some v.toNat⟩, mem)
  | readHalf a v => let (result, v) := memoryReadHalf h mem a v; (⟨result, some v.toNat⟩, mem)
  | readWord a v => let (result, v) := memoryReadWord h mem a v; (⟨result, some v.toNat⟩, mem)
  | writeByte a v => let (result, mem) := memoryWriteByte h mem a v; (⟨result, none⟩, mem)
  | writeHalf a v => let (result, mem) := memoryWriteHalf h mem a v; (⟨result, none⟩, mem)
  | writeWord a v => let (result, mem) := memoryWriteWord h mem a v; (⟨result, none⟩, mem)

/-! ## The store of bytes -/

def writes (be : Bool) (c : Call) : List (Word × Byte) :=
  match c with
  | writeByte _ v => ByteStore.writes be c.place 1 v.toNat
  | writeHalf _ v => ByteStore.writes be c.place 2 v.toNat
  | writeWord _ v => ByteStore.writes be c.place 4 v.toNat
  | _ => []

def found (be : Bool) (s : Word → Byte) (c : Call) : Option Nat :=
  match c with
  | readByte _ _ | readHalf _ _ | readWord _ _ => some (ByteStore.read be s c.place c.width)
  | _ => none

/-- A call on a store of bytes: it succeeds, a read gives the number composed of its bytes, a write
puts the bytes of its number there. -/
def onBytes (be : Bool) (s : Word → Byte) (c : Call) : Answer × (Word → Byte) :=
  (⟨0, c.found be s⟩, writeAll s (c.writes be))

/-! ## Accepted and rejected calls -/

theorem perform_rejected (h : Host) (mem : MemoryData) (c : Call) (hrej : ¬ c.Accepted mem.size) :
    c.perform h mem = (⟨-1, c.output⟩, mem) := by
  cases c <;> simp only [Accepted, Aligned, address, and_true] at hrej
  case readByte a v => rw [perform, memoryReadByte, if_pos (by omega)]; rfl
  case readHalf a v => rw [perform, memoryReadHalf, if_pos (by omega)]; rfl
  case readWord a v => rw [perform, memoryReadWord, if_pos (by omega)]; rfl
  case writeByte a v => rw [perform, memoryWriteByte, if_pos (by omega)]; rfl
  case writeHalf a v => rw [perform, memoryWriteHalf, if_pos (by omega)]; rfl
  case writeWord a v => rw [perform, memoryWriteWord, if_pos (by omega)]; rfl

theorem result_accepted (h : Host) (mem : MemoryData) (c : Call) (hacc : c.Accepted mem.size) :
    (c.perform h mem).1.result = 0 := by
  cases c <;> simp only [Accepted, Aligned, address, and_true] at hacc
  case readByte a v => rw [perform, memoryReadByte, if_neg (by omega)]
  case readHalf a v => rw [perform, memoryReadHalf, if_neg (by omega)]
  case readWord a v =>
    rw [perform, memoryReadWord, if_neg (by omega)]
    cases mem.isBigEndian <;> rfl
  case writeByte a v => rw [perform, memoryWriteByte, if_neg (by omega)]
  case writeHalf a v => rw [perform, memoryWriteHalf, if_neg (by omega)]
  case writeWord a v => rw [perform, memoryWriteWord, if_neg (by omega)]

/-! ### Reads -/

theorem toNat_half (b0 b1 : Byte) :
    (u16 ((u32 b0 <<< 8) + u32 b1)).toNat = b0.toNat * 2 ^ 8 + b1.toNat := by
  have h0 := b0.isLt
  have h1 := b1.isLt
  simp only [BitVec.toNat_add, BitVec.toNat_shiftLeft, BitVec.toNat_setWidth, Nat.shiftLeft_eq]
  omega

theorem toNat_word (b0 b1 b2 b3 : Byte) :
    ((u32 b0 <<< 24) + (u32 b1 <<< 16) + (u32 b2 <<< 8) + u32 b3).toNat =
      b0.toNat * 2 ^ 24 + b1.toNat * 2 ^ 16 + b2.toNat * 2 ^ 8 + b3.toNat := by
  have h0 := b0.isLt
  have h1 := b1.isLt
  have h2 := b2.isLt
  have h3 := b3.isLt
  simp only [BitVec.toNat_add, BitVec.toNat_shiftLeft, BitVec.toNat_setWidth, Nat.shiftLeft_eq]
  omega

theorem ofNat_eq_iff {a b : Nat} : BitVec.ofNat 8 a = BitVec.ofNat 8 b ↔ a % 256 = b % 256 := by
  rw [← BitVec.toNat_inj, BitVec.toNat_ofNat, BitVec.toNat_ofNat]

theorem u8_eq_ofNat {n : Nat} (x : BitVec n) : u8 x = BitVec.ofNat 8 x.toNat := by
  rw [← BitVec.toNat_inj, BitVec.toNat_setWidth, BitVec.toNat_ofNat]

theorem place_zero (c : Call) : c.place 0 = c.address := by simp [place]

section
variable (h : Host) (mem : MemoryData) (a : Word)

theorem readByte_accepted (hle : h.bigEndian = false) (v : Byte)
    (hacc : (readByte a v).Accepted mem.size) :
    (readByte a v).perform h mem = (⟨0, (readByte a v).found mem.isBigEndian mem.memo⟩, mem) := by
  simp only [Accepted, Aligned, address, and_true] at hacc
  rw [perform, memoryReadByte, if_neg (by omega)]
  simp only [found, width, ByteStore.read_one, place_zero, address, reverseEndianess_byte h hle,
    ite_self]

theorem readHalf_accepted (hle : h.bigEndian = false) (v : Half)
    (hacc : (readHalf a v).Accepted mem.size) :
    (readHalf a v).perform h mem = (⟨0, (readHalf a v).found mem.isBigEndian mem.memo⟩, mem) := by
  simp only [Accepted, Aligned, address] at hacc
  have h0 := (mem.memo a).isLt
  have h1 := (mem.memo (a + 1)).isLt
  have hplace : (readHalf a v).place 1 = a + 1 := rfl
  rw [perform, memoryReadHalf, if_neg (by omega)]
  simp only [found, width, ByteStore.read_two, place_zero, address, hplace]
  refine Prod.ext (congrArg (fun n => Answer.mk 0 (some n)) ?_) rfl
  cases mem.isBigEndian
  · simp only [Bool.not_false, if_true, Bool.false_eq_true, if_false]
    have hmod : ((mem.memo a).toNat * 2 ^ 8 + (mem.memo (a + 1)).toNat) % 256 =
        (mem.memo (a + 1)).toNat := by omega
    have hdiv : ((mem.memo a).toNat * 2 ^ 8 + (mem.memo (a + 1)).toNat) / 2 ^ 8 =
        (mem.memo a).toNat := by omega
    rw [BitVec.toNat_setWidth, reverseEndianess_half h hle, toNat_half, hmod, hdiv,
      Nat.mod_eq_of_lt (by omega)]
  · simp only [Bool.not_true, Bool.false_eq_true, if_false, if_true, toNat_half]

theorem readWord_accepted (v : Word) (hacc : (readWord a v).Accepted mem.size) :
    (readWord a v).perform h mem = (⟨0, (readWord a v).found mem.isBigEndian mem.memo⟩, mem) := by
  simp only [Accepted, Aligned, address] at hacc
  have h0 := (mem.memo a).isLt
  have h1 := (mem.memo (a + 1)).isLt
  have h2 := (mem.memo (a + 2)).isLt
  have h3 := (mem.memo (a + 3)).isLt
  have hplace1 : (readWord a v).place 1 = a + 1 := rfl
  have hplace2 : (readWord a v).place 2 = a + 2 := rfl
  have hplace3 : (readWord a v).place 3 = a + 3 := rfl
  rw [perform, memoryReadWord, if_neg (by omega)]
  simp only [found, width, ByteStore.read_four, place_zero, address, hplace1, hplace2, hplace3]
  cases mem.isBigEndian
  · simp only [Bool.false_eq_true, if_false]
    refine Prod.ext (congrArg (fun n => Answer.mk 0 (some n)) ?_) rfl
    rw [reverseEndianess_word, toNat_word]
    omega
  · simp only [if_true, toNat_word]

/-! ### Writes -/

theorem writeByte_accepted (hle : h.bigEndian = false) (v : Byte)
    (hacc : (writeByte a v).Accepted mem.size) :
    (writeByte a v).perform h mem =
      (⟨0, none⟩, mem.withMemo (writeAll mem.memo ((writeByte a v).writes mem.isBigEndian))) := by
  simp only [Accepted, Aligned, address, and_true] at hacc
  rw [perform, memoryWriteByte, if_neg (by omega)]
  simp only [writes, ByteStore.writes_one, place_zero, address, reverseEndianess_byte h hle, ite_self,
    BitVec.ofNat_toNat, BitVec.setWidth_eq]
  rfl

theorem writeHalf_accepted (hle : h.bigEndian = false) (v : Half)
    (hacc : (writeHalf a v).Accepted mem.size) :
    (writeHalf a v).perform h mem =
      (⟨0, none⟩, mem.withMemo (writeAll mem.memo ((writeHalf a v).writes mem.isBigEndian))) := by
  simp only [Accepted, Aligned, address] at hacc
  have hplace : (writeHalf a v).place 1 = a + 1 := rfl
  obtain ⟨hhigh, hlow⟩ := bytes_reverseEndianess_half h hle v
  rw [perform, memoryWriteHalf, if_neg (by omega)]
  simp only [writes, ByteStore.writes_two, place_zero, address, hplace,
    u8_and_255 (show 8 ≤ 16 by decide), u8_ushiftRight]
  cases mem.isBigEndian
  · simp only [Bool.not_false, if_true, Bool.false_eq_true, if_false]
    rw [ofNat_eq_iff.mpr hhigh, u8_eq_ofNat, ofNat_eq_iff.mpr hlow]
    rfl
  · simp only [Bool.not_true, if_true, Bool.false_eq_true, if_false, u8_eq_ofNat]
    rfl

theorem writeWord_accepted (v : Word) (hacc : (writeWord a v).Accepted mem.size) :
    (writeWord a v).perform h mem =
      (⟨0, none⟩, mem.withMemo (writeAll mem.memo ((writeWord a v).writes mem.isBigEndian))) := by
  simp only [Accepted, Aligned, address] at hacc
  have hplace1 : (writeWord a v).place 1 = a + 1 := rfl
  have hplace2 : (writeWord a v).place 2 = a + 2 := rfl
  have hplace3 : (writeWord a v).place 3 = a + 3 := rfl
  obtain ⟨h3, h2, h1, h0⟩ := bytes_reverseEndianess_word h v
  rw [perform, memoryWriteWord, if_neg (by omega)]
  simp only [writes, ByteStore.writes_four, place_zero, address, hplace1, hplace2, hplace3,
    u8_and_255 (show 8 ≤ 32 by decide), u8_ushiftRight]
  cases mem.isBigEndian
  · simp only [Bool.not_false, if_true, Bool.false_eq_true, if_false]
    rw [ofNat_eq_iff.mpr h3, ofNat_eq_iff.mpr h2, ofNat_eq_iff.mpr h1, u8_eq_ofNat,
      ofNat_eq_iff.mpr h0]
    rfl
  · simp only [Bool.not_true, if_true, Bool.false_eq_true, if_false, u8_eq_ofNat]
    rfl

end

/-- On a little-endian host an accepted call does on the bytes of the memory what it does on a store
of bytes. -/
theorem perform_accepted (h : Host) (hle : h.bigEndian = false) (mem : MemoryData) (c : Call)
    (hacc : c.Accepted mem.size) :
    c.perform h mem = ((c.onBytes mem.isBigEndian mem.memo).1,
      mem.withMemo (c.onBytes mem.isBigEndian mem.memo).2) := by
  cases c with
  | readByte a v => exact readByte_accepted h mem a hle v hacc
  | readHalf a v => exact readHalf_accepted h mem a hle v hacc
  | readWord a v => exact readWord_accepted h mem a v hacc
  | writeByte a v => exact writeByte_accepted h mem a hle v hacc
  | writeHalf a v => exact writeHalf_accepted h mem a hle v hacc
  | writeWord a v => exact writeWord_accepted h mem a v hacc

/-! ## Accesses as numbers -/

/-- The number a write puts into the memory. -/
def number : Call → Nat
  | writeByte _ v => v.toNat
  | writeHalf _ v => v.toNat
  | writeWord _ v => v.toNat
  | _ => 0

theorem writes_eq (be : Bool) {c : Call} (hc : c.output = none) :
    c.writes be = ByteStore.writes be c.place c.width c.number := by
  cases c <;> first | rfl | exact absurd hc (Option.some_ne_none _)

theorem found_eq (be : Bool) (s : Word → Byte) {c : Call} (hc : c.output ≠ none) :
    c.found be s = some (ByteStore.read be s c.place c.width) := by
  cases c <;> first | rfl | exact absurd rfl hc

theorem nodup_places (c : Call) : ((List.range c.width).map c.place).Nodup := by
  refine List.Nodup.map_on (fun i hi j hj heq => ?_) List.nodup_range
  have hwidth : c.width ≤ 4 := by cases c <;> simp [width]
  rw [List.mem_range] at hi hj
  have hplace := BitVec.add_right_inj _ |>.mp heq
  have hnat := congrArg BitVec.toNat hplace
  rw [BitVec.toNat_ofNat, BitVec.toNat_ofNat, Nat.mod_eq_of_lt (by omega),
    Nat.mod_eq_of_lt (by omega)] at hnat
  exact hnat

theorem place_congr {c c' : Call} (haddress : c'.address = c.address) : c'.place = c.place :=
  funext fun k => by rw [place, haddress, place]

theorem found_congr {be : Bool} {s s' : Word → Byte} {c c' : Call} (hc' : c'.output ≠ none)
    (haddress : c'.address = c.address) (hwidth : c'.width = c.width)
    (hsame : ∀ k < c.width, s (c.place k) = s' (c.place k)) : c'.found be s = c'.found be s' := by
  have hbytes : ((List.range c.width).map fun i => s (c.place i)) =
      (List.range c.width).map fun i => s' (c.place i) :=
    List.map_congr_left fun k hk => hsame k (List.mem_range.mp hk)
  rw [found_eq be s hc', found_eq be s' hc', place_congr haddress, hwidth, ByteStore.read,
    ByteStore.read, hbytes]

theorem aligned_iff (c : Call) : c.Aligned ↔ c.address.toNat % 4 + c.width ≤ 4 := by
  cases c <;> simp only [Aligned, address, width, true_iff] <;> omega

theorem Inside.of_same {c c' : Call} {size : Nat} (hin : c.Inside size)
    (haddress : c'.address = c.address) (hwidth : c'.width = c.width) : c'.Inside size := by
  obtain ⟨hbound, hal⟩ := hin
  rw [Inside, aligned_iff, haddress, hwidth, ← aligned_iff]
  exact ⟨hbound, hal⟩

theorem found_writeAll (be : Bool) (s : Word → Byte) {c c' : Call} (hc : c.output = none)
    (hc' : c'.output ≠ none) (haddress : c'.address = c.address) (hwidth : c'.width = c.width) :
    c'.found be (LastWrite.writeAll s (c.writes be)) = some (c.number % 256 ^ c.width) := by
  rw [found_eq be _ hc', writes_eq be hc, place_congr haddress, hwidth,
    ByteStore.read_writeAll_writes be s c.nodup_places]

/-! ## Any host -/

/-- The access keeps its bytes: a big-endian host loses the bytes and halfwords of a little-endian
memory. -/
def Kept (h : Host) (be : Bool) (c : Call) : Prop :=
  h.bigEndian = false ∨ be = true ∨ c.width = 4

instance (h : Host) (be : Bool) (c : Call) : Decidable (c.Kept h be) :=
  inferInstanceAs (Decidable (_ ∨ _ ∨ _))

section
variable (h : Host) {mem : MemoryData} {c : Call}

theorem perform_bigEndian (h' : Host) (hbe : mem.isBigEndian = true) (c : Call) :
    c.perform h mem = c.perform h' mem := by
  cases c <;> simp only [perform, memoryReadByte, memoryReadHalf, memoryReadWord, memoryWriteByte,
    memoryWriteHalf, memoryWriteWord, hbe, Bool.not_true, Bool.false_eq_true, if_false, if_true]

theorem perform_of_kept (hacc : c.Accepted mem.size) (hkept : c.Kept h mem.isBigEndian) :
    c.perform h mem = ((c.onBytes mem.isBigEndian mem.memo).1,
      mem.withMemo (c.onBytes mem.isBigEndian mem.memo).2) := by
  rcases hkept with hle | hbe | hwidth
  · exact perform_accepted h hle mem c hacc
  · rw [perform_bigEndian h Host.x86 hbe]
    exact perform_accepted Host.x86 rfl mem c hacc
  · cases c with
    | readWord a v => exact readWord_accepted h mem a v hacc
    | writeWord a v => exact writeWord_accepted h mem a v hacc
    | readByte a v => exact absurd hwidth (show ¬ 1 = 4 by decide)
    | readHalf a v => exact absurd hwidth (show ¬ 2 = 4 by decide)
    | writeByte a v => exact absurd hwidth (show ¬ 1 = 4 by decide)
    | writeHalf a v => exact absurd hwidth (show ¬ 2 = 4 by decide)

theorem perform_read (hc : c.output ≠ none) : (c.perform h mem).2 = mem := by
  cases c <;> first | rfl | exact absurd rfl hc

theorem output_perform (hc : c.output ≠ none) (hacc : c.Accepted mem.size) :
    (c.perform h mem).1.output =
      some (if c.Kept h mem.isBigEndian then ByteStore.read mem.isBigEndian mem.memo c.place c.width
        else 0) := by
  by_cases hkept : c.Kept h mem.isBigEndian
  · rw [perform_of_kept h hacc hkept, if_pos hkept, ← found_eq mem.isBigEndian mem.memo hc]
    rfl
  · rw [if_neg hkept]
    simp only [Kept, not_or, Bool.not_eq_false, Bool.not_eq_true] at hkept
    obtain ⟨hhost, hbe, hwidth⟩ := hkept
    cases c <;> simp only [Accepted, Aligned, address, and_true] at hacc
    case readByte a v =>
      rw [perform, memoryReadByte, if_neg (by omega), hbe]
      exact congrArg (fun b : Byte => some b.toNat) (reverseEndianess_byte_lost h hhost _)
    case readHalf a v =>
      rw [perform, memoryReadHalf, if_neg (by omega), hbe]
      exact congrArg (fun b : Half => some b.toNat) (reverseEndianess_half_lost h hhost _)
    case readWord a v => exact absurd rfl hwidth
    all_goals exact absurd rfl hc

theorem perform_write (hc : c.output = none) (hacc : c.Accepted mem.size) :
    (c.perform h mem).2 = mem.withMemo (writeAll mem.memo (ByteStore.writes mem.isBigEndian c.place
      c.width (if c.Kept h mem.isBigEndian then c.number else 0))) := by
  by_cases hkept : c.Kept h mem.isBigEndian
  · rw [perform_of_kept h hacc hkept, if_pos hkept, ← writes_eq mem.isBigEndian hc]
    rfl
  · rw [if_neg hkept]
    simp only [Kept, not_or, Bool.not_eq_false, Bool.not_eq_true] at hkept
    obtain ⟨hhost, hbe, hwidth⟩ := hkept
    cases c <;> simp only [Accepted, Aligned, address, and_true] at hacc
    case writeByte a v =>
      rw [perform, memoryWriteByte, if_neg (by omega), hbe]
      simp only [width, ByteStore.writes_one, place_zero, address, Bool.not_false, if_true,
        reverseEndianess_byte_lost h hhost]
      rfl
    case writeHalf a v =>
      rw [perform, memoryWriteHalf, if_neg (by omega), hbe]
      simp only [width, ByteStore.writes_two, place_zero, address, Bool.not_false, if_true,
        reverseEndianess_half_lost h hhost]
      rfl
    case writeWord a v => exact absurd rfl hwidth
    all_goals exact absurd hc (Option.some_ne_none _)

theorem output_perform_iff (hc : c.output ≠ none) (hacc : c.Accepted mem.size) :
    (c.perform h mem).1.output = c.found mem.isBigEndian mem.memo ↔
      c.Kept h mem.isBigEndian ∨ c.found mem.isBigEndian mem.memo = some 0 := by
  rw [output_perform h hc hacc, found_eq _ _ hc, Option.some.injEq, Option.some.injEq]
  by_cases hkept : c.Kept h mem.isBigEndian
  · rw [if_pos hkept]
    exact iff_of_true rfl (.inl hkept)
  · rw [if_neg hkept, or_iff_right hkept, eq_comm]

theorem read_perform_iff (hc : c.output = none) (hacc : c.Accepted mem.size) :
    ByteStore.read mem.isBigEndian (c.perform h mem).2.memo c.place c.width =
        c.number % 256 ^ c.width ↔
      c.Kept h mem.isBigEndian ∨ c.number % 256 ^ c.width = 0 := by
  have hread : ∀ n, ByteStore.read mem.isBigEndian (mem.withMemo (writeAll mem.memo
      (ByteStore.writes mem.isBigEndian c.place c.width n))).memo c.place c.width =
      n % 256 ^ c.width :=
    fun n => ByteStore.read_writeAll_writes mem.isBigEndian mem.memo c.nodup_places n
  rw [perform_write h hc hacc, hread]
  by_cases hkept : c.Kept h mem.isBigEndian
  · rw [if_pos hkept]
    exact iff_of_true rfl (.inl hkept)
  · rw [if_neg hkept, or_iff_right hkept, Nat.zero_mod, eq_comm]

end

/-! ## The bounds of the buffer -/

theorem Aligned.offset {c : Call} (hal : c.Aligned) : c.address.toNat % 4 + c.width ≤ 4 := by
  cases c <;> simp only [Aligned, address, width] at hal ⊢ <;> omega

theorem Aligned.toNat_place {c : Call} (hal : c.Aligned) {k : Nat} (hk : k < c.width) :
    (c.place k).toNat = c.address.toNat + k := by
  have hoff := hal.offset
  have hlt := c.address.isLt
  rw [place, BitVec.toNat_add, BitVec.toNat_ofNat]
  omega

theorem width_pos (c : Call) : 0 < c.width := by cases c <;> exact Nat.succ_pos _

/-- The call returned 0 and all bytes it touches are in the buffer, or it returned -1 and changed
nothing. -/
def Bounded (h : Host) (mem : MemoryData) (c : Call) : Prop :=
  ((c.perform h mem).1.result = 0 ∧ ∀ k < c.width, (c.place k).toNat < 4 * mem.size) ∨
  ((c.perform h mem).1 = ⟨-1, c.output⟩ ∧ (c.perform h mem).2 = mem)

theorem bounded_of_rejected (h : Host) (mem : MemoryData) (c : Call)
    (hrej : ¬ c.Accepted mem.size) : c.Bounded h mem := by
  right
  rw [perform_rejected h mem c hrej]
  exact ⟨rfl, rfl⟩

theorem bounded_iff_of_accepted (h : Host) (mem : MemoryData) (c : Call)
    (hacc : c.Accepted mem.size) : c.Bounded h mem ↔ c.address.toNat / 4 ≠ mem.size := by
  have hres := result_accepted h mem c hacc
  obtain ⟨hle, hal⟩ := hacc
  have hoff := hal.offset
  constructor
  · rintro (⟨-, hin⟩ | ⟨hfail, -⟩) heq
    · have hfirst := hin 0 c.width_pos
      rw [place_zero] at hfirst
      omega
    · rw [hfail] at hres
      exact absurd hres (show (-1 : Int) ≠ 0 by decide)
  · intro hne
    refine Or.inl ⟨hres, fun k hk => ?_⟩
    rw [hal.toNat_place hk]
    omega

end Call

/-- The six functions keep to the buffer except for aligned accesses to the word just behind it: the
test compares the word index with `size` by `>`. -/
theorem memory_bounds (h : Host) (size : Nat) (be : Bool) (content : Word → Byte) (c : Call) :
    c.Bounded h (memoryCreate size be content) ↔ ¬ (c.address.toNat / 4 = size ∧ c.Aligned) := by
  by_cases hacc : c.Accepted size
  · rw [Call.bounded_iff_of_accepted h (memoryCreate size be content) c hacc]
    exact ⟨fun hne hbad => hne hbad.1, fun hgood heq => hgood ⟨heq, hacc.2⟩⟩
  · refine iff_of_true (Call.bounded_of_rejected h (memoryCreate size be content) c hacc) ?_
    rintro ⟨heq, hal⟩
    exact hacc ⟨le_of_eq heq, hal⟩

/-- Reading the byte at address 4 of a memory of one word succeeds. -/
theorem memory_bounds_behind :
    ¬ (Call.readByte 4 0).Bounded Host.x86 (memoryCreate 1 true (fun _ => 0)) := by
  rintro (⟨-, hin⟩ | ⟨hfail, -⟩)
  · exact absurd (hin 0 (by decide)) (by decide)
  · exact absurd hfail (by decide)

/-! ## Runs -/

def after (h : Host) (mem : MemoryData) (calls : List Call) : MemoryData :=
  calls.foldl (fun mem c => (c.perform h mem).2) mem

/-- The store of bytes after a run: each byte is the one most recently written. -/
def lastBytes (be : Bool) (content : Word → Byte) (calls : List Call) (i : Word) : Byte :=
  (lastWrite (calls.flatMap (Call.writes be)) i).getD (content i)

def Call.Covers (c : Call) (i : Word) : Prop := c.output = none ∧ ∃ k < c.width, i = c.place k

theorem Call.Inside.accepted {size : Nat} {c : Call} (hin : c.Inside size) : c.Accepted size :=
  ⟨by have := hin.1; have := c.width_pos; omega, hin.2⟩

theorem Call.covers_of_mem_writes {be : Bool} {c : Call} {w : Word × Byte} (hw : w ∈ c.writes be) :
    c.Covers w.1 := by
  cases c <;> simp only [Call.writes, List.not_mem_nil] at hw
  all_goals exact ⟨rfl, ByteStore.place_of_mem_writes hw⟩

section
variable (h : Host) (hle : h.bigEndian = false) (size : Nat) (be : Bool) (content : Word → Byte)
include hle

theorem perform_inside (mem : MemoryData) (c : Call) (hin : c.Inside mem.size) :
    c.perform h mem = (⟨0, c.found mem.isBigEndian mem.memo⟩,
      mem.withMemo (writeAll mem.memo (c.writes mem.isBigEndian))) :=
  Call.perform_accepted h hle mem c hin.accepted

theorem after_memoryCreate (calls : List Call) (hcalls : ∀ c ∈ calls, c.Inside size) :
    after h (memoryCreate size be content) calls =
      memoryCreate size be (lastBytes be content calls) := by
  induction calls using List.reverseRecOn with
  | nil => rfl
  | append_singleton calls c ih =>
    have hc : c.Inside size := hcalls c (by simp)
    have hbytes : writeAll (lastBytes be content calls) (c.writes be) =
        lastBytes be content (calls ++ [c]) := by
      funext i
      simp only [lastBytes, writeAll_apply, List.flatMap_append, List.flatMap_cons,
        List.flatMap_nil, List.append_nil, lastWrite_append]
      cases lastWrite (c.writes be) i <;> rfl
    rw [after, List.foldl_append, List.foldl_cons, List.foldl_nil, ← after,
      ih (fun c' hc' => hcalls c' (by simp [hc'])), perform_inside h hle _ c hc, ← hbytes]
    rfl

end

/-- **The memory refines a store of bytes**: on a little-endian host, after any run of aligned calls
inside the buffer, such a call returns 0, a read gives the number composed of the bytes most
recently written, and only the bytes a write covers change. -/
theorem memory_refines_byteStore (h : Host) (hle : h.bigEndian = false) (size : Nat) (be : Bool)
    (content : Word → Byte) (calls : List Call) (hcalls : ∀ c ∈ calls, c.Inside size) (c : Call)
    (hc : c.Inside size) :
    (c.perform h (after h (memoryCreate size be content) calls)).1 =
      ⟨0, c.found be (lastBytes be content calls)⟩ ∧
    (c.perform h (after h (memoryCreate size be content) calls)).2 =
      memoryCreate size be (lastBytes be content (calls ++ [c])) ∧
    ∀ i, ¬ c.Covers i → lastBytes be content (calls ++ [c]) i = lastBytes be content calls i := by
  have hsnoc : ∀ c' ∈ calls ++ [c], c'.Inside size := by
    intro c' hc'
    rcases List.mem_append.mp hc' with hold | hnew
    · exact hcalls c' hold
    · rw [List.mem_singleton.mp hnew]
      exact hc
  have hafter := after_memoryCreate h hle size be content (calls ++ [c]) hsnoc
  rw [after, List.foldl_append, List.foldl_cons, List.foldl_nil, ← after] at hafter
  refine ⟨?_, hafter, fun i hi => ?_⟩
  · rw [after_memoryCreate h hle size be content calls hcalls, perform_inside h hle _ c hc]
    rfl
  · have hnone : lastWrite (c.writes be) i = none :=
      lastWrite_eq_none.mpr fun w hw heq => hi (heq ▸ Call.covers_of_mem_writes hw)
    simp only [lastBytes, List.flatMap_append, List.flatMap_cons, List.flatMap_nil, List.append_nil,
      lastWrite_append, hnone, Option.none_or]

/-- The bytes of a stored word, read as a half in a little-endian memory after one of them has been
overwritten. -/
theorem memory_refines_byteStore_overlap :
    ((Call.readHalf 6 0).perform Host.x86 (after Host.x86 (memoryCreate 2 false (fun _ => 0))
      [.writeWord 4 0x11223344, .writeByte 7 0x55])).1 = ⟨0, some 0x5522⟩ :=
  (memory_refines_byteStore Host.x86 rfl 2 false (fun _ => 0)
    [.writeWord 4 0x11223344, .writeByte 7 0x55]
    (by simp [Call.Inside, Call.Aligned, Call.address, Call.width]) (.readHalf 6 0)
    ⟨by decide, by show 6 % 4 ≤ 2; decide⟩).1.trans (by decide)

end Armator
