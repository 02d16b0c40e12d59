import Armator.MemoryCalls

/-!
# Byte reversal

`reverse_endianess` finds the significant bytes of its value where a little-endian host has them, so
on a big-endian host it reverses the other end of the object for the widths 8 and 16. A little-endian
memory that transports a number other than 0 in a byte or a halfword depends on the host for this
(`byteReversal_iff`).
-/

namespace Armator

open LastWrite

/-! ## The helper -/

/-- The low `taille` bits of a word with their bytes in reverse order. -/
def reversedBytes (value : Word) (taille : Byte) : Word :=
  BitVec.ofNat 32 (ByteStore.value true (ByteStore.bytes false (taille.toNat / 8) value.toNat))

section
variable (h : Host) (value : Word)

theorem toNat_reversedBytes (taille : Byte) :
    (reversedBytes value taille).toNat = ByteStore.read true
      (fun i => BitVec.ofNat 8 (value.toNat / 256 ^ i)) id (taille.toNat / 8) % 2 ^ 32 :=
  BitVec.toNat_ofNat ..

theorem reversedBytes_one : (reversedBytes value 8).toNat = value.toNat % 256 := by
  have hcount : (8 : Byte).toNat / 8 = 1 := rfl
  rw [toNat_reversedBytes, hcount, ByteStore.read_one]
  simp only [id_eq, BitVec.toNat_ofNat, Nat.reducePow, Nat.div_one]
  omega

theorem reversedBytes_two :
    (reversedBytes value 16).toNat = value.toNat % 256 * 2 ^ 8 + value.toNat / 2 ^ 8 % 256 := by
  have hcount : (16 : Byte).toNat / 8 = 2 := rfl
  rw [toNat_reversedBytes, hcount, ByteStore.read_two, if_pos rfl]
  simp only [id_eq, BitVec.toNat_ofNat, Nat.reducePow, Nat.div_one]
  omega

theorem reverseEndianess_32 : reverseEndianess h value 32 = reversedBytes value 32 := by
  have hlt := value.isLt
  have hcount : (32 : Byte).toNat / 8 = 4 := rfl
  apply BitVec.eq_of_toNat_eq
  rw [reverseEndianess_word, toNat_reversedBytes, hcount, ByteStore.read_four, if_pos rfl,
    ← Nat.mod_eq_of_lt (show value.toNat / 2 ^ 24 < 256 by omega)]
  simp only [id_eq, BitVec.toNat_ofNat, Nat.reducePow, Nat.div_one]
  omega

theorem reverseEndianess_16_iff :
    reverseEndianess h value 16 = reversedBytes value 16 ↔ h.bigEndian = false ∨ value = 0 := by
  have hlt := value.isLt
  have hzero : value = 0 ↔ value.toNat = 0 := by
    rw [← BitVec.toNat_inj]
    rfl
  rw [← BitVec.toNat_inj, reverseEndianess_two, reversedBytes_two, hzero]
  cases h.bigEndian with
  | false => exact iff_of_true rfl (Or.inl rfl)
  | true =>
    simp only [if_true, Bool.true_eq_false, false_or]
    omega

theorem reverseEndianess_8_iff :
    reverseEndianess h value 8 = reversedBytes value 8 ↔ h.bigEndian = false ∨ u8 value = 0 := by
  have hzero : u8 value = 0 ↔ value.toNat % 256 = 0 := by
    rw [← BitVec.toNat_inj, BitVec.toNat_setWidth]
    rfl
  rw [← BitVec.toNat_inj, reverseEndianess_one, reversedBytes_one, hzero]
  cases h.bigEndian with
  | false => exact iff_of_true rfl (Or.inl rfl)
  | true =>
    simp only [if_true, Bool.true_eq_false, false_or]
    exact eq_comm

theorem reverseEndianess_iff {taille : Byte} (htaille : taille = 8 ∨ taille = 16 ∨ taille = 32) :
    reverseEndianess h value taille = reversedBytes value taille ↔
      h.bigEndian = false ∨ taille = 32 ∨ value = 0 ∨ (taille = 8 ∧ u8 value = 0) := by
  rcases htaille with rfl | rfl | rfl
  · rw [reverseEndianess_8_iff]
    constructor
    · rintro (hle | hbyte)
      · exact Or.inl hle
      · exact Or.inr (Or.inr (Or.inr ⟨rfl, hbyte⟩))
    · rintro (hle | hword | hzero | ⟨-, hbyte⟩)
      · exact Or.inl hle
      · exact absurd hword (by decide)
      · rw [hzero]
        exact Or.inr rfl
      · exact Or.inr hbyte
  · rw [reverseEndianess_16_iff]
    simp
  · exact iff_of_true (reverseEndianess_32 h value) (Or.inr (Or.inl rfl))

end

/-! ## The memory -/

namespace Call

/-- The number an access finds in the memory or puts there. -/
def transported (mem : MemoryData) (c : Call) : Nat :=
  if c.output = none then c.number else ByteStore.read mem.isBigEndian mem.memo c.place c.width

/-- What an accepted call that transports a number leaves. -/
def leaves (mem : MemoryData) (c : Call) (n : Nat) : Answer × MemoryData :=
  if c.output = none then
    (⟨0, none⟩, mem.withMemo
      (writeAll mem.memo (ByteStore.writes mem.isBigEndian c.place c.width n)))
  else (⟨0, some n⟩, mem)

section
variable {h : Host} {mem : MemoryData} {c : Call}

theorem number_lt (c : Call) : c.number < 256 ^ c.width := by
  cases c with
  | writeByte a v => exact v.isLt
  | writeHalf a v => exact v.isLt
  | writeWord a v => exact v.isLt
  | _ => exact Nat.pow_pos (by decide)

theorem output_perform_write (hc : c.output = none) : (c.perform h mem).1.output = none := by
  cases c <;> first | rfl | exact absurd hc (Option.some_ne_none _)

theorem perform_eq_leaves (hacc : c.Accepted mem.size) :
    c.perform h mem =
      c.leaves mem (if c.Kept h mem.isBigEndian then c.transported mem else 0) := by
  have hresult := result_accepted h mem c hacc
  unfold leaves transported
  by_cases hc : c.output = none
  · rw [if_pos hc, if_pos hc]
    have hanswer : (c.perform h mem).1 = ⟨0, none⟩ := by
      rw [← hresult, ← output_perform_write hc]
    exact Prod.ext hanswer (perform_write h hc hacc)
  · rw [if_neg hc, if_neg hc]
    have hanswer : (c.perform h mem).1 = ⟨0, some (if c.Kept h mem.isBigEndian then
        ByteStore.read mem.isBigEndian mem.memo c.place c.width else 0)⟩ := by
      rw [← hresult, ← output_perform h hc hacc]
    exact Prod.ext hanswer (perform_read h hc)

theorem leaves_eq_zero {n : Nat} (hn : n < 256 ^ c.width)
    (hsame : c.leaves mem n = c.leaves mem 0) : n = 0 := by
  unfold leaves at hsame
  by_cases hc : c.output = none
  · rw [if_pos hc, if_pos hc] at hsame
    have hread := congrArg (fun r : Answer × MemoryData =>
      ByteStore.read mem.isBigEndian r.2.memo c.place c.width) hsame
    dsimp only [MemoryData.withMemo] at hread
    rw [ByteStore.read_writeAll_writes _ _ c.nodup_places,
      ByteStore.read_writeAll_writes _ _ c.nodup_places] at hread
    rwa [Nat.mod_eq_of_lt hn, Nat.zero_mod] at hread
  · rw [if_neg hc, if_neg hc] at hsame
    exact Option.some.inj (congrArg (fun r : Answer × MemoryData => r.1.output) hsame)

theorem transported_lt : c.transported mem < 256 ^ c.width := by
  unfold transported
  split
  · exact c.number_lt
  · have hlt := ByteStore.value_lt mem.isBigEndian ((List.range c.width).map fun i =>
      mem.memo (c.place i))
    rwa [List.length_map, List.length_range] at hlt

end

theorem perform_same_iff (mem : MemoryData) (c : Call) :
    (∀ h h' : Host, c.perform h mem = c.perform h' mem) ↔
      mem.isBigEndian = true ∨ c.width = 4 ∨ ¬ c.Accepted mem.size ∨ c.transported mem = 0 := by
  constructor
  · intro hsame
    by_cases hkept : mem.isBigEndian = true ∨ c.width = 4
    · exact hkept.imp_right Or.inl
    · by_cases hacc : c.Accepted mem.size
      · have hfound : c.Kept Host.x86 mem.isBigEndian := Or.inl rfl
        have hlost : ¬ c.Kept Host.bigEndianHost mem.isBigEndian := by
          rintro (hhost | hkept')
          · exact absurd hhost (by decide)
          · exact hkept hkept'
        have hhosts := hsame Host.x86 Host.bigEndianHost
        rw [perform_eq_leaves hacc, perform_eq_leaves hacc, if_pos hfound, if_neg hlost] at hhosts
        exact Or.inr (Or.inr (Or.inr (leaves_eq_zero transported_lt hhosts)))
      · exact Or.inr (Or.inr (Or.inl hacc))
  · intro hcases h h'
    by_cases hacc : c.Accepted mem.size
    · rw [perform_eq_leaves hacc, perform_eq_leaves hacc]
      rcases hcases with hbe | hwidth | hrej | hzero
      · have hkept : ∀ h : Host, c.Kept h mem.isBigEndian := fun _ => Or.inr (Or.inl hbe)
        rw [if_pos (hkept h), if_pos (hkept h')]
      · have hkept : ∀ h : Host, c.Kept h mem.isBigEndian := fun _ => Or.inr (Or.inr hwidth)
        rw [if_pos (hkept h), if_pos (hkept h')]
      · exact absurd hacc hrej
      · rw [hzero, ite_self, ite_self]
    · rw [perform_rejected h mem c hacc, perform_rejected h' mem c hacc]

end Call

/-- **Byte reversal**: on a big-endian host the helper is right for the width 32, and for the others
only if the bits it loses are 0. -/
theorem byteReversal_iff (h : Host) (value : Word) (taille : Byte)
    (htaille : taille = 8 ∨ taille = 16 ∨ taille = 32) (mem : MemoryData) (c : Call) :
    (reverseEndianess h value taille = reversedBytes value taille ↔
      h.bigEndian = false ∨ taille = 32 ∨ value = 0 ∨ (taille = 8 ∧ u8 value = 0)) ∧
    ((∀ h h' : Host, c.perform h mem = c.perform h' mem) ↔
      mem.isBigEndian = true ∨ c.width = 4 ∨ ¬ c.Accepted mem.size ∨ c.transported mem = 0) :=
  ⟨reverseEndianess_iff h value htaille, Call.perform_same_iff mem c⟩

/-- A halfword on a little-endian host, and a byte that is 0. -/
theorem byteReversal_iff_half :
    reverseEndianess Host.x86 0x5566 16 = reversedBytes 0x5566 16 ∧
    ∀ h h' : Host, (Call.writeByte 0 0).perform h (memoryCreate 1 false fun _ => 0) =
      (Call.writeByte 0 0).perform h' (memoryCreate 1 false fun _ => 0) := by
  obtain ⟨hhalf, hbyte⟩ := byteReversal_iff Host.x86 0x5566 16 (by decide)
    (memoryCreate 1 false fun _ => 0) (.writeByte 0 0)
  exact ⟨hhalf.mpr (Or.inl rfl), hbyte.mpr (Or.inr (Or.inr (Or.inr rfl)))⟩

/-- A big-endian host loses a halfword, and the byte it writes. -/
theorem byteReversal_iff_lost :
    reverseEndianess Host.bigEndianHost 0x5566 16 = 0 ∧
    reversedBytes 0x5566 16 = 0x6655 ∧
    ((Call.writeByte 0 0x11).perform Host.x86 (memoryCreate 1 false fun _ => 0)).2.memo 0 = 0x11 ∧
    ((Call.writeByte 0 0x11).perform Host.bigEndianHost
      (memoryCreate 1 false fun _ => 0)).2.memo 0 = 0 := by
  decide

end Armator
