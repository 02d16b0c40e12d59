import Armator.GdbProtocol
import Armator.Lib.ByteStore

/-!
# Words as text

`write_uint32` and `read_uint32` go through the bytes of a word in the same order, whatever the host
and the target are (`uint32Loop_eq`), so the second reads the text of the first, in either case of
its digits (`readUint32_of_text`). Every text of eight digits is the text of a word, so the first
also writes what the second has read (`word_codec`).
-/

namespace Armator

open CString

/-! ## The loop -/

theorem uint32Indices_eq (n : Nat) :
    uint32Indices (n + 5) 0 1 = [0, 1, 2, 3] ∧ uint32Indices (n + 5) 3 (-1) = [3, 2, 1, 0] :=
  ⟨rfl, rfl⟩

theorem uint32Loop_eq (b : Build) :
    uint32Loop b =
      if isBigEndian b.host = b.bigEndianSimulator then [0, 1, 2, 3] else [3, 2, 1, 0] := by
  rw [uint32Loop, uint32Order]
  split
  · exact (uint32Indices_eq 0).1
  · exact (uint32Indices_eq 0).2

theorem mem_uint32Loop (b : Build) {i : Nat} : i ∈ uint32Loop b ↔ i < 4 := by
  rw [uint32Loop_eq]
  split <;> simp <;> omega

@[simp] theorem length_writeUint32 (b : Build) (value : Word) :
    (writeUint32 b value).length = 8 := by
  rw [writeUint32, uint32Loop_eq]
  split <;> rfl

theorem length_uint32Indices (b : Build) (turns : Nat) :
    (uint32Indices turns (uint32Order b).1 (uint32Order b).2).length = min turns 4 := by
  have hboth : (uint32Indices turns 0 1).length = min turns 4 ∧
      (uint32Indices turns 3 (-1)).length = min turns 4 := by
    rcases turns with _ | _ | _ | _ | _ | n
    case succ.succ.succ.succ.succ =>
      obtain ⟨hup, hdown⟩ := uint32Indices_eq n
      rw [hup, hdown]
      have hmin : min (n + 5) 4 = 4 := by omega
      exact ⟨hmin.symm, hmin.symm⟩
    all_goals exact ⟨rfl, rfl⟩
  rw [uint32Order]
  split
  · exact hboth.1
  · exact hboth.2

/-! ## The bytes of a word -/

/-- The bytes whose digits `write_uint32` writes. -/
def wordBytes (b : Build) (value : Word) : List Byte :=
  (uint32Loop b).map (b.host.objectByte value)

section
variable (b : Build) (value : Word)

theorem digits_wordBytes : (wordBytes b value).flatMap twoDigits = writeUint32 b value := by
  rw [wordBytes, writeUint32, List.flatMap_map]

theorem isBigEndian_eq (h : Host) : isBigEndian h = h.bigEndian := by
  cases hbe : h.bigEndian <;> simp [isBigEndian, Host.objectByte, hbe]

theorem wordBytes_eq : wordBytes b value = ByteStore.bytes b.bigEndianSimulator 4 value.toNat := by
  have hbyte : ∀ i, b.host.objectByte value i =
      BitVec.ofNat 8 (value.toNat / 256 ^ if b.host.bigEndian then 3 - i else i) := by
    intro i
    rw [Host.objectByte, u8_ushiftRight, Nat.pow_mul]
  have hrange : List.range 4 = [0, 1, 2, 3] := rfl
  rw [wordBytes, uint32Loop_eq, isBigEndian_eq, ByteStore.bytes, hrange]
  cases hbe : b.host.bigEndian <;> cases b.bigEndianSimulator <;>
    simp [hbyte, hbe]

end

/-! ## The union -/

theorem ofObject_objectByte (h : Host) (value : Word) {bytes : Nat → Byte}
    (hbytes : ∀ i < 4, bytes i = h.objectByte value i) : h.ofObject bytes = value := by
  have hlt := value.isLt
  rw [Host.ofObject, hbytes 0 (by omega), hbytes 1 (by omega), hbytes 2 (by omega),
    hbytes 3 (by omega)]
  have happend : u8 (value >>> 24) ++ u8 (value >>> 16) ++ u8 (value >>> 8) ++ u8 (value >>> 0) =
      value := by
    apply BitVec.eq_of_toNat_eq
    rw [Host.toNat_append_bytes]
    simp only [BitVec.toNat_setWidth, BitVec.toNat_ushiftRight, Nat.shiftRight_eq_div_pow]
    omega
  cases hbe : h.bigEndian
  · simpa [Host.objectByte, hbe] using happend
  · simpa [Host.objectByte, hbe] using happend

/-! ## Reading what was written -/

section
variable (b : Build) (t : Text)

theorem Text.str_append {offset : Nat} {s rest : Chars} (ht : t.bytes.drop offset = s ++ rest)
    (hs : ∀ c ∈ s, c ≠ 0) : ∃ more, t.str offset = s ++ more := by
  refine ⟨rest.takeWhile (· ≠ 0), ?_⟩
  rw [Text.str, ht, List.takeWhile_append_of_pos fun c hc => decide_eq_true (hs c hc)]

theorem Text.str_eq {offset : Nat} {s rest : Chars} (ht : t.bytes.drop offset = s ++ 0 :: rest)
    (hs : ∀ c ∈ s, c ≠ 0) : t.str offset = s := by
  rw [Text.str, ht, List.takeWhile_append_of_pos fun c hc => decide_eq_true (hs c hc),
    List.takeWhile_cons_of_neg (by decide), List.append_nil]

theorem Build.stored_natCast {n : Nat} (hn : n < 2 ^ 32) :
    b.stored (n : Int) = BitVec.ofNat 32 n := by
  rw [Build.stored, Int.natAbs_natCast, if_pos hn, BitVec.ofInt_natCast]

theorem Build.stored_byte (c : Byte) : b.stored (c.toNat : Int) = u32 c := by
  have hlt := c.isLt
  rw [b.stored_natCast (by omega)]
  exact BitVec.ofNat_toNat 32 c

theorem ne_zero_of_isHex {s : Chars} (hs : IsHex s) : ∀ c ∈ s, c ≠ 0 := by
  rintro c hc rfl
  exact hs 0 hc (by decide)

theorem ne_zero_of_lower {s : Chars} {c : Byte} (hs : s.map lower = twoDigits c) :
    ∀ d ∈ s, d ≠ 0 := by
  refine ne_zero_of_isHex ?_
  rw [← isHex_lower, hs]
  exact isHex_twoDigits c

theorem readUint32Turn_eq {position : Nat} {s rest : Chars} {c : Byte} (value : Word)
    (bytes : Nat → Byte) (i : Nat) (ht : t.bytes.drop position = s ++ rest)
    (hs : s.map lower = twoDigits c) :
    readUint32Turn b t (position, value, bytes) i =
      (position + 2, u32 c, Function.update bytes i c) := by
  obtain ⟨more, hstr⟩ := t.str_append ht (ne_zero_of_lower hs)
  have hscan : b.scanWord 2 (t.str position) value = u32 c := by
    rw [Build.scanWord, hstr, scanHex_twoDigits hs]
    exact b.stored_byte c
  have hbyte : u8 (u32 c) = c := by
    apply BitVec.eq_of_toNat_eq
    have hlt := c.isLt
    rw [BitVec.toNat_setWidth, BitVec.toNat_setWidth]
    omega
  rw [readUint32Turn, hscan, hbyte]

theorem foldl_readUint32Turn (f : Nat → Byte) (is : List Nat) {position : Nat} {s rest : Chars}
    (value : Word) (bytes : Nat → Byte) (ht : t.bytes.drop position = s ++ rest)
    (hs : s.map lower = is.flatMap fun i => twoDigits (f i)) (j : Nat)
    (hj : j ∈ is ∨ bytes j = f j) :
    (is.foldl (readUint32Turn b t) (position, value, bytes)).2.2 j = f j := by
  induction is generalizing position s value bytes with
  | nil => exact hj.resolve_left List.not_mem_nil
  | cons i is ih =>
    have hlen : 2 ≤ s.length := by
      rw [← List.length_map lower, hs, List.flatMap_cons, List.length_append, length_twoDigits]
      omega
    obtain ⟨s1, s2, rfl, hs1, hs2⟩ := List.append_eq_map_iff.mp
      ((List.flatMap_cons ..).symm.trans hs.symm)
    rw [List.append_assoc] at ht
    have hlen1 : s1.length = 2 := by
      rw [← List.length_map lower, hs1, length_twoDigits]
    have hnext : t.bytes.drop (position + 2) = s2 ++ rest := by
      rw [← List.drop_drop, ht, ← hlen1, List.drop_left]
    rw [List.foldl_cons, readUint32Turn_eq b t value bytes i ht hs1]
    refine ih _ _ hnext hs2 ?_
    by_cases hji : j = i
    · rw [hji, Function.update_self]
      exact Or.inr rfl
    · rw [Function.update_of_ne hji]
      exact hj.imp_left fun hmem => (List.mem_cons.mp hmem).resolve_left hji

/-- **The codec**: the text of a word, in either case, is read as this word. -/
theorem readUint32_of_text {data : Nat} {s rest : Chars} {value : Word}
    (ht : t.bytes.drop data = s ++ rest) (hs : s.map lower = writeUint32 b value) :
    readUint32 b t data = value := by
  refine ofObject_objectByte b.host value fun i hi => ?_
  exact foldl_readUint32Turn b t (b.host.objectByte value) (uint32Loop b) _ _ ht hs i
    (Or.inl ((mem_uint32Loop b).mpr hi))

end

theorem lower_hexDigit {n : Nat} (hn : n < 16) : lower (hexDigit n) = hexDigit n := by
  interval_cases n <;> decide

theorem map_lower_twoDigits (c : Byte) : (twoDigits c).map lower = twoDigits c := by
  have hlt := c.isLt
  rw [twoDigits, List.map_cons, List.map_cons, lower_hexDigit (by omega), lower_hexDigit (by omega)]
  rfl

theorem map_lower_writeUint32 (b : Build) (value : Word) :
    (writeUint32 b value).map lower = writeUint32 b value := by
  rw [writeUint32, List.map_flatMap]
  simp only [map_lower_twoDigits]

theorem writeUint32_injective {b : Build} {value value' : Word}
    (heq : writeUint32 b value = writeUint32 b value') : value = value' := by
  have ht : ∀ s : Chars, (Text.mk s fun _ => 0).bytes.drop 0 = s ++ [] := fun s =>
    (List.append_nil s).symm
  rw [← readUint32_of_text b _ (ht _) (map_lower_writeUint32 b value), heq,
    readUint32_of_text b _ (ht _) (map_lower_writeUint32 b value')]

/-! ## The law -/

theorem exists_word (b : Build) {s : Chars} (hs : IsHex s) (hlen : s.length = 8) :
    ∃ value, s.map lower = writeUint32 b value := by
  obtain ⟨bs, hbs, hlower⟩ := @exists_bytes s hs 4 hlen
  have hlt : ByteStore.value b.bigEndianSimulator bs < 2 ^ 32 := by
    have hpow := ByteStore.value_lt b.bigEndianSimulator bs
    rwa [hbs] at hpow
  refine ⟨BitVec.ofNat 32 (ByteStore.value b.bigEndianSimulator bs), ?_⟩
  rw [hlower, ← digits_wordBytes, wordBytes_eq, BitVec.toNat_ofNat, Nat.mod_eq_of_lt hlt, ← hbs,
    ByteStore.bytes_value]

theorem isHex_writeUint32 (b : Build) (value : Word) : IsHex (writeUint32 b value) := by
  intro c hc
  obtain ⟨i, -, hdigit⟩ := List.mem_flatMap.mp hc
  exact isHex_twoDigits _ c hdigit

/-- `write_uint32` writes the eight lower-case digits of the bytes of a word, in the order of the
target, and `read_uint32` is its inverse on texts of eight digits, in four turns each. -/
structure WordCodec (b : Build) : Prop where
  turns : ∀ turns, (uint32Indices turns (uint32Order b).1 (uint32Order b).2).length = min turns 4
  bytes : ∀ value, writeUint32 b value =
    (ByteStore.bytes b.bigEndianSimulator 4 value.toNat).flatMap twoDigits
  digits : ∀ value, (writeUint32 b value).length = 8 ∧ IsHex (writeUint32 b value) ∧
    (writeUint32 b value).map lower = writeUint32 b value
  read : ∀ value t data rest, t.bytes.drop data = writeUint32 b value ++ rest →
    readUint32 b t data = value
  write : ∀ s t data rest, IsHex s → s.length = 8 → t.bytes.drop data = s ++ rest →
    writeUint32 b (readUint32 b t data) = s.map lower

/-- **The word codec**, for every byte order of the host and of the target. -/
theorem word_codec (b : Build) : WordCodec b := by
  constructor
  · exact length_uint32Indices b
  · intro value
    rw [← digits_wordBytes, wordBytes_eq]
  · exact fun value =>
      ⟨length_writeUint32 b value, isHex_writeUint32 b value, map_lower_writeUint32 b value⟩
  · exact fun value t data rest ht => readUint32_of_text b t ht (map_lower_writeUint32 b value)
  · intro s t data rest hs hlen ht
    obtain ⟨value, hvalue⟩ := exists_word b hs hlen
    rw [readUint32_of_text b t ht hvalue, hvalue]

end Armator
