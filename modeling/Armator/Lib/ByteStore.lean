import Mathlib.Data.List.Nodup
import Mathlib.Data.Nat.Digits.Defs
import Armator.Lib.LastWrite

/-!
# Numbers in a byte store

A number of `n` bytes lies at the places `place 0`, ..., `place (n - 1)` of a store of bytes, most
significant byte first or least significant byte first. `read` composes the bytes there, `writes`
is the list of single-byte writes that puts a number there.
-/

namespace ByteStore

variable {ι : Type}

/-- The number spelled by bytes, the first one the most significant if `be`. -/
def value (be : Bool) (bs : List (BitVec 8)) : Nat :=
  Nat.ofDigits 256 ((if be then bs.reverse else bs).map BitVec.toNat)

def bytes (be : Bool) (n v : Nat) : List (BitVec 8) :=
  let bs := (List.range n).map (fun i => BitVec.ofNat 8 (v / 256 ^ i))
  if be then bs.reverse else bs

/-- The number at `place 0`, ..., `place (n - 1)`. -/
def read (be : Bool) (s : ι → BitVec 8) (place : Nat → ι) (n : Nat) : Nat :=
  value be ((List.range n).map (fun i => s (place i)))

/-- The writes that put the number `v` at `place 0`, ..., `place (n - 1)`. -/
def writes (be : Bool) (place : Nat → ι) (n v : Nat) : List (ι × BitVec 8) :=
  ((List.range n).map place).zip (bytes be n v)

theorem place_of_mem_writes {be : Bool} {place : Nat → ι} {n v : Nat} {w : ι × BitVec 8}
    (hw : w ∈ writes be place n v) : ∃ k < n, w.1 = place k := by
  have hmem : w.1 ∈ (List.range n).map place := (List.of_mem_zip hw).1
  obtain ⟨k, hk, hplace⟩ := List.mem_map.mp hmem
  exact ⟨k, List.mem_range.mp hk, hplace.symm⟩

/-! ## Reading what was written -/

@[simp] theorem length_bytes (be : Bool) (n v : Nat) : (bytes be n v).length = n := by
  cases be <;> simp [bytes]

theorem value_bytes (be : Bool) (n v : Nat) : value be (bytes be n v) = v % 256 ^ n := by
  have hdigits : ∀ v, Nat.ofDigits 256 ((List.range n).map fun i => (v / 256 ^ i) % 256) =
      v % 256 ^ n := by
    induction n with
    | zero => intro v; simp [Nat.mod_one]
    | succ n ih =>
      intro v
      have hshift : ∀ i, v / 256 ^ (i + 1) = v / 256 / 256 ^ i := fun i => by
        rw [Nat.pow_succ', Nat.div_div_eq_div_mul]
      rw [List.range_succ_eq_map, List.map_cons, List.map_map, Nat.ofDigits_cons, Nat.pow_succ',
        Nat.mod_mul, ← ih (v / 256)]
      simp only [Function.comp_def, Nat.succ_eq_add_one, hshift, Nat.pow_zero, Nat.div_one]
  rw [← hdigits v]
  cases be <;> simp [value, bytes, Function.comp_def]

theorem value_injective {be : Bool} {bs bs' : List (BitVec 8)} (hlen : bs.length = bs'.length)
    (h : value be bs = value be bs') : bs = bs' := by
  have hlt : ∀ (bs : List (BitVec 8)), ∀ l ∈ bs.map BitVec.toNat, l < 256 := by
    intro bs l hl
    obtain ⟨b, -, rfl⟩ := List.mem_map.mp hl
    exact b.isLt
  have hdigits : ∀ {bs bs' : List (BitVec 8)}, bs.length = bs'.length →
      Nat.ofDigits 256 (bs.map BitVec.toNat) = Nat.ofDigits 256 (bs'.map BitVec.toNat) →
      bs = bs' := by
    intro bs bs' hlen h
    refine List.map_injective_iff.mpr (fun _ _ => BitVec.eq_of_toNat_eq) ?_
    exact Nat.ofDigits_inj_of_len_eq (by decide) (by simpa using hlen) (hlt bs) (hlt bs') h
  cases be with
  | false => exact hdigits hlen h
  | true => exact List.reverse_injective (hdigits (by simpa using hlen) h)

theorem value_lt (be : Bool) (bs : List (BitVec 8)) : value be bs < 256 ^ bs.length := by
  have hlt : ∀ bs : List (BitVec 8), Nat.ofDigits 256 (bs.map BitVec.toNat) < 256 ^ bs.length := by
    intro bs
    rw [← List.length_map BitVec.toNat]
    refine Nat.ofDigits_lt_base_pow_length (by decide) fun d hd => ?_
    obtain ⟨b, -, rfl⟩ := List.mem_map.mp hd
    exact b.isLt
  cases be with
  | false => exact hlt bs
  | true =>
    rw [← List.length_reverse]
    exact hlt bs.reverse

theorem writes_congr {be : Bool} {place : Nat → ι} {n v v' : Nat} (hv : v % 256 ^ n = v' % 256 ^ n) :
    writes be place n v = writes be place n v' := by
  have hbytes : bytes be n v = bytes be n v' := by
    apply @value_injective be
    · rw [length_bytes, length_bytes]
    · rw [value_bytes, value_bytes, hv]
  rw [writes, hbytes, writes]

theorem bytes_value (be : Bool) (bs : List (BitVec 8)) : bytes be bs.length (value be bs) = bs := by
  apply @value_injective be
  · exact length_bytes be _ _
  · rw [value_bytes, Nat.mod_eq_of_lt (value_lt be bs)]

section
variable {ι : Type} [DecidableEq ι]

theorem map_writeAll_zip {places : List ι} (hplaces : places.Nodup) (s : ι → BitVec 8)
    {bs : List (BitVec 8)} (hlen : places.length = bs.length) :
    places.map (LastWrite.writeAll s (places.zip bs)) = bs := by
  induction places generalizing s bs with
  | nil => exact (List.length_eq_zero_iff.mp hlen.symm).symm
  | cons p places ih =>
    obtain ⟨b, bs, rfl⟩ := List.exists_cons_of_length_eq_add_one hlen.symm
    obtain ⟨hp, hplaces⟩ := List.nodup_cons.mp hplaces
    have hnone : LastWrite.lastWrite (places.zip bs) p = none := by
      refine LastWrite.lastWrite_eq_none.mpr fun w hw heq => hp ?_
      rw [← heq]
      exact (List.of_mem_zip hw).1
    have hfirst : LastWrite.writeAll s ((p :: places).zip (b :: bs)) =
        LastWrite.writeAll (Function.update s p b) (places.zip bs) := rfl
    rw [hfirst, List.map_cons, ih hplaces _ (Nat.succ.inj hlen), LastWrite.writeAll_apply, hnone,
      Option.getD_none, Function.update_self]

theorem read_writeAll_writes (be : Bool) (s : ι → BitVec 8) {place : Nat → ι} {n : Nat}
    (hplace : ((List.range n).map place).Nodup) (v : Nat) :
    read be (LastWrite.writeAll s (writes be place n v)) place n = v % 256 ^ n := by
  have hlen : ((List.range n).map place).length = (bytes be n v).length := by
    rw [List.length_map, List.length_range, length_bytes]
  have hbytes := map_writeAll_zip hplace s hlen
  rw [List.map_map] at hbytes
  exact (congrArg (value be) hbytes).trans (value_bytes be n v)

end

/-! ## Numbers of one, two and four bytes -/

section
variable (be : Bool) (s : ι → BitVec 8) (place : Nat → ι) (v : Nat)

theorem read_one : read be s place 1 = (s (place 0)).toNat := by
  cases be <;> simp [read, value]

theorem read_two : read be s place 2 =
    if be then (s (place 0)).toNat * 2 ^ 8 + (s (place 1)).toNat
    else (s (place 1)).toNat * 2 ^ 8 + (s (place 0)).toNat := by
  cases be <;> simp [read, value, List.range_succ, Nat.ofDigits_cons] <;> omega

theorem read_four : read be s place 4 =
    if be then (s (place 0)).toNat * 2 ^ 24 + (s (place 1)).toNat * 2 ^ 16 +
      (s (place 2)).toNat * 2 ^ 8 + (s (place 3)).toNat
    else (s (place 3)).toNat * 2 ^ 24 + (s (place 2)).toNat * 2 ^ 16 +
      (s (place 1)).toNat * 2 ^ 8 + (s (place 0)).toNat := by
  cases be <;> simp [read, value, List.range_succ, Nat.ofDigits_cons] <;> omega

theorem writes_one : writes be place 1 v = [(place 0, BitVec.ofNat 8 v)] := by
  cases be <;> simp [writes, bytes]

theorem writes_two : writes be place 2 v =
    if be then [(place 0, BitVec.ofNat 8 (v / 2 ^ 8)), (place 1, BitVec.ofNat 8 v)]
    else [(place 0, BitVec.ofNat 8 v), (place 1, BitVec.ofNat 8 (v / 2 ^ 8))] := by
  cases be <;> simp [writes, bytes, List.range_succ]

theorem writes_four : writes be place 4 v =
    if be then [(place 0, BitVec.ofNat 8 (v / 2 ^ 24)), (place 1, BitVec.ofNat 8 (v / 2 ^ 16)),
      (place 2, BitVec.ofNat 8 (v / 2 ^ 8)), (place 3, BitVec.ofNat 8 v)]
    else [(place 0, BitVec.ofNat 8 v), (place 1, BitVec.ofNat 8 (v / 2 ^ 8)),
      (place 2, BitVec.ofNat 8 (v / 2 ^ 16)), (place 3, BitVec.ofNat 8 (v / 2 ^ 24))] := by
  cases be <;> simp [writes, bytes, List.range_succ]

end

/-! ## Consecutive addresses -/

section
variable {w : Nat} (a : BitVec w)

/-- The `n` addresses from `a` on. -/
def span (n : Nat) : List (BitVec w) := (List.range n).map fun k => a + BitVec.ofNat w k

@[simp] theorem length_span (n : Nat) : (span a n).length = n := by
  rw [span, List.length_map, List.length_range]

theorem span_succ (n : Nat) : span a (n + 1) = a :: span (a + 1) n := by
  have hzero : a + BitVec.ofNat w 0 = a := BitVec.add_zero a
  have hshift : ∀ k, a + BitVec.ofNat w (k + 1) = a + 1 + BitVec.ofNat w k := fun k => by
    rw [Nat.add_comm, BitVec.ofNat_add, BitVec.add_assoc]
    rfl
  rw [span, List.range_succ_eq_map, List.map_cons, List.map_map, hzero]
  refine congrArg (a :: ·) (List.map_congr_left fun k _ => hshift k)

theorem nodup_span {n : Nat} (hn : n ≤ 2 ^ w) : (span a n).Nodup := by
  refine List.Nodup.map_on (fun i hi j hj heq => ?_) List.nodup_range
  have hij := congrArg BitVec.toNat ((BitVec.add_right_inj a).mp heq)
  rw [List.mem_range] at hi hj
  rwa [BitVec.toNat_ofNat, BitVec.toNat_ofNat, Nat.mod_eq_of_lt (by omega),
    Nat.mod_eq_of_lt (by omega)] at hij

theorem mem_span {i : BitVec w} {n : Nat} :
    i ∈ span a n ↔ ∃ k < n, i = a + BitVec.ofNat w k := by
  simp only [span, List.mem_map, List.mem_range, eq_comm]

end

end ByteStore
