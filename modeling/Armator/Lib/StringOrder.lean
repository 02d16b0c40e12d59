import Mathlib.Data.List.Lex
import Armator.Lib.CString

/-!
# The order of C strings

`strcmp` on strings as the C library compares them. On strings proper, which have no terminator among
their characters, it decides a linear order (`strcmp_neg_iff`, `strcmp_eq_zero_iff`).
-/

namespace CString

/-- `strcmp`: the difference of the first characters that differ, the terminators included. C fixes
no more than its sign. -/
def strcmp : Chars → Chars → Int
  | [], [] => 0
  | [], d :: _ => -(d.toNat : Int)
  | c :: _, [] => c.toNat
  | c :: s, d :: t => if c = d then strcmp s t else (c.toNat : Int) - d.toNat

/-- A string: characters other than the terminator. -/
@[ext] structure Str where
  chars : Chars
  ne_zero : ∀ c ∈ chars, c ≠ 0
  deriving DecidableEq

namespace Str

/-- The characters as numbers, which is how they are compared. -/
def key (s : Str) : List Nat := s.chars.map BitVec.toNat

theorem key_injective : Function.Injective key := fun _ _ heq =>
  Str.ext (List.map_injective_iff.mpr (fun _ _ => BitVec.eq_of_toNat_eq) heq)

instance : LinearOrder Str := LinearOrder.lift' key key_injective

end Str

theorem strcmp_cases {s t : Chars} (hs : ∀ c ∈ s, c ≠ 0) (ht : ∀ c ∈ t, c ≠ 0) :
    (strcmp s t < 0 ∧ s.map BitVec.toNat < t.map BitVec.toNat) ∨ (strcmp s t = 0 ∧ s = t) ∨
      (0 < strcmp s t ∧ t.map BitVec.toNat < s.map BitVec.toNat) := by
  have hpos : ∀ c : BitVec 8, c ≠ 0 → 0 < c.toNat := by
    intro c hc
    exact Nat.pos_of_ne_zero fun heq => hc (BitVec.eq_of_toNat_eq heq)
  induction s generalizing t with
  | nil =>
    cases t with
    | nil => exact Or.inr (Or.inl ⟨rfl, rfl⟩)
    | cons d t =>
      have hd := hpos d (ht d List.mem_cons_self)
      refine Or.inl ⟨?_, List.nil_lt_cons ..⟩
      rw [strcmp]
      omega
  | cons c s ih =>
    cases t with
    | nil =>
      have hc := hpos c (hs c List.mem_cons_self)
      refine Or.inr (Or.inr ⟨?_, List.nil_lt_cons ..⟩)
      rw [strcmp]
      omega
    | cons d t =>
      have htail := @ih t (fun e he => hs e (List.mem_cons_of_mem c he))
        (fun e he => ht e (List.mem_cons_of_mem d he))
      simp only [strcmp, List.map_cons, List.cons_lt_cons_iff, List.cons.injEq]
      by_cases hcd : c = d
      · subst hcd
        simpa using htail
      · have hne : c.toNat ≠ d.toNat := fun heq => hcd (BitVec.eq_of_toNat_eq heq)
        rw [if_neg hcd]
        rcases Nat.lt_or_gt_of_ne hne with hlt | hgt
        · exact Or.inl ⟨by omega, Or.inl hlt⟩
        · exact Or.inr (Or.inr ⟨by omega, Or.inl hgt⟩)

section
variable (s t : Str)

theorem strcmp_order :
    (strcmp s.chars t.chars < 0 ∧ s < t) ∨ (strcmp s.chars t.chars = 0 ∧ s = t) ∨
      (0 < strcmp s.chars t.chars ∧ t < s) := by
  rcases strcmp_cases s.ne_zero t.ne_zero with hlt | ⟨hzero, heq⟩ | hgt
  · exact Or.inl hlt
  · exact Or.inr (Or.inl ⟨hzero, Str.ext heq⟩)
  · exact Or.inr (Or.inr hgt)

theorem strcmp_neg_iff : strcmp s.chars t.chars < 0 ↔ s < t := by
  rcases strcmp_order s t with ⟨hsign, hlt⟩ | ⟨hsign, rfl⟩ | ⟨hsign, hgt⟩
  · exact iff_of_true hsign hlt
  · exact iff_of_false (by omega) (lt_irrefl s)
  · exact iff_of_false (by omega) hgt.asymm

theorem strcmp_pos_iff : 0 < strcmp s.chars t.chars ↔ t < s := by
  rcases strcmp_order s t with ⟨hsign, hlt⟩ | ⟨hsign, rfl⟩ | ⟨hsign, hgt⟩
  · exact iff_of_false (by omega) hlt.asymm
  · exact iff_of_false (by omega) (lt_irrefl s)
  · exact iff_of_true hsign hgt

theorem strcmp_eq_zero_iff : strcmp s.chars t.chars = 0 ↔ s = t := by
  rcases strcmp_order s t with ⟨hsign, hlt⟩ | ⟨hsign, heq⟩ | ⟨hsign, hgt⟩
  · exact iff_of_false (by omega) hlt.ne
  · exact iff_of_true hsign heq
  · exact iff_of_false (by omega) hgt.ne'

end

end CString
