import Mathlib.Data.List.Sort

/-!
# Sorted tables

A table keeps a list in the first cells of an array (`Holds`). A new entry is put in front of the
first one that is not smaller, and the entries from there on move up by one (`holds_inserted`). A
search keeps an interval outside which the entry is not, and halves it (`Brackets`).
-/

namespace SortedTable

variable {α : Type}

/-! ## Cells -/

/-- The first cells hold the entries of a list. -/
def Holds (cells : Nat → Option α) (l : List α) : Prop := ∀ i < l.length, cells i = l[i]?

/-- The cells with those from `k` to below `n` moved up by one. -/
def moved (cells : Nat → Option α) (k n : Nat) : Nat → Option α := fun i =>
  if k < i ∧ i ≤ n then cells (i - 1) else cells i

section
variable {cells : Nat → Option α} {k n : Nat}

theorem moved_of_le (hn : n ≤ k) : moved cells k n = cells := by
  funext i
  rw [moved, if_neg (by omega)]

theorem moved_succ (hk : k ≤ n) :
    moved (Function.update cells (n + 1) (cells n)) k n = moved cells k (n + 1) := by
  funext i
  unfold moved
  by_cases hlast : i = n + 1
  · have hbeyond : ¬(k < n + 1 ∧ n + 1 ≤ n) := by omega
    have hmoved : k < n + 1 ∧ n + 1 ≤ n + 1 := by omega
    rw [hlast, if_neg hbeyond, if_pos hmoved, Function.update_self, Nat.add_sub_cancel]
  · rw [Function.update_of_ne hlast]
    by_cases hmoved : k < i ∧ i ≤ n
    · have hone : k < i ∧ i ≤ n + 1 := by omega
      rw [if_pos hmoved, if_pos hone, Function.update_of_ne (by omega)]
    · have hone : ¬(k < i ∧ i ≤ n + 1) := by omega
      rw [if_neg hmoved, if_neg hone]

end

theorem holds_inserted {cells : Nat → Option α} {l : List α} (hl : Holds cells l) {k : Nat}
    (hk : k ≤ l.length) (x : α) :
    Holds (Function.update (moved cells k l.length) k (some x)) (l.insertIdx k x) := by
  intro i hi
  rw [List.length_insertIdx_of_le_length hk] at hi
  rw [List.getElem?_insertIdx]
  by_cases hlt : i < k
  · rw [if_pos hlt, Function.update_of_ne (by omega), moved, if_neg (by omega)]
    exact hl i (by omega)
  · rw [if_neg hlt]
    by_cases heq : i = k
    · rw [heq, Function.update_self, if_pos rfl, if_pos hk]
    · rw [if_neg heq, Function.update_of_ne heq, moved, if_pos ⟨by omega, by omega⟩]
      exact hl (i - 1) (by omega)

/-! ## Search -/

/-- `x` stands at no place outside an interval. -/
def Brackets (l : List α) (x : α) (low high : Int) : Prop :=
  ∀ i : Nat, l[i]? = some x → low ≤ i ∧ i ≤ high

section
variable {l : List α} {x y : α} {low high : Int}

theorem brackets_whole (l : List α) (x : α) : Brackets l x 0 (l.length - 1) := by
  intro i hi
  obtain ⟨hlt, -⟩ := List.getElem?_eq_some_iff.mp hi
  omega

theorem Brackets.notMem_of_empty (hb : Brackets l x low high) (hempty : high < low) : x ∉ l := by
  intro hmem
  obtain ⟨i, hi⟩ := List.mem_iff_getElem?.mp hmem
  have hbounds := hb i hi
  omega

theorem Brackets.mem_iff_of_one {i : Nat} (hb : Brackets l x i i) (hy : l[i]? = some y) :
    x ∈ l ↔ y = x := by
  constructor
  · intro hmem
    obtain ⟨j, hj⟩ := List.mem_iff_getElem?.mp hmem
    have hbounds := hb j hj
    obtain rfl : j = i := by omega
    exact Option.some.inj (hy.symm.trans hj)
  · rintro rfl
    exact List.mem_of_getElem? hy

end

section
variable [LinearOrder α]

/-! ## The place of a new entry -/

/-- The number of entries in front of the first one that is not below `x`. -/
def place (x : α) (l : List α) : Nat := (l.takeWhile (· < x)).length

variable {x : α} {l : List α}

theorem place_le (x : α) (l : List α) : place x l ≤ l.length := (List.takeWhile_sublist _).length_le

theorem place_cons_of_lt {y : α} (hy : y < x) : place x (y :: l) = place x l + 1 := by
  simp [place, hy]

theorem place_cons_of_le {y : α} (hy : x ≤ y) : place x (y :: l) = 0 := by
  simp [place, hy.not_gt]

theorem place_eq_length_iff : place x l = l.length ↔ ∀ y ∈ l, y < x := by
  induction l with
  | nil => simp [place]
  | cons y l ih =>
    rw [List.forall_mem_cons, ← ih, List.length_cons]
    rcases lt_or_ge y x with hy | hy
    · rw [place_cons_of_lt hy, Nat.add_right_cancel_iff, and_iff_right hy]
    · rw [place_cons_of_le hy]
      exact iff_of_false (by omega) fun hboth => absurd hy hboth.1.not_ge

theorem insertIdx_place (x : α) (l : List α) :
    l.insertIdx (place x l) x = l.orderedInsert (· ≤ ·) x := by
  induction l with
  | nil => rfl
  | cons y l ih =>
    rw [List.orderedInsert_cons]
    rcases lt_or_ge y x with hy | hy
    · rw [place_cons_of_lt hy, if_neg hy.not_ge, List.insertIdx_succ_cons, ih]
    · rw [place_cons_of_le hy, if_pos hy, List.insertIdx_zero]

/-! ## Halving -/

variable {low high : Int} {middle : Nat} {y : α}

theorem le_of_getElem? (hsorted : l.Pairwise (· ≤ ·)) {i j : Nat} {y z : α} (hij : i ≤ j)
    (hy : l[i]? = some y) (hz : l[j]? = some z) : y ≤ z := by
  obtain ⟨hi, rfl⟩ := List.getElem?_eq_some_iff.mp hy
  obtain ⟨hj, rfl⟩ := List.getElem?_eq_some_iff.mp hz
  rcases Nat.lt_or_eq_of_le hij with hlt | rfl
  · exact List.pairwise_iff_getElem.mp hsorted i j hi hj hlt
  · exact le_refl _

theorem Brackets.upper (hb : Brackets l x low high) (hsorted : l.Pairwise (· ≤ ·))
    (hy : l[middle]? = some y) (hlt : y < x) : Brackets l x (middle + 1) high := by
  intro i hi
  have hmiddle : middle < i := by
    by_contra hle
    exact absurd (le_of_getElem? hsorted (by omega) hi hy) hlt.not_ge
  exact ⟨by omega, (hb i hi).2⟩

theorem Brackets.lower (hb : Brackets l x low high) (hsorted : l.Pairwise (· ≤ ·))
    (hy : l[middle]? = some y) (hgt : x < y) : Brackets l x low (middle - 1) := by
  intro i hi
  have hmiddle : i < middle := by
    by_contra hle
    exact absurd (le_of_getElem? hsorted (by omega) hy hi) hgt.not_ge
  exact ⟨(hb i hi).1, by omega⟩

end

end SortedTable
