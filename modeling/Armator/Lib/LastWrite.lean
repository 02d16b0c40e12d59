import Mathlib.Logic.Function.Basic
import Mathlib.Data.List.Induction
import Mathlib.Data.Set.Piecewise

/-!
# Stores and the last write to a place

A store maps places to values and is changed by lists of writes. `lastWrite ws i` is the value of
the last write to place `i`, and `writeAll_apply` says that a store holds exactly that, or its
initial content where nothing was written. `view_foldl` carries the law to any machine whose steps,
seen through a view of its states, are writes to a store.

The last section is about locations that are kept at places: a location whose place is its own
keeps its own last write, and a place shared by two locations holds one of their two.
-/

namespace LastWrite

variable {ι κ α σ ω : Type}

def lastWrite [DecidableEq ι] (ws : List (ι × α)) (i : ι) : Option α :=
  (ws.reverse.find? (fun w => w.1 = i)).map (·.2)

def writeAll [DecidableEq ι] (s : ι → α) (ws : List (ι × α)) : ι → α :=
  ws.foldl (fun s w => Function.update s w.1 w.2) s

section
variable [DecidableEq ι]

theorem lastWrite_append (ws ws' : List (ι × α)) (i : ι) :
    lastWrite (ws ++ ws') i = (lastWrite ws' i).or (lastWrite ws i) := by
  simp only [lastWrite, List.reverse_append, List.find?_append]
  cases ws'.reverse.find? (fun w => w.1 = i) <;> rfl

theorem lastWrite_singleton (j : ι) (v : α) (i : ι) :
    lastWrite [(j, v)] i = if j = i then some v else none := by
  by_cases h : j = i <;> simp [lastWrite, h]

theorem lastWrite_eq_none {ws : List (ι × α)} {i : ι} :
    lastWrite ws i = none ↔ ∀ w ∈ ws, w.1 ≠ i := by
  simp [lastWrite, List.find?_eq_none]

theorem writeAll_apply (s : ι → α) (ws : List (ι × α)) (i : ι) :
    writeAll s ws i = (lastWrite ws i).getD (s i) := by
  induction ws using List.reverseRecOn with
  | nil => rfl
  | append_singleton ws w ih =>
    rw [lastWrite_append, lastWrite_singleton]
    simp only [writeAll, List.foldl_append, List.foldl_cons, List.foldl_nil] at ih ⊢
    by_cases h : w.1 = i
    · rw [if_pos h, ← h, Function.update_self]
      rfl
    · rw [if_neg h, Function.update_of_ne (Ne.symm h), ih]
      rfl

theorem writeAll_append (s : ι → α) (ws ws' : List (ι × α)) :
    writeAll s (ws ++ ws') = writeAll (writeAll s ws) ws' :=
  List.foldl_append

theorem writeAll_piecewise {s : Set ι} [DecidablePred (· ∈ s)] (f g : ι → α) {ws : List (ι × α)}
    (haway : ∀ w ∈ ws, w.1 ∉ s) :
    writeAll (s.piecewise f g) ws = s.piecewise f (writeAll g ws) := by
  funext i
  rw [writeAll_apply]
  by_cases hi : i ∈ s
  · have hnone : lastWrite ws i = none :=
      lastWrite_eq_none.mpr fun w hw heq => haway w hw (heq ▸ hi)
    rw [hnone, Option.getD_none, Set.piecewise_eq_of_mem _ _ _ hi, Set.piecewise_eq_of_mem _ _ _ hi]
  · rw [Set.piecewise_eq_of_notMem _ _ _ hi, Set.piecewise_eq_of_notMem _ _ _ hi, writeAll_apply]

/-- A machine whose steps are writes, in a view of its states, holds in this view the last value
written. `P` restricts the inputs for which the steps are known. -/
theorem view_foldl (step : σ → ω → σ) (view : σ → ι → α) (writes : ω → List (ι × α))
    (P : ω → Prop) (hstep : ∀ s o, P o → view (step s o) = writeAll (view s) (writes o))
    (s : σ) (os : List ω) (hos : ∀ o ∈ os, P o) (i : ι) :
    view (os.foldl step s) i = (lastWrite (os.flatMap writes) i).getD (view s i) := by
  rw [← writeAll_apply]
  induction os generalizing s with
  | nil => rfl
  | cons o os ih =>
    rw [List.foldl_cons, ih _ (fun o' ho' => hos o' (List.mem_cons_of_mem _ ho')),
      hstep s o (hos o List.mem_cons_self), List.flatMap_cons, writeAll_append]

end

/-! ## Locations kept at places -/

def atPlaces (place : κ → ι) (ws : List (κ × α)) : List (ι × α) :=
  ws.map (fun w => (place w.1, w.2))

theorem atPlaces_append (place : κ → ι) (ws ws' : List (κ × α)) :
    atPlaces place (ws ++ ws') = atPlaces place ws ++ atPlaces place ws' :=
  List.map_append

section
variable [DecidableEq ι]

theorem lastWrite_atPlaces_snoc (place : κ → ι) (ws : List (κ × α)) (w : κ × α) (i : ι) :
    lastWrite (atPlaces place (ws ++ [w])) i =
      (if place w.1 = i then some w.2 else none).or (lastWrite (atPlaces place ws) i) := by
  rw [atPlaces_append, lastWrite_append]
  simp only [atPlaces, List.map_cons, List.map_nil, lastWrite_singleton]

variable [DecidableEq κ]

theorem lastWrite_atPlaces (place : κ → ι) (ws : List (κ × α)) (k : κ)
    (halone : ∀ k', place k' = place k → k' = k) :
    lastWrite (atPlaces place ws) (place k) = lastWrite ws k := by
  induction ws using List.reverseRecOn with
  | nil => rfl
  | append_singleton ws w ih =>
    have hplace : place w.1 = place k ↔ w.1 = k := ⟨halone w.1, fun h => congrArg place h⟩
    rw [lastWrite_atPlaces_snoc, lastWrite_append, lastWrite_singleton, ih]
    simp only [hplace]

theorem lastWrite_atPlaces_or (place : κ → ι) (ws : List (κ × α)) (k l : κ)
    (hshare : place l = place k) (honly : ∀ k', place k' = place k → k' = k ∨ k' = l) :
    lastWrite (atPlaces place ws) (place k) = lastWrite ws k ∨
      lastWrite (atPlaces place ws) (place k) = lastWrite ws l := by
  induction ws using List.reverseRecOn with
  | nil => exact Or.inl rfl
  | append_singleton ws w ih =>
    rw [lastWrite_atPlaces_snoc, lastWrite_append, lastWrite_append, lastWrite_singleton,
      lastWrite_singleton]
    by_cases hw : place w.1 = place k
    · rw [if_pos hw]
      rcases honly w.1 hw with h | h
      · left; rw [if_pos h]; rfl
      · right; rw [if_pos h]; rfl
    · have hk : w.1 ≠ k := fun h => hw (congrArg place h)
      have hl : w.1 ≠ l := fun h => hw ((congrArg place h).trans hshare)
      rw [if_neg hw, if_neg hk, if_neg hl]
      exact ih

end

end LastWrite
