import Mathlib.Control.Monad.Writer

/-!
# Computations with a log

A computation of `Writer (List ε)` has a value and the list of the entries it has logged on the way.
`Always P` says that every entry satisfies `P`, and is decided along the computation: of a sequence
it is the conjunction over its parts (`always_bind`).
-/

namespace Logged

variable {ε α β : Type}

def value (x : Writer (List ε) α) : α := x.run.1

def log (x : Writer (List ε) α) : List ε := x.run.2

/-- Every entry satisfies `P`. -/
def Always (P : ε → Prop) (x : Writer (List ε) α) : Prop := ∀ e ∈ log x, P e

/-! ## Values -/

section
variable (a : α) (e : ε) (x y : Writer (List ε) α) (f : α → Writer (List ε) β)

@[simp] theorem value_pure : value (pure a : Writer (List ε) α) = a := (rfl)

@[simp] theorem value_bind : value (x >>= f) = value (f (value x)) := (rfl)

@[simp] theorem value_ite (c : Prop) [Decidable c] :
    value (if c then x else y) = if c then value x else value y := apply_ite value c x y

/-! ## Entries -/

@[simp] theorem log_pure : log (pure a : Writer (List ε) α) = [] := rfl

@[simp] theorem log_bind : log (x >>= f) = log x ++ log (f (value x)) := rfl

@[simp] theorem log_tell : log (tell [e] : Writer (List ε) PUnit) = [e] := rfl

@[simp] theorem log_ite (c : Prop) [Decidable c] :
    log (if c then x else y) = if c then log x else log y := apply_ite log c x y

variable (P : ε → Prop)

@[simp] theorem always_pure : Always P (pure a : Writer (List ε) α) := List.forall_mem_nil P

@[simp] theorem always_bind : Always P (x >>= f) ↔ Always P x ∧ Always P (f (value x)) :=
  List.forall_mem_append

@[simp] theorem always_tell : Always P (tell [e] : Writer (List ε) PUnit) ↔ P e :=
  List.forall_mem_singleton

@[simp] theorem always_ite (c : Prop) [Decidable c] :
    Always P (if c then x else y) ↔ if c then Always P x else Always P y := by
  split <;> rfl

end

end Logged
