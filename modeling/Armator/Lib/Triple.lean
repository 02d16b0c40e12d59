import Mathlib.Logic.Function.Iterate

/-!
# Pre- and postconditions

A command is a partial function on states, a program a list of commands. `Triple exec P code Q`: from
every state with `P` the program runs to its end, in a state with `Q`. A machine whose states stand
for those of the commands (`Executes`) satisfies the triples of its program (`Executes.triple`).
-/

namespace Program

variable {ι σ τ : Type} {exec : ι → σ → Option σ} {P Q R : σ → Prop} {code code' : List ι}

/-- The commands one after the other. -/
def run (exec : ι → σ → Option σ) : List ι → σ → Option σ
  | [], s => some s
  | i :: code, s => (exec i s).bind (run exec code)

def Triple (exec : ι → σ → Option σ) (P : σ → Prop) (code : List ι) (Q : σ → Prop) : Prop :=
  ∀ s, P s → ∃ s', run exec code s = some s' ∧ Q s'

theorem run_append (code code' : List ι) (s : σ) :
    run exec (code ++ code') s = (run exec code s).bind (run exec code') := by
  induction code generalizing s with
  | nil => rfl
  | cons i code ih =>
    rw [List.cons_append, run, run, Option.bind_assoc]
    congr 1
    funext s'
    exact ih s'

/-! ## Rules -/

theorem Triple.nil : Triple exec P [] P := fun s hP => ⟨s, rfl, hP⟩

theorem Triple.cons {i : ι} (hfirst : ∀ s, P s → ∃ s', exec i s = some s' ∧ R s')
    (hrest : Triple exec R code Q) : Triple exec P (i :: code) Q := by
  intro s hP
  obtain ⟨s', hexec, hR⟩ := hfirst s hP
  obtain ⟨s'', hrun, hQ⟩ := hrest s' hR
  refine ⟨s'', ?_, hQ⟩
  rw [run, hexec]
  exact hrun

theorem Triple.append (hfirst : Triple exec P code R) (hsecond : Triple exec R code' Q) :
    Triple exec P (code ++ code') Q := by
  intro s hP
  obtain ⟨s', hrun, hR⟩ := hfirst s hP
  obtain ⟨s'', hrun', hQ⟩ := hsecond s' hR
  refine ⟨s'', ?_, hQ⟩
  rw [run_append, hrun]
  exact hrun'

/-! ## Machines -/

/-- A step of the machine, which is in a good state, does the first of the commands ahead. -/
structure Executes (next : τ → τ) (exec : ι → σ → Option σ) (good : τ → Prop)
    (ahead : List ι → σ → τ → Prop) : Prop where
  step : ∀ {i code s s' t}, ahead (i :: code) s t → exec i s = some s' → ahead code s' (next t)
  good : ∀ {i code s s' t}, ahead (i :: code) s t → exec i s = some s' → good t

variable {next : τ → τ} {good : τ → Prop} {ahead : List ι → σ → τ → Prop} {s s' : σ} {t : τ}

theorem Executes.run (hexecutes : Executes next exec good ahead) (hahead : ahead code s t)
    (hrun : run exec code s = some s') :
    ahead [] s' (next^[code.length] t) ∧ ∀ k < code.length, good (next^[k] t) := by
  induction code generalizing s t with
  | nil =>
    cases hrun
    exact ⟨hahead, fun k hk => absurd hk (Nat.not_lt_zero k)⟩
  | cons i code ih =>
    obtain ⟨s1, hexec, hrun⟩ := Option.bind_eq_some_iff.mp hrun
    obtain ⟨hend, hgood⟩ := ih (hexecutes.step hahead hexec) hrun
    refine ⟨hend, fun k hk => ?_⟩
    cases k with
    | zero => exact hexecutes.good hahead hexec
    | succ k => exact hgood k (Nat.lt_of_succ_lt_succ hk)

theorem Executes.triple (hexecutes : Executes next exec good ahead)
    (htriple : Triple exec P code Q) (hahead : ahead code s t) (hP : P s) :
    ∃ s', Q s' ∧ ahead [] s' (next^[code.length] t) ∧ ∀ k < code.length, good (next^[k] t) := by
  obtain ⟨s', hrun, hQ⟩ := htriple s hP
  exact ⟨s', hQ, hexecutes.run hahead hrun⟩

end Program
