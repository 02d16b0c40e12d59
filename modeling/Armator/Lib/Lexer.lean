import Mathlib.Data.List.Induction

/-!
# Longest-match lexers

A lexer takes the longest non-empty prefix of its input that some rule accepts, and the first rule
that accepts this prefix. `next_eq` is the rule a proof uses: a prefix is the token if its rule is
the first to accept it and nothing accepts a longer one.

`tokens` are the tokens of a whole input. They are the input cut into pieces (`flatMap_tokens`), and
an element that no rule accepts but at the start of a text is where a token starts, whatever is in
front of it (`tokens_append_fence`).
-/

namespace Lexer

variable {α ρ : Type}

/-- The prefix of `n` characters as a token of the first rule that accepts it. -/
def tokenAt (rules : List ρ) (accepts : ρ → List α → Bool) (input : List α) (n : Nat) :
    Option (ρ × List α × List α) :=
  (rules.find? fun r => accepts r (input.take n)).map fun r => (r, input.take n, input.drop n)

/-- The longest token of at most `n` characters: its rule, its text, and what follows. -/
def longest (rules : List ρ) (accepts : ρ → List α → Bool) (input : List α) :
    Nat → Option (ρ × List α × List α)
  | 0 => none
  | n + 1 => (tokenAt rules accepts input (n + 1)).or (longest rules accepts input n)

def next (rules : List ρ) (accepts : ρ → List α → Bool) (input : List α) :
    Option (ρ × List α × List α) :=
  longest rules accepts input input.length

section
variable {rules : List ρ} {accepts : ρ → List α → Bool} {token rest : List α} {r : ρ}

theorem tokenAt_of_accepts (hfirst : rules.find? (fun r => accepts r token) = some r) :
    tokenAt rules accepts (token ++ rest) token.length = some (r, token, rest) := by
  rw [tokenAt, List.take_left, List.drop_left, hfirst]
  rfl

theorem longest_eq (hne : token ≠ []) (hfirst : rules.find? (fun r => accepts r token) = some r)
    (hlongest : ∀ n, token.length < n → n ≤ (token ++ rest).length →
      ∀ r ∈ rules, accepts r ((token ++ rest).take n) = false) (k : Nat)
    (hk : token.length + k ≤ (token ++ rest).length) :
    longest rules accepts (token ++ rest) (token.length + k) = some (r, token, rest) := by
  induction k with
  | zero =>
    obtain ⟨n, hn⟩ : ∃ n, token.length = n + 1 :=
      Nat.exists_eq_succ_of_ne_zero (mt List.length_eq_zero_iff.mp hne)
    rw [Nat.add_zero, hn, longest, ← hn, tokenAt_of_accepts hfirst]
    rfl
  | succ k ih =>
    have hnone : tokenAt rules accepts (token ++ rest) (token.length + k + 1) = none := by
      rw [tokenAt, List.find?_eq_none.mpr, Option.map_none]
      intro r' hr'
      rw [hlongest (token.length + k + 1) (by omega) (by omega) r' hr']
      exact Bool.false_ne_true
    rw [← Nat.add_assoc, longest, hnone, Option.none_or]
    exact ih (by omega)

theorem next_eq (hne : token ≠ []) (hfirst : rules.find? (fun r => accepts r token) = some r)
    (hlongest : ∀ n, token.length < n → n ≤ (token ++ rest).length →
      ∀ r ∈ rules, accepts r ((token ++ rest).take n) = false) :
    next rules accepts (token ++ rest) = some (r, token, rest) := by
  have hlength : (token ++ rest).length = token.length + rest.length := List.length_append
  rw [next, hlength]
  exact longest_eq hne hfirst hlongest rest.length (by omega)

end

/-! ## Tokens in a row -/

section
variable {rules : List ρ} {accepts : ρ → List α → Bool} {input token rest : List α} {r : ρ}

theorem longest_some {n : Nat} (hn : n ≤ input.length)
    (hsome : longest rules accepts input n = some (r, token, rest)) :
    token ++ rest = input ∧ token ≠ [] ∧ rules.find? (fun r => accepts r token) = some r := by
  induction n with
  | zero => cases hsome
  | succ n ih =>
    rw [longest] at hsome
    cases hat : tokenAt rules accepts input (n + 1) with
    | none =>
      rw [hat, Option.none_or] at hsome
      exact ih (by omega) hsome
    | some found =>
      rw [hat, Option.some_or] at hsome
      rw [tokenAt, Option.map_eq_some_iff] at hat
      obtain ⟨r', hfind, rfl⟩ := hat
      obtain ⟨rfl, rfl, rfl⟩ : r' = r ∧ input.take (n + 1) = token ∧ input.drop (n + 1) = rest := by
        simpa using hsome
      refine ⟨List.take_append_drop _ _, ?_, hfind⟩
      apply List.ne_nil_of_length_pos
      rw [List.length_take]
      omega

theorem next_some (hnext : next rules accepts input = some (r, token, rest)) :
    token ++ rest = input ∧ token ≠ [] ∧ rules.find? (fun r => accepts r token) = some r :=
  longest_some (Nat.le_refl _) hnext

theorem length_rest_lt (hnext : next rules accepts input = some (r, token, rest)) :
    rest.length < input.length := by
  obtain ⟨rfl, hne, -⟩ := next_some hnext
  have hpos := List.length_pos_iff.mpr hne
  simp
  omega

end

/-- The tokens of an input, up to where no rule accepts anything. -/
def tokens (rules : List ρ) (accepts : ρ → List α → Bool) (input : List α) : List (ρ × List α) :=
  match _hnext : next rules accepts input with
  | none => []
  | some (r, token, rest) => (r, token) :: tokens rules accepts rest
termination_by input.length
decreasing_by exact length_rest_lt _hnext

/-- Every element is a token of its own if nothing longer is. -/
def Covers (rules : List ρ) (accepts : ρ → List α → Bool) : Prop := ∀ c, ∃ r ∈ rules, accepts r [c]

/-- The element is at most the first one of a text that is accepted. -/
def Fence (rules : List ρ) (accepts : ρ → List α → Bool) (c : α) : Prop :=
  ∀ r ∈ rules, ∀ s t : List α, s ≠ [] → accepts r (s ++ c :: t) = false

section
variable {rules : List ρ} {accepts : ρ → List α → Bool} {input token rest : List α} {r : ρ} {c : α}

theorem tokens_of_next (hnext : next rules accepts input = some (r, token, rest)) :
    tokens rules accepts input = (r, token) :: tokens rules accepts rest := by
  rw [tokens]
  split
  · next hnone => cases hnone.symm.trans hnext
  · next r' token' rest' hsome =>
    obtain ⟨rfl, rfl, rfl⟩ : r' = r ∧ token' = token ∧ rest' = rest := by
      simpa using hsome.symm.trans hnext
    rfl

theorem tokens_of_none (hnone : next rules accepts input = none) :
    tokens rules accepts input = [] := by
  rw [tokens]
  split
  · rfl
  · next hsome => cases hnone.symm.trans hsome

@[simp] theorem tokens_nil : tokens rules accepts [] = [] := tokens_of_none rfl

/-! ### Inputs that are covered -/

theorem longest_ne_none (hcovers : Covers rules accepts) (hne : input ≠ []) (n : Nat) :
    longest rules accepts input (n + 1) ≠ none := by
  induction n with
  | zero =>
    obtain ⟨c, s, rfl⟩ := List.exists_cons_of_ne_nil hne
    obtain ⟨r, hr, haccepts⟩ := hcovers c
    have hfind : (rules.find? fun r => accepts r [c]) ≠ none := by
      rw [ne_eq, List.find?_eq_none]
      exact fun hnone => hnone r hr haccepts
    obtain ⟨r', hfind⟩ := Option.ne_none_iff_exists'.mp hfind
    simp [longest, tokenAt, hfind]
  | succ n ih =>
    rw [longest]
    cases tokenAt rules accepts input (n + 1 + 1) with
    | none => exact ih
    | some found => exact Option.some_ne_none found

theorem eq_nil_of_next (hcovers : Covers rules accepts)
    (hnone : next rules accepts input = none) : input = [] := by
  by_contra hne
  obtain ⟨n, hn⟩ := Nat.exists_eq_succ_of_ne_zero (mt List.length_eq_zero_iff.mp hne)
  have hfound := longest_ne_none hcovers hne n
  rw [← Nat.succ_eq_add_one, ← hn] at hfound
  exact hfound hnone

theorem flatMap_tokens (hcovers : Covers rules accepts) (input : List α) :
    (tokens rules accepts input).flatMap (·.2) = input := by
  induction input using tokens.induct rules accepts with
  | case1 input hnone =>
    rw [tokens_of_none hnone]
    exact (eq_nil_of_next hcovers hnone).symm
  | case2 input r token rest hnext ih =>
    rw [tokens_of_next hnext, List.flatMap_cons, ih]
    exact (next_some hnext).1

/-! ### Fences -/

theorem longest_fence (hfence : Fence rules accepts c) (hne : input ≠ []) (rest : List α) (k : Nat)
    (hk : input.length + k ≤ (input ++ c :: rest).length) :
    longest rules accepts (input ++ c :: rest) (input.length + k) =
      longest rules accepts (input ++ c :: rest) input.length := by
  induction k with
  | zero => rfl
  | succ k ih =>
    have htake : (input ++ c :: rest).take (input.length + k + 1) = input ++ c :: rest.take k := by
      rw [Nat.add_assoc, List.take_length_add_append, List.take_succ_cons]
    have hnone : tokenAt rules accepts (input ++ c :: rest) (input.length + k + 1) = none := by
      rw [tokenAt, htake, List.find?_eq_none.mpr, Option.map_none]
      intro r hr
      rw [hfence r hr input (rest.take k) hne]
      exact Bool.false_ne_true
    rw [← Nat.add_assoc, longest, hnone, Option.none_or]
    exact ih (by omega)

theorem longest_append (more : List α) {n : Nat} (hn : n ≤ input.length) :
    longest rules accepts (input ++ more) n =
      (longest rules accepts input n).map fun t => (t.1, t.2.1, t.2.2 ++ more) := by
  induction n with
  | zero => rfl
  | succ n ih =>
    have hat : tokenAt rules accepts (input ++ more) (n + 1) =
        (tokenAt rules accepts input (n + 1)).map fun t => (t.1, t.2.1, t.2.2 ++ more) := by
      rw [tokenAt, tokenAt, List.take_append_of_le_length hn, List.drop_append_of_le_length hn,
        Option.map_map]
      rfl
    rw [longest, longest, hat, ih (by omega)]
    cases tokenAt rules accepts input (n + 1) <;> rfl

theorem next_append_fence (hfence : Fence rules accepts c) (hne : input ≠ []) (more : List α) :
    next rules accepts (input ++ c :: more) =
      (next rules accepts input).map fun t => (t.1, t.2.1, t.2.2 ++ c :: more) := by
  have hlength : (input ++ c :: more).length = input.length + (more.length + 1) := by simp
  rw [next, hlength, longest_fence hfence hne more _ (Nat.le_of_eq hlength.symm),
    longest_append _ (Nat.le_refl _), next]

/-- **Resynchronisation**: a fence starts a token, whatever is in front of it. -/
theorem tokens_append_fence (hcovers : Covers rules accepts) (hfence : Fence rules accepts c)
    (input more : List α) :
    tokens rules accepts (input ++ c :: more) =
      tokens rules accepts input ++ tokens rules accepts (c :: more) := by
  induction input using tokens.induct rules accepts with
  | case1 input hnone =>
    rw [tokens_of_none hnone, eq_nil_of_next hcovers hnone]
    rfl
  | case2 input r token rest hnext ih =>
    have hne : input ≠ [] := by
      rintro rfl
      cases hnext
    have hmore : next rules accepts (input ++ c :: more) =
        some (r, token, rest ++ c :: more) := by
      rw [next_append_fence hfence hne, hnext]
      rfl
    rw [tokens_of_next hmore, tokens_of_next hnext, List.cons_append, ih]

end

end Lexer
