import Mathlib.Algebra.BigOperators.Group.Finset.Piecewise
import Mathlib.Logic.Relation
import Mathlib.Order.WellFounded

/-!
# Threads that share a value under a lock

A thread has a state of its own. It makes steps outside the lock, takes the lock, works on the
shared value while it holds the lock, and gives it back. Where the lock is free, an interleaving has
done what a run does whose critical sections are one step each (`serial_of_steps`), and each such
run is an interleaving (`steps_of_serial`). A thread that keeps the lock keeps the others out
(`kept`). Where the threads come nearer to their ends, an interleaving that goes on for ever stays in
one critical section (`endless`).
-/

namespace Mutex

open Relation

section
variable (ι : Type*) (P : ι → Type*) (σ : Type*)

/-- The steps of each thread. -/
structure Threads where
  outside : ∀ i, P i → P i → Prop
  acquire : ∀ i, P i → P i → Prop
  inside : ∀ i, P i × σ → P i × σ → Prop
  release : ∀ i, P i → P i → Prop

structure State where
  own : ∀ i, P i
  shared : σ
  holder : Option ι

end

variable {ι : Type*} [DecidableEq ι] {P : ι → Type*} {σ : Type*} (T : Threads ι P σ)

/-- A step of one of the threads. -/
inductive Step (s : State ι P σ) : State ι P σ → Prop where
  | outside {i : ι} {p : P i} (hout : s.holder ≠ some i) (hstep : T.outside i (s.own i) p) :
    Step s { s with own := Function.update s.own i p }
  | acquire {i : ι} {p : P i} (hfree : s.holder = none) (hstep : T.acquire i (s.own i) p) :
    Step s { s with own := Function.update s.own i p, holder := some i }
  | inside {i : ι} {p : P i} {v : σ} (hheld : s.holder = some i)
    (hstep : T.inside i (s.own i, s.shared) (p, v)) :
    Step s { s with own := Function.update s.own i p, shared := v }
  | release {i : ι} {p : P i} (hheld : s.holder = some i) (hstep : T.release i (s.own i) p) :
    Step s { s with own := Function.update s.own i p, holder := none }

/-- A step of a run whose critical sections are not interrupted. -/
inductive Serial (s : (∀ i, P i) × σ) : (∀ i, P i) × σ → Prop where
  | outside {i : ι} {p : P i} (hstep : T.outside i (s.1 i) p) :
    Serial s (Function.update s.1 i p, s.2)
  | critical {i : ι} {p q r : P i} {v : σ} (hacquire : T.acquire i (s.1 i) p)
    (hinside : ReflTransGen (T.inside i) (p, s.2) (q, v)) (hrelease : T.release i q r) :
    Serial s (Function.update s.1 i r, v)

/-! ## Interleavings are serial -/

/-- A state is a serial one, or in a critical section that started there. -/
inductive Pending (before : (∀ i, P i) × σ) : State ι P σ → Prop where
  | free : Pending before ⟨before.1, before.2, none⟩
  | held {i : ι} {p q : P i} {v : σ} (hacquire : T.acquire i (before.1 i) p)
    (hinside : ReflTransGen (T.inside i) (p, before.2) (q, v)) :
    Pending before ⟨Function.update before.1 i q, v, some i⟩

variable {T} {before : (∀ i, P i) × σ} {s s' : State ι P σ}

/-- A step outside the lock goes in front of the critical section another thread is in; the end of a
critical section makes it one serial step. -/
theorem pending_step (hpending : Pending T before s) (hstep : Step T s s') :
    ∃ before', ReflGen (Serial T) before before' ∧ Pending T before' s' := by
  cases hpending with
  | free =>
    cases hstep with
    | outside hout hstep => exact ⟨_, .single (.outside hstep), .free⟩
    | @acquire i p hfree hstep => exact ⟨before, .refl, .held hstep .refl⟩
    | inside hheld hstep => cases hheld
    | release hheld hstep => cases hheld
  | @held i p q v hacquire hinside =>
    cases hstep with
    | @outside j r hout hstep =>
      have hne : j ≠ i := fun heq => hout (congrArg some heq.symm)
      dsimp only at hstep ⊢
      rw [Function.update_of_ne hne] at hstep
      refine ⟨(Function.update before.1 j r, before.2), .single (.outside hstep), ?_⟩
      show Pending T _ ⟨Function.update (Function.update before.1 i q) j r, v, some i⟩
      rw [Function.update_comm hne.symm]
      apply Pending.held (p := p)
      · simpa [Function.update_of_ne hne.symm] using hacquire
      · exact hinside
    | acquire hfree hstep => cases hfree
    | @inside j r w hheld hstep =>
      obtain rfl : i = j := Option.some.inj hheld
      dsimp only at hstep ⊢
      rw [Function.update_self] at hstep
      refine ⟨before, .refl, ?_⟩
      show Pending T _ ⟨Function.update (Function.update before.1 i q) i r, w, some i⟩
      rw [Function.update_idem]
      exact .held hacquire (hinside.tail hstep)
    | @release j r hheld hstep =>
      obtain rfl : i = j := Option.some.inj hheld
      dsimp only at hstep ⊢
      rw [Function.update_self] at hstep
      refine ⟨_, .single (.critical hacquire hinside hstep), ?_⟩
      show Pending T _ ⟨Function.update (Function.update before.1 i q) i r, v, none⟩
      rw [Function.update_idem]
      exact .free

theorem pending_steps (hpending : Pending T before s) (hsteps : ReflTransGen (Step T) s s') :
    ∃ before', ReflTransGen (Serial T) before before' ∧ Pending T before' s' := by
  induction hsteps with
  | refl => exact ⟨before, .refl, hpending⟩
  | tail hsteps hstep ih =>
    obtain ⟨before', hserial, hpending'⟩ := ih
    obtain ⟨before'', hnext, hpending''⟩ := pending_step hpending' hstep
    exact ⟨before'', hserial.trans hnext.to_reflTransGen, hpending''⟩

/-- **Serialisability**: where the lock is free, an interleaving is a serial run. -/
theorem serial_of_steps (hfirst : s.holder = none) (hlast : s'.holder = none)
    (hsteps : ReflTransGen (Step T) s s') :
    ReflTransGen (Serial T) (s.own, s.shared) (s'.own, s'.shared) := by
  obtain ⟨own, shared, holder⟩ := s
  obtain rfl : holder = none := hfirst
  obtain ⟨before', hserial, hpending⟩ := @pending_steps _ _ _ _ T (own, shared) _ _ .free hsteps
  cases hpending with
  | free => exact hserial
  | held => cases hlast

/-! ## Serial runs are interleavings -/

theorem steps_of_inside {i : ι} {x y : P i × σ} (hinside : ReflTransGen (T.inside i) x y)
    (own : ∀ i, P i) :
    ReflTransGen (Step T) ⟨Function.update own i x.1, x.2, some i⟩
      ⟨Function.update own i y.1, y.2, some i⟩ := by
  induction hinside with
  | refl => exact .refl
  | @tail y z hinside hstep ih =>
    have hnext : Step T ⟨Function.update own i y.1, y.2, some i⟩
        ⟨Function.update (Function.update own i y.1) i z.1, z.2, some i⟩ :=
      .inside rfl (by simpa using hstep)
    rw [Function.update_idem] at hnext
    exact ih.tail hnext

theorem steps_of_serial {x y : (∀ i, P i) × σ} (hserial : Serial T x y) :
    ReflTransGen (Step T) ⟨x.1, x.2, none⟩ ⟨y.1, y.2, none⟩ := by
  cases hserial with
  | outside hstep => exact .single (.outside nofun hstep)
  | @critical i p q r v hacquire hinside hrelease =>
    have hlast : Step T ⟨Function.update x.1 i q, v, some i⟩
        ⟨Function.update (Function.update x.1 i q) i r, v, none⟩ :=
      .release rfl (by simpa using hrelease)
    rw [Function.update_idem] at hlast
    exact (ReflTransGen.single (.acquire rfl hacquire)).trans
      ((steps_of_inside hinside x.1).tail hlast)

theorem steps_iff_serial {x y : (∀ i, P i) × σ} :
    ReflTransGen (Step T) ⟨x.1, x.2, none⟩ ⟨y.1, y.2, none⟩ ↔ ReflTransGen (Serial T) x y := by
  constructor
  · intro hsteps
    exact serial_of_steps rfl rfl hsteps
  · intro hserial
    induction hserial with
    | refl => exact .refl
    | tail hserial hstep ih => exact ih.trans (steps_of_serial hstep)

/-! ## A lock that is kept -/

section
variable {i : ι} {Q : P i × σ → Prop} (hinside : ∀ x y, Q x → T.inside i x y → Q y)
  (hrelease : ∀ x p, Q x → ¬ T.release i x.1 p)
include hinside hrelease

/-- The holder stays where it cannot release the lock, and the other threads stay outside. -/
theorem kept_step (hheld : s.holder = some i) (hQ : Q (s.own i, s.shared)) (hstep : Step T s s') :
    s'.holder = some i ∧ Q (s'.own i, s'.shared) ∧
      ∀ j, j ≠ i → ReflTransGen (T.outside j) (s.own j) (s'.own j) := by
  cases hstep with
  | @outside j p hout hstep =>
    have hne : j ≠ i := fun heq => hout (by rw [hheld, heq])
    refine ⟨hheld, ?_, fun k _ => ?_⟩
    · dsimp only
      rwa [Function.update_of_ne hne.symm]
    · dsimp only
      by_cases hk : k = j
      · subst hk
        rw [Function.update_self]
        exact .single hstep
      · rw [Function.update_of_ne hk]
  | acquire hfree hstep =>
    rw [hheld] at hfree
    cases hfree
  | @inside j p v hheld' hstep =>
    obtain rfl : i = j := Option.some.inj (hheld.symm.trans hheld')
    refine ⟨hheld, ?_, fun k hk => ?_⟩
    · dsimp only
      rw [Function.update_self]
      exact hinside _ _ hQ hstep
    · dsimp only
      rw [Function.update_of_ne hk]
  | @release j p hheld' hstep =>
    obtain rfl : i = j := Option.some.inj (hheld.symm.trans hheld')
    exact absurd hstep (hrelease _ _ hQ)

theorem kept (hheld : s.holder = some i) (hQ : Q (s.own i, s.shared))
    (hsteps : ReflTransGen (Step T) s s') :
    s'.holder = some i ∧ Q (s'.own i, s'.shared) ∧
      ∀ j, j ≠ i → ReflTransGen (T.outside j) (s.own j) (s'.own j) := by
  induction hsteps with
  | refl => exact ⟨hheld, hQ, fun _ _ => .refl⟩
  | tail hsteps hstep ih =>
    obtain ⟨hheld1, hQ1, hother1⟩ := ih
    obtain ⟨hheld2, hQ2, hother2⟩ := kept_step hinside hrelease hheld1 hQ1 hstep
    exact ⟨hheld2, hQ2, fun j hj => (hother1 j hj).trans (hother2 j hj)⟩

end

/-! ## Who has the lock -/

/-- A thread is where `C` says from taking the lock to giving it back. -/
structure Critical (T : Threads ι P σ) (C : ∀ i, P i → Prop) : Prop where
  outside : ∀ {i p q}, T.outside i p q → ¬ C i q
  acquire : ∀ {i p q}, T.acquire i p q → C i q
  inside : ∀ {i x y}, T.inside i x y → C i y.1
  release : ∀ {i p q}, T.release i p q → ¬ C i q

/-- The holder is the thread that is where `C` says. -/
def Held (C : ∀ i, P i → Prop) (s : State ι P σ) : Prop :=
  ∀ i, C i (s.own i) ↔ s.holder = some i

variable {C : ∀ i, P i → Prop}

theorem held_step (hcritical : Critical T C) (hheld : Held C s) (hstep : Step T s s') :
    Held C s' := by
  intro j
  have hj := hheld j
  cases hstep with
  | @outside i p hout hstep =>
    dsimp only
    by_cases heq : j = i
    · subst heq
      rw [Function.update_self]
      exact iff_of_false (hcritical.outside hstep) hout
    · rwa [Function.update_of_ne heq]
  | @acquire i p hfree hstep =>
    dsimp only
    by_cases heq : j = i
    · subst heq
      rw [Function.update_self]
      exact iff_of_true (hcritical.acquire hstep) rfl
    · rw [Function.update_of_ne heq, hj, hfree]
      exact iff_of_false nofun fun hsome => heq (Option.some.inj hsome).symm
  | @inside i p v hholder hstep =>
    dsimp only
    by_cases heq : j = i
    · subst heq
      rw [Function.update_self]
      exact iff_of_true (hcritical.inside hstep) hholder
    · rwa [Function.update_of_ne heq]
  | @release i p hholder hstep =>
    dsimp only
    by_cases heq : j = i
    · subst heq
      rw [Function.update_self]
      exact iff_of_false (hcritical.release hstep) nofun
    · rw [Function.update_of_ne heq, hj, hholder]
      exact iff_of_false (fun hsome => heq (Option.some.inj hsome).symm) nofun

theorem held_steps (hcritical : Critical T C) (hheld : Held C s)
    (hsteps : ReflTransGen (Step T) s s') : Held C s' := by
  induction hsteps with
  | refl => exact hheld
  | tail _ hstep ih => exact held_step hcritical ih hstep

/-! ## Interleavings that go on for ever -/

/-- Every step takes a thread nearer to its end, but some inside a critical section. -/
structure Descends (T : Threads ι P σ) (weight : ∀ i, P i → ℕ) : Prop where
  outside : ∀ {i p q}, T.outside i p q → weight i q < weight i p
  acquire : ∀ {i p q}, T.acquire i p q → weight i q < weight i p
  inside : ∀ {i x y}, T.inside i x y → weight i y.1 ≤ weight i x.1
  release : ∀ {i p q}, T.release i p q → weight i q < weight i p

/-- The holder works on and comes no nearer to its end. -/
def Stays (T : Threads ι P σ) (weight : ∀ i, P i → ℕ) (i : ι) (s s' : State ι P σ) : Prop :=
  s.holder = some i ∧ s'.holder = some i ∧
    T.inside i (s.own i, s.shared) (s'.own i, s'.shared) ∧
    weight i (s'.own i) = weight i (s.own i)

variable [Fintype ι] {weight : ∀ i, P i → ℕ}

def total (weight : ∀ i, P i → ℕ) (own : ∀ i, P i) : ℕ := ∑ i, weight i (own i)

theorem total_update (weight : ∀ i, P i → ℕ) (own : ∀ i, P i) (i : ι) (p : P i) :
    total weight (Function.update own i p) + weight i (own i) = total weight own + weight i p := by
  have hupdate : (fun j => weight j (Function.update own i p j)) =
      Function.update (fun j => weight j (own j)) i (weight i p) := by
    funext j
    exact Function.apply_update weight own i p j
  rw [total, hupdate, Finset.sum_update_of_mem (Finset.mem_univ i), total,
    Finset.sum_eq_add_sum_sdiff_singleton_of_mem (Finset.mem_univ i) fun j => weight j (own j)]
  omega

theorem total_step (hdescends : Descends T weight) (hstep : Step T s s') :
    total weight s'.own < total weight s.own ∨
      total weight s'.own = total weight s.own ∧ ∃ i, Stays T weight i s s' := by
  cases hstep with
  | @outside i p hout hstep =>
    have hless := hdescends.outside hstep
    have htotal := total_update weight s.own i p
    left
    dsimp only
    omega
  | @acquire i p hfree hstep =>
    have hless := hdescends.acquire hstep
    have htotal := total_update weight s.own i p
    left
    dsimp only
    omega
  | @inside i p v hholder hstep =>
    have hle := hdescends.inside hstep
    have htotal := total_update weight s.own i p
    dsimp only at hle ⊢
    rcases hle.lt_or_eq with hless | heq
    · left
      omega
    · right
      refine ⟨by omega, i, hholder, hholder, ?_, ?_⟩
      · dsimp only
        rwa [Function.update_self]
      · dsimp only
        rwa [Function.update_self]
  | @release i p hholder hstep =>
    have hless := hdescends.release hstep
    have htotal := total_update weight s.own i p
    left
    dsimp only
    omega

/-- **Only a critical section is endless.** -/
theorem endless (hdescends : Descends T weight) {run : ℕ → State ι P σ}
    (hrun : ∀ n, Step T (run n) (run (n + 1))) :
    ∃ N i, ∀ n, Stays T weight i (run (N + n)) (run (N + n + 1)) := by
  -- from where the total is least on, no step takes a thread nearer to its end
  obtain ⟨N, hleast⟩ : ∃ N, ∀ n, total weight (run N).own ≤ total weight (run n).own :=
    ⟨_, fun n => Function.argmin_le (fun n => total weight (run n).own) n⟩
  have hconst : ∀ n, total weight (run (N + n)).own = total weight (run N).own := by
    intro n
    induction n with
    | zero => rfl
    | succ n ih =>
      have hnext := hleast (N + n + 1)
      rcases total_step hdescends (hrun (N + n)) with hless | ⟨heq, -⟩
      · omega
      · exact heq.trans ih
  have hstays : ∀ n, ∃ i, Stays T weight i (run (N + n)) (run (N + n + 1)) := by
    intro n
    have hnext := hconst (n + 1)
    rcases total_step hdescends (hrun (N + n)) with hless | ⟨-, hstays⟩
    · rw [hconst n] at hless
      exact absurd hnext hless.ne
    · exact hstays
  obtain ⟨i, hfirst⟩ := hstays 0
  refine ⟨N, i, fun n => ?_⟩
  have hholder : (run (N + n)).holder = some i := by
    induction n with
    | zero => exact hfirst.1
    | succ n ih =>
      obtain ⟨j, hj, hnext, -, -⟩ := hstays n
      obtain rfl : i = j := Option.some.inj (ih.symm.trans hj)
      exact hnext
  obtain ⟨j, hj⟩ := hstays n
  obtain rfl : i = j := Option.some.inj (hholder.symm.trans hj.1)
  exact hj

end Mutex
