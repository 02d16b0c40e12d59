import Armator.Listeners

/-!
# How the listeners end

The two listeners of `arm_simulator.c` cannot block each other: in every state an interleaving
reaches, everything has been received and dealt with, or `gdb_listener` is at a fault, or one of them
can go on (`progress_of_held`). Each step but a turn of the loop of `cont` takes a listener nearer to
its end, so that an interleaving that goes on for ever is one in which `cont` has the lock and never
meets a breakpoint (`spins_of_endless`).
-/

namespace Armator

open Mutex Relation

instance : Fintype Party where
  elems := {.gdb, .irq}
  complete party := by cases party <;> decide

/-! ## The ends -/

/-- Both listeners have received everything. -/
def Finished (s : Mutex.State Party Listener ArmCoreData) : Prop :=
  s.holder = none ∧ (∃ data, s.own .gdb = .scanning data []) ∧ s.own .irq = .reading []

/-- What `gdb_listener` does next is undefined, a failed assertion or an error of the connection. -/
def GdbListener.Faults (b : Build) (arm : ArmCoreData) : GdbListener → Prop
  | scanning data (event :: _) =>
    (¬ TakesLock b event ∧ ∃ fault, scannerAction b 0 data event = .error fault) ∨
      (TakesLock b event ∧ ∃ fault, acknowledge data = .error fault)
  | handling data handler t _ =>
    handler ≠ .cont ∧ ∃ fault, handler.run b 0 (data.withArm arm).gdb t 2 = .error fault
  | looping data s _ =>
    s.fin = true ∧ ∃ fault, gdbSendStopReason
      { (data.withArm arm).gdb with targetException := s.targetException } = .error fault
  | _ => False

/-- `cont` has the lock, and its loop meets no breakpoint. -/
def Spins (b : Build) (s : Mutex.State Party Listener ArmCoreData) : Prop :=
  s.holder = some .gdb ∧ ∃ data first input, s.own .gdb = .looping data first input ∧
    ∀ n, ((Gdb.contTurn b.host)^[n] { first with arm := s.shared }).fin = false

/-! ## Who has the lock -/

def GdbListener.Locked : GdbListener → Prop
  | handling .. | looping .. | handled .. => True
  | _ => False

def IrqListener.Locked : IrqListener → Prop
  | raising .. | raised .. => True
  | _ => False

def Locked : ∀ party, Listener party → Prop
  | .gdb => GdbListener.Locked
  | .irq => IrqListener.Locked

theorem critical_listeners (b : Build) : Critical (listeners b) Locked where
  outside {party _ _} hstep := by
    cases party with
    | gdb => cases (hstep : GdbOutside b _ _) <;> exact id
    | irq => cases (hstep : IrqOutside _ _); exact id
  acquire {party _ _} hstep := by
    cases party with
    | gdb => cases (hstep : GdbAcquire _ _); trivial
    | irq => cases (hstep : IrqAcquire _ _); trivial
  inside {party _ _} hstep := by
    cases party with
    | gdb => cases (hstep : GdbInside b _ _) <;> trivial
    | irq => cases (hstep : IrqInside _ _); trivial
  release {party _ _} hstep := by
    cases party with
    | gdb => cases (hstep : GdbRelease _ _); exact id
    | irq => cases (hstep : IrqRelease _ _); exact id

theorem held_listening (data : ParserData) (events : List ScannerEvent) (irqs : List Byte) :
    Held Locked (listening data events irqs) := by
  intro party
  cases party with
  | gdb => exact iff_of_false id nofun
  | irq => exact iff_of_false id nofun

/-! ## No deadlock -/

section
variable {b : Build} {s : Mutex.State Party Listener ArmCoreData}

theorem irq_goes_on (hheld : s.holder = some .irq) (hlocked : (s.own .irq : IrqListener).Locked) :
    ∃ s', Mutex.Step (listeners b) s s' := by
  obtain ⟨own, arm, holder⟩ := s
  dsimp only at hheld hlocked
  generalize hown : own .irq = x at hlocked
  cases x with
  | raising irq input =>
    refine ⟨_, .inside (i := Party.irq) (p := IrqListener.raised input)
      (v := armException arm irq) hheld ?_⟩
    dsimp only
    rw [hown]
    exact IrqInside.raise
  | raised input =>
    refine ⟨_, .release (i := Party.irq) (p := IrqListener.reading input) hheld ?_⟩
    dsimp only
    rw [hown]
    exact IrqRelease.unlock
  | reading input => exact hlocked.elim
  | received irq input => exact hlocked.elim

theorem gdb_goes_on (hheld : s.holder = some .gdb) (hlocked : (s.own .gdb : GdbListener).Locked) :
    (s.own .gdb : GdbListener).Faults b s.shared ∨ ∃ s', Mutex.Step (listeners b) s s' := by
  obtain ⟨own, arm, holder⟩ := s
  dsimp only at hheld hlocked ⊢
  have hinside : ∀ {p : GdbListener} {v : ArmCoreData}, GdbInside b (own .gdb, arm) (p, v) →
      ∃ s', Mutex.Step (listeners b) ⟨own, arm, holder⟩ s' := fun hstep =>
    ⟨_, .inside (i := Party.gdb) hheld hstep⟩
  have hrelease : ∀ {p : GdbListener}, GdbRelease (own .gdb) p →
      ∃ s', Mutex.Step (listeners b) ⟨own, arm, holder⟩ s' := fun hstep =>
    ⟨_, .release (i := Party.gdb) hheld hstep⟩
  generalize own .gdb = x at hlocked hinside hrelease ⊢
  cases x with
  | handling data handler t input =>
    by_cases hcont : handler = .cont
    · subst hcont
      exact Or.inr (hinside .start)
    · cases hrun : handler.run b 0 (data.withArm arm).gdb t 2 with
      | error fault => exact Or.inl ⟨hcont, fault, hrun⟩
      | ok g => exact Or.inr (hinside (.handle hcont hrun))
  | looping data first input =>
    cases hfin : first.fin with
    | false => exact Or.inr (hinside (.turn hfin rfl))
    | true =>
      cases hsend : gdbSendStopReason
          { (data.withArm arm).gdb with targetException := first.targetException } with
      | error fault => exact Or.inl ⟨hfin, fault, hsend⟩
      | ok g => exact Or.inr (hinside (.finish hfin hsend))
  | handled data input => exact Or.inr (hrelease .unlock)
  | scanning data input => exact hlocked.elim
  | acknowledged data handler t input => exact hlocked.elim

theorem irq_starts (hfree : s.holder = none) (hlocked : ¬ (s.own .irq : IrqListener).Locked) :
    s.own .irq = .reading [] ∨ ∃ s', Mutex.Step (listeners b) s s' := by
  obtain ⟨own, arm, holder⟩ := s
  obtain rfl : holder = none := hfree
  dsimp only at hlocked ⊢
  have houtside : ∀ {p : IrqListener}, IrqOutside (own .irq) p →
      ∃ s', Mutex.Step (listeners b) ⟨own, arm, none⟩ s' := fun hstep =>
    ⟨_, .outside (i := Party.irq) nofun hstep⟩
  have hacquire : ∀ {p : IrqListener}, IrqAcquire (own .irq) p →
      ∃ s', Mutex.Step (listeners b) ⟨own, arm, none⟩ s' := fun hstep =>
    ⟨_, .acquire (i := Party.irq) rfl hstep⟩
  generalize own .irq = x at hlocked houtside hacquire ⊢
  cases x with
  | reading input =>
    cases input with
    | nil => exact Or.inl rfl
    | cons irq input => exact Or.inr (houtside .read)
  | received irq input => exact Or.inr (hacquire .lock)
  | raising irq input => exact absurd trivial hlocked
  | raised input => exact absurd trivial hlocked

theorem gdb_starts (hfree : s.holder = none) (hlocked : ¬ (s.own .gdb : GdbListener).Locked) :
    (∃ data, s.own .gdb = .scanning data []) ∨ (s.own .gdb : GdbListener).Faults b s.shared ∨
      ∃ s', Mutex.Step (listeners b) s s' := by
  obtain ⟨own, arm, holder⟩ := s
  obtain rfl : holder = none := hfree
  dsimp only at hlocked ⊢
  have houtside : ∀ {p : GdbListener}, GdbOutside b (own .gdb) p →
      ∃ s', Mutex.Step (listeners b) ⟨own, arm, none⟩ s' := fun hstep =>
    ⟨_, .outside (i := Party.gdb) nofun hstep⟩
  have hacquire : ∀ {p : GdbListener}, GdbAcquire (own .gdb) p →
      ∃ s', Mutex.Step (listeners b) ⟨own, arm, none⟩ s' := fun hstep =>
    ⟨_, .acquire (i := Party.gdb) rfl hstep⟩
  generalize own .gdb = x at hlocked houtside hacquire ⊢
  cases x with
  | scanning data input =>
    cases input with
    | nil => exact Or.inl ⟨data, rfl⟩
    | cons event input =>
      right
      by_cases hlock : TakesLock b event
      · cases hack : acknowledge data with
        | error fault => exact Or.inl (Or.inr ⟨hlock, fault, hack⟩)
        | ok data' =>
          cases event with
          | packet token beyond =>
            obtain ⟨hsum, hne⟩ := hlock
            obtain ⟨handler, hcommand⟩ := Option.ne_none_iff_exists'.mp hne
            exact Or.inr (houtside (.acknowledge hsum hcommand hack))
          | _ => exact hlock.elim
      · cases hok : scannerAction b 0 data event with
        | error fault => exact Or.inl (Or.inl ⟨hlock, fault, hok⟩)
        | ok data' => exact Or.inr (houtside (.action hlock hok))
  | acknowledged data handler t input => exact Or.inr (Or.inr (hacquire .lock))
  | handling data handler t input => exact absurd trivial hlocked
  | looping data first input => exact absurd trivial hlocked
  | handled data input => exact absurd trivial hlocked

theorem progress_of_held (hheld : Held Locked s) :
    Finished s ∨ (s.own .gdb : GdbListener).Faults b s.shared ∨
      ∃ s', Mutex.Step (listeners b) s s' := by
  cases hholder : s.holder with
  | none =>
    have hunlocked : ∀ party, ¬ Locked party (s.own party) := by
      intro party hlocked
      have hsome := (hheld party).mp hlocked
      rw [hholder] at hsome
      cases hsome
    rcases gdb_starts (b := b) hholder (hunlocked .gdb) with hscanning | hnext
    · rcases irq_starts (b := b) hholder (hunlocked .irq) with hreading | hnext
      · exact Or.inl ⟨hholder, hscanning, hreading⟩
      · exact Or.inr (Or.inr hnext)
    · exact Or.inr hnext
  | some party =>
    cases party with
    | gdb => exact Or.inr (gdb_goes_on hholder ((hheld .gdb).mpr hholder))
    | irq => exact Or.inr (Or.inr (irq_goes_on hholder ((hheld .irq).mpr hholder)))

end

/-! ## No endless interleaving but in `cont` -/

/-- The steps to the end, where a turn of the loop of `cont` is none. -/
def GdbListener.weight : GdbListener → ℕ
  | scanning _ input => 5 * input.length
  | acknowledged _ _ _ input => 5 * input.length + 4
  | handling _ _ _ input => 5 * input.length + 3
  | looping _ _ input => 5 * input.length + 2
  | handled _ input => 5 * input.length + 1

def IrqListener.weight : IrqListener → ℕ
  | reading input => 4 * input.length
  | received _ input => 4 * input.length + 3
  | raising _ input => 4 * input.length + 2
  | raised input => 4 * input.length + 1

def listenerWeight : ∀ party, Listener party → ℕ
  | .gdb => GdbListener.weight
  | .irq => IrqListener.weight

theorem weight_raise {x y : IrqListener × ArmCoreData} (hstep : IrqInside x y) :
    y.1.weight < x.1.weight := by
  cases hstep
  exact Nat.lt_succ_self _

theorem descends_listeners (b : Build) : Descends (listeners b) listenerWeight where
  outside {party _ _} hstep := by
    cases party with
    | gdb =>
      cases (hstep : GdbOutside b _ _) <;> simp [listenerWeight, GdbListener.weight, Nat.mul_succ]
    | irq =>
      cases (hstep : IrqOutside _ _)
      simp [listenerWeight, IrqListener.weight, Nat.mul_succ]
  acquire {party _ _} hstep := by
    cases party with
    | gdb => cases (hstep : GdbAcquire _ _); exact Nat.lt_succ_self _
    | irq => cases (hstep : IrqAcquire _ _); exact Nat.lt_succ_self _
  inside {party _ _} hstep := by
    cases party with
    | gdb => cases (hstep : GdbInside b _ _) <;> simp [listenerWeight, GdbListener.weight]
    | irq => exact (weight_raise hstep).le
  release {party _ _} hstep := by
    cases party with
    | gdb => cases (hstep : GdbRelease _ _); exact Nat.lt_succ_self _
    | irq => cases (hstep : IrqRelease _ _); exact Nat.lt_succ_self _

/-- `gdb_listener` works on and comes no nearer to its end only in the loop of `cont`. -/
theorem turn_of_inside {b : Build} {x y : GdbListener × ArmCoreData} (hstep : GdbInside b x y)
    (hweight : y.1.weight = x.1.weight) :
    ∃ data s input, x.1 = .looping data s input ∧ s.fin = false ∧
      y.1 = .looping data (Gdb.contTurn b.host { s with arm := x.2 }) input ∧
      y.2 = (Gdb.contTurn b.host { s with arm := x.2 }).arm := by
  cases hstep with
  | handle hcont hok => simp [GdbListener.weight] at hweight
  | start => simp [GdbListener.weight] at hweight
  | @turn data s s' input arm hfin hturn =>
    subst hturn
    exact ⟨data, s, input, rfl, hfin, rfl, rfl⟩
  | finish hfin hok => simp [GdbListener.weight] at hweight

theorem spins_of_endless {b : Build} {run : ℕ → Mutex.State Party Listener ArmCoreData}
    (hrun : ∀ n, Mutex.Step (listeners b) (run n) (run (n + 1))) : ∃ n, Spins b (run n) := by
  obtain ⟨N, party, hstays⟩ := endless (descends_listeners b) hrun
  cases party with
  | irq =>
    -- the interrupt is raised and the lock given back
    obtain ⟨-, -, hinside, hweight⟩ := hstays 0
    exact absurd hweight (weight_raise hinside).ne
  | gdb =>
    have hturns : ∀ n, ∃ data s input, (run (N + n)).own .gdb = .looping data s input ∧
        s.fin = false ∧
        (run (N + n + 1)).own .gdb =
          .looping data (Gdb.contTurn b.host { s with arm := (run (N + n)).shared }) input ∧
        (run (N + n + 1)).shared =
          (Gdb.contTurn b.host { s with arm := (run (N + n)).shared }).arm := by
      intro n
      obtain ⟨-, -, hinside, hweight⟩ := hstays n
      exact turn_of_inside hinside hweight
    obtain ⟨data, first, input, hfirst, -⟩ := hturns 0
    refine ⟨N, (hstays 0).1, data, first, input, hfirst, fun n => ?_⟩
    have hloop : ∃ s, (run (N + n)).own .gdb = .looping data s input ∧
        { s with arm := (run (N + n)).shared } =
          (Gdb.contTurn b.host)^[n] { first with arm := (run N).shared } := by
      induction n with
      | zero => exact ⟨first, hfirst, rfl⟩
      | succ n ih =>
        obtain ⟨s, hown, hs⟩ := ih
        obtain ⟨data', s', input', hown', -, hnext, hshared⟩ := hturns n
        obtain ⟨rfl, rfl, rfl⟩ := GdbListener.looping.inj (hown.symm.trans hown')
        refine ⟨_, hnext, ?_⟩
        rw [Function.iterate_succ_apply', ← hs]
        show { Gdb.contTurn _ _ with arm := (run (N + n + 1)).shared } = _
        rw [hshared]
    obtain ⟨s, hown, hs⟩ := hloop
    obtain ⟨data', s', input', hown', hfin, -⟩ := hturns n
    obtain ⟨-, rfl, -⟩ := GdbListener.looping.inj (hown.symm.trans hown')
    rw [← hs]
    exact hfin

/-- **The listeners come to an end**: no interleaving reaches a deadlock, and only in the loop of
`cont` can one go on for ever. -/
theorem listeners_end (b : Build) (data : ParserData) (events : List ScannerEvent)
    (irqs : List Byte) :
    (∀ s, ReflTransGen (Mutex.Step (listeners b)) (listening data events irqs) s →
      Finished s ∨ (s.own .gdb : GdbListener).Faults b s.shared ∨
        ∃ s', Mutex.Step (listeners b) s s') ∧
    ∀ run : ℕ → Mutex.State Party Listener ArmCoreData,
      (∀ n, Mutex.Step (listeners b) (run n) (run (n + 1))) → ∃ n, Spins b (run n) := by
  refine ⟨fun s hsteps => progress_of_held ?_, fun run hrun => spins_of_endless hrun⟩
  exact held_steps (critical_listeners b) (held_listening data events irqs) hsteps

end Armator
