import Armator.GdbReplies

/-!
# The loop of `cont`

Before each step `cont` reads the word at the address `arm_fetch` will use and stops at a
breakpoint. The address is computed and the memory is read a second time, but from the same core
and by the same functions, so the two words agree wherever the read succeeds (`lookAhead_eq`);
`ContInv` is what every turn keeps.
-/

namespace Armator

open Gdb (lookAhead IsBreakpoint ContState contTurn)

section
variable (h : Host)

/-- The read of the next turn succeeds. -/
def Readable (s : ContState) : Prop := (lookAhead h s.arm s.instruction).1 = 0

/-- The next turn calls `arm_step`. -/
def Executes (s : ContState) : Prop :=
  s.fin = false ∧ ¬ IsBreakpoint (lookAhead h s.arm s.instruction).2

instance (s : ContState) : Decidable (Executes h s) := inferInstanceAs (Decidable (_ ∧ _))

variable {h}

theorem memoryReadWord_value {mem : MemoryData} {address value : Word}
    (hread : (memoryReadWord h mem address value).1 = 0) (value' : Word) :
    (memoryReadWord h mem address value').2 = (memoryReadWord h mem address value).2 := by
  unfold memoryReadWord at hread ⊢
  split
  · next hbad =>
    rw [if_pos hbad] at hread
    exact absurd hread (show (-1 : Int) ≠ 0 by decide)
  · split <;> rfl

theorem lookAhead_eq {s : ContState} (hread : Readable h s) :
    (lookAhead h s.arm s.instruction).2 = fetchedWord h s.arm :=
  (memoryReadWord_value hread (armReadCpsr s.arm)).symm

/-- A turn that executes is a call of `arm_step`, any other one leaves the core and the exception. -/
theorem contTurn_eq (s : ContState) :
    ((contTurn h s).arm, (contTurn h s).targetException) =
      if Executes h s then ((armStep h s.arm).2, (armStep h s.arm).1)
      else (s.arm, s.targetException) := by
  rw [contTurn]
  by_cases hfin : s.fin = true
  · rw [if_pos hfin, if_neg fun hexec => Bool.false_ne_true (hexec.1.symm.trans hfin)]
  · rw [if_neg hfin]
    dsimp only
    by_cases hbreak : IsBreakpoint (lookAhead h s.arm s.instruction).2
    · rw [if_pos hbreak, if_neg fun hexec => hexec.2 hbreak]
    · rw [if_neg hbreak, if_pos ⟨Bool.eq_false_iff.mpr hfin, hbreak⟩]

theorem fin_contTurn (s : ContState) : (contTurn h s).fin = false ↔ Executes h s := by
  rw [contTurn, Executes]
  by_cases hfin : s.fin = true
  · rw [if_pos hfin, hfin]
    exact iff_of_false Bool.noConfusion fun hexec => Bool.noConfusion hexec.1
  · rw [if_neg hfin, and_iff_right (Bool.eq_false_iff.mpr hfin)]
    dsimp only
    split
    · next hbreak => exact iff_of_false Bool.noConfusion (not_not_intro hbreak)
    · next hbreak => exact iff_of_true (Bool.eq_false_iff.mpr hfin) hbreak

theorem contTurn_of_breakpoint {s : ContState} (hread : Readable h s)
    (hbreak : IsBreakpoint (fetchedWord h s.arm)) :
    (contTurn h s).arm = s.arm ∧ (contTurn h s).fin = true := by
  rw [← lookAhead_eq hread] at hbreak
  have hnot : ¬ Executes h s := fun hexec => hexec.2 hbreak
  have hturn := contTurn_eq (h := h) s
  rw [if_neg hnot] at hturn
  exact ⟨congrArg Prod.fst hturn, Bool.eq_true_of_not_eq_false (mt (fin_contTurn s).mp hnot)⟩

theorem contTurn_of_step {s : ContState} (hfin : s.fin = false) (hread : Readable h s)
    (hstep : ¬ IsBreakpoint (fetchedWord h s.arm)) :
    (contTurn h s).arm = stepped h s.arm ∧ (contTurn h s).fin = false := by
  rw [← lookAhead_eq hread] at hstep
  have hexec : Executes h s := ⟨hfin, hstep⟩
  have hturn := contTurn_eq (h := h) s
  rw [if_pos hexec] at hturn
  exact ⟨congrArg Prod.fst hturn, (fin_contTurn s).mpr hexec⟩

theorem contTurn_of_fin {s : ContState} (hfin : s.fin = true) : contTurn h s = s := by
  rw [contTurn, if_pos hfin]

variable (h)

/-- The core after `k` steps is at a breakpoint, and was at none before. -/
def StopsAfter (p : ArmCoreData) (k : Nat) : Prop :=
  IsBreakpoint (fetchedWord h ((stepped h)^[k] p)) ∧
  ∀ j < k, ¬ IsBreakpoint (fetchedWord h ((stepped h)^[j] p))

/-- What the loop has done in `n` turns from `p`: as many steps, none of them at a breakpoint, or
the steps up to the first breakpoint. -/
def ContInv (p : ArmCoreData) (n : Nat) (s : ContState) : Prop :=
  (s.fin = false ∧ s.arm = (stepped h)^[n] p ∧
    ∀ j < n, ¬ IsBreakpoint (fetchedWord h ((stepped h)^[j] p))) ∨
  (s.fin = true ∧ ∃ k < n, s.arm = (stepped h)^[k] p ∧ StopsAfter h p k)

variable {h}

theorem contInv_turn {p : ArmCoreData} {n : Nat} {s : ContState} (hinv : ContInv h p n s)
    (hread : Readable h s) : ContInv h p (n + 1) (contTurn h s) := by
  rcases hinv with ⟨hfin, harm, hnone⟩ | ⟨hfin, k, hk, harm, hstop⟩
  · by_cases hbreak : IsBreakpoint (fetchedWord h s.arm)
    · obtain ⟨hsame, hend⟩ := contTurn_of_breakpoint hread hbreak
      rw [harm] at hbreak
      exact Or.inr ⟨hend, n, Nat.lt_succ_self n, hsame.trans harm, hbreak, hnone⟩
    · obtain ⟨hnext, hrun⟩ := contTurn_of_step hfin hread hbreak
      refine Or.inl ⟨hrun, ?_, fun j hj => ?_⟩
      · rw [hnext, harm, Function.iterate_succ_apply']
      · rcases Nat.lt_succ_iff_lt_or_eq.mp hj with hlt | rfl
        · exact hnone j hlt
        · rwa [harm] at hbreak
  · rw [contTurn_of_fin hfin]
    exact Or.inr ⟨hfin, k, Nat.lt_succ_of_lt hk, harm, hstop⟩

theorem ContInv.stopped {p : ArmCoreData} {n : Nat} {s : ContState} (hinv : ContInv h p n s)
    (hfin : s.fin = true) : ∃ k < n, s.arm = (stepped h)^[k] p ∧ StopsAfter h p k := by
  rcases hinv with ⟨hrun, -⟩ | ⟨-, hstop⟩
  · rw [hfin] at hrun
    exact absurd hrun Bool.noConfusion
  · exact hstop

theorem contInv_turns {s : ContState} (hfin : s.fin = false) {n : Nat}
    (hread : ∀ i < n, Readable h ((contTurn h)^[i] s)) :
    ContInv h s.arm n ((contTurn h)^[n] s) := by
  induction n with
  | zero => exact Or.inl ⟨hfin, rfl, fun j hj => absurd hj (Nat.not_lt_zero j)⟩
  | succ n ih =>
    rw [Function.iterate_succ_apply']
    exact contInv_turn (ih fun i hi => hread i (Nat.lt_succ_of_lt hi)) (hread n (Nat.lt_succ_self n))

end

/-- `cont` never executes a breakpoint: for any number of turns in which the address is readable,
it calls `arm_step` only where the word of the fetch is no breakpoint, it leaves its loop exactly
if one of the cores passed is at a breakpoint, and the core it leaves is the one after the least
number of steps that lead to a breakpoint. -/
theorem cont_breakpoint (b : Build) (g : GdbProtocolData) (n : Nat)
    (hread : ∀ i < n, Readable b.host ((contTurn b.host)^[i] (Gdb.contStart b g))) :
    (∀ i < n, Executes b.host ((contTurn b.host)^[i] (Gdb.contStart b g)) →
      ¬ IsBreakpoint (fetchedWord b.host ((contTurn b.host)^[i] (Gdb.contStart b g)).arm)) ∧
    ((Gdb.contEnd b g n).fin = true ↔ ∃ k < n, StopsAfter b.host g.arm k) ∧
    ∀ g', Gdb.cont b n g = .ok g' →
      ∃ k < n, g'.arm = (stepped b.host)^[k] g.arm ∧ StopsAfter b.host g.arm k := by
  have hinv : ContInv b.host g.arm n (Gdb.contEnd b g n) :=
    contInv_turns (s := Gdb.contStart b g) rfl hread
  refine ⟨fun i hi hexec => ?_, ⟨fun hfin => ?_, fun hstop => ?_⟩, fun g' hok => ?_⟩
  · rw [← lookAhead_eq (hread i hi)]
    exact hexec.2
  · obtain ⟨k, hk, -, hstop⟩ := hinv.stopped hfin
    exact ⟨k, hk, hstop⟩
  · obtain ⟨k, hk, hbreak, -⟩ := hstop
    rcases hinv with ⟨-, -, hnone⟩ | ⟨hfin, -⟩
    · exact absurd hbreak (hnone k hk)
    · exact hfin
  · have hfin : (Gdb.contEnd b g n).fin = true := by
      by_contra hfin
      rw [Gdb.cont, ← Gdb.contEnd, if_neg hfin] at hok
      cases hok
    have hreplied := ((Gdb.sends_cont b g n hfin).replied hok).2.2
    obtain ⟨k, hk, harm, hstop⟩ := hinv.stopped hfin
    exact ⟨k, hk, hreplied.arm.trans harm, hstop⟩

/-- `MOV r0, #5` in front of a breakpoint. -/
def movStop : GdbProtocolData := gdbInitData (coreOf 2 [0xE3A00005, 0xE7F000F0]) fun _ => 0

theorem cont_breakpoint_at :
    Executes Host.x86 (Gdb.contStart .x86 movStop) ∧ (Gdb.contEnd .x86 movStop 2).fin = true := by
  have hread : ∀ i < 2,
      Readable Build.x86.host ((contTurn Build.x86.host)^[i] (Gdb.contStart .x86 movStop)) := by
    intro i hi
    unfold Readable
    interval_cases i <;> rfl
  have hbefore : ¬ IsBreakpoint (fetchedWord Build.x86.host movStop.arm) := by decide
  refine ⟨by decide, (cont_breakpoint .x86 movStop 2 hread).2.1.mpr ⟨1, by decide, by decide, ?_⟩⟩
  intro j hj
  obtain rfl : j = 0 := Nat.lt_one_iff.mp hj
  exact hbefore

end Armator
