import Armator.Decode

/-!
# Conditional execution

`check_cond_failed` against the condition table of the architecture, and the step around it. Three
things go wrong there. The row of `LS` asks for `C` clear *and* `Z` set. The flags are read after
the fetch, which has written the program counter over them. And the result code of a failed
condition is the number of the reset exception, so that a skipped instruction resets the core.
-/

namespace Armator

open Arm (Flags Condition)

/-! ## The table -/

theorem checkCondFailed_ne_zero_iff (n z c v : Bool) (bits : BitVec 4) :
    checkCondFailed (ofBool n) (ofBool z) (ofBool v) (ofBool c) (u8 bits) ≠ 0 ↔
      ¬ ((Condition.ofBits bits).holds ⟨n, z, c, v⟩ = true ∧
        (Condition.ofBits bits = .ls → c = false ∧ z = true)) := by
  revert n z c v bits
  decide

theorem flagOf_eq (cpsr : Word) (bit : Byte) : flagOf cpsr bit = ofBool (cpsr.getLsbD bit.toNat) :=
  u8_bit cpsr bit.toNat

theorem condFailed_iff (p : ArmCoreData) (mot : Word) :
    condFailed p mot ↔
      ¬ ((Arm.condition mot).holds (.ofStatus (armReadCpsr p)) = true ∧
        (Arm.condition mot = .ls →
          (armReadCpsr p).getLsbD 29 = false ∧ (armReadCpsr p).getLsbD 30 = true)) := by
  unfold condFailed
  dsimp only
  rw [flagOf_eq, flagOf_eq, flagOf_eq, flagOf_eq, u8_nibble]
  exact checkCondFailed_ne_zero_iff _ _ _ _ _

/-! ## Comparisons -/

/-- With the flags of `a - b`, a condition that compares two numbers lets an instruction execute
exactly if its relation holds of `a` and `b`. -/
def Compares (a b : Word) : Prop :=
  ∀ p mot r, Flags.ofStatus (armReadCpsr p) = Flags.ofDifference a b →
    (Arm.condition mot).relation = some r → (¬ condFailed p mot ↔ r a b)

theorem exists_ofStatus (f : Flags) : ∃ p, Flags.ofStatus (armReadCpsr p) = f := by
  obtain ⟨n, z, c, v⟩ := f
  have hstatus : ∀ n z c v, Flags.ofStatus (BitVec.ofBool n ++ BitVec.ofBool z ++ BitVec.ofBool c ++
      BitVec.ofBool v ++ 0#28) = ⟨n, z, c, v⟩ := by decide
  exact ⟨armWriteCpsr (coreAt 0) (BitVec.ofBool n ++ BitVec.ofBool z ++ BitVec.ofBool c ++
    BitVec.ofBool v ++ 0#28), hstatus n z c v⟩

/-- After a comparison an instruction under `LS` is never executed: equal numbers set `C` with `Z`. -/
theorem executes_iff {a b : Word} {p : ArmCoreData} {mot : Word} {r : Word → Word → Prop}
    (hflags : Flags.ofStatus (armReadCpsr p) = Flags.ofDifference a b)
    (hr : (Arm.condition mot).relation = some r) :
    ¬ condFailed p mot ↔ r a b ∧ Arm.condition mot ≠ .ls := by
  have hc : (armReadCpsr p).getLsbD 29 = true ↔ b.toNat ≤ a.toNat := by
    rw [← Arm.c_ofDifference, ← hflags]
    rfl
  have hz : (armReadCpsr p).getLsbD 30 = true ↔ a = b := by
    rw [← Arm.z_ofDifference, ← hflags]
    rfl
  rw [condFailed_iff, not_not, hflags, Arm.holds_ofDifference hr]
  refine and_congr_right fun _ => ?_
  constructor
  · intro hrow hls
    obtain ⟨hclear, hset⟩ := hrow hls
    have hle : b.toNat ≤ a.toNat := le_of_eq (congrArg BitVec.toNat (hz.mp hset).symm)
    rw [hc.mpr hle] at hclear
    exact Bool.noConfusion hclear
  · exact fun hne hls => absurd hls hne

/-- The conditions decide the comparison of two numbers exactly if the first one is the greater of
the two, unsigned, so that `LS` is not to hold. -/
theorem compares_iff (a b : Word) : Compares a b ↔ b.toNat < a.toNat := by
  constructor
  · intro hlaw
    by_contra hle
    have hls : (Arm.condition 0x90000000).relation = some fun x y => x.toNat ≤ y.toNat := rfl
    obtain ⟨p, hflags⟩ := exists_ofStatus (Flags.ofDifference a b)
    have hexec := (hlaw p 0x90000000 _ hflags hls).mpr (Nat.not_lt.mp hle)
    exact ((executes_iff hflags hls).mp hexec).2 rfl
  · intro hlt p mot r hflags hr
    rw [executes_iff hflags hr, and_iff_left_iff_imp]
    intro hrel hls
    rw [hls] at hr
    obtain rfl := Option.some.inj hr
    exact Nat.not_lt.mpr hrel hlt

/-- `CMP r0, r0` is to set `Z` and `C`, and an instruction under `LS` is then skipped. -/
theorem compares_iff_equal :
    Flags.ofDifference 0 0 = ⟨false, true, true, false⟩ ∧ checkCondFailed 0 1 0 1 9 = 1 ∧
    ¬ Compares 0 0 := by
  refine ⟨by decide, by decide, fun hlaw => ?_⟩
  have hexec := hlaw (armWriteCpsr (coreAt 0) 0x60000000) 0x90000000 (fun x y => x.toNat ≤ y.toNat)
    (by decide) rfl
  exact absurd (hexec.mpr (Nat.le_refl _)) (by decide)

/-! ## The step -/

section
variable (h : Host) (p : ArmCoreData)

def Holds (cpsr : Word) : Prop := (Arm.condition (fetchedWord h p)).holds (.ofStatus cpsr) = true

/-- The instruction is executed exactly if its condition holds, and is skipped otherwise. -/
structure Conditional : Prop where
  executed : Passed h p ↔ Holds h p (armReadCpsr p)
  skipped : ¬ Holds h p (armReadCpsr p) → Undisturbed p (armStep h p).2 ∧
    (armStep h p).2.word 15 = fetchAddress p + 4 ∧ (armStep h p).1 = 0

theorem armReadCpsr_fetchedCore : armReadCpsr (fetchedCore h p) = fetchAddress p + 4 := by
  rw [armReadCpsr_eq, fetchedCore, word_armFetch, if_pos rfl]

/-- The flags tested are the top bits of the new program counter. -/
theorem passed_iff :
    Passed h p ↔ Holds h p (fetchAddress p + 4) ∧ (Arm.condition (fetchedWord h p) = .ls →
      (fetchAddress p + 4).getLsbD 29 = false ∧ (fetchAddress p + 4).getLsbD 30 = true) := by
  rw [Passed, condFailed_iff, armReadCpsr_fetchedCore, not_not, Holds]

theorem not_skipped (hfail : ¬ Passed h p) : (armStep h p).1 ≠ 0 := by
  rw [armStep_of_failed hfail]
  exact Int.one_ne_zero

/-- A step treats the condition of its word as the architecture does exactly if the condition holds
both of the flags before the step and of the top bits of the new program counter, and is not met by
the narrow row of `LS`. -/
theorem conditional_iff :
    Conditional h p ↔ Holds h p (armReadCpsr p) ∧ Holds h p (fetchAddress p + 4) ∧
      (Arm.condition (fetchedWord h p) = .ls →
        (fetchAddress p + 4).getLsbD 29 = false ∧ (fetchAddress p + 4).getLsbD 30 = true) := by
  rw [← passed_iff]
  constructor
  · intro hcond
    by_cases hpass : Passed h p
    · exact ⟨hcond.executed.mp hpass, hpass⟩
    · -- the condition fails on both sides, and the step returns the number of the reset
      have hnot : ¬ Holds h p (armReadCpsr p) := fun hold => hpass (hcond.executed.mpr hold)
      exact absurd (hcond.skipped hnot).2.2 (not_skipped h p hpass)
  · rintro ⟨hold, hpass⟩
    exact ⟨iff_of_true hpass hold, fun hnot => absurd hold hnot⟩

end

/-- `ANDEQ r0, r0, r0` at address 0 with `Z` clear resets the core. -/
theorem conditional_iff_reset : ¬ Conditional Host.x86 (coreAt 0) := by
  intro hcond
  have hnot : ¬ Holds Host.x86 (coreAt 0) 0 := by
    unfold Holds
    decide
  exact absurd (hcond.skipped hnot).2.2 (by decide)

end Armator
