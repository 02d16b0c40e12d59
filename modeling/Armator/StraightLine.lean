import Armator.Simulation
import Armator.Lib.Triple

/-!
# Straight-line programs

A text of instructions that neither branch nor store over the text is executed from its first word to
its last one. What the machine does to registers and memory on the way is the business of the
instructions alone, so that pre- and postconditions of the text, proved command by command, hold of
the simulator (`straight_line`).
-/

namespace Armator

open Arm (Machine)
open Arm.Machine (reg_setReg)
open Program (Triple)

/-! ## Commands -/

section
variable (h : Host) (be : Bool) (size : Nat) (start : Word) (n : Nat) (w : Word) (m : Machine)

/-- An instruction that the simulator supports, that goes on to the next word and that does not store
into the `n` words from `start` on. -/
structure GoesOn : Prop where
  flags : m.flags = .clear
  holds : (Arm.condition w).holds .clear = true
  ls : Arm.condition w ≠ .ls
  instruction : SupportedOperation h m w ∧ Arm.rd w ≠ 15 ∨ SupportedTransfer h be size m w
  apart : Arm.IsTransfer w → w.getLsbD 20 = false →
    (m.address w).toNat + Arm.width w ≤ start.toNat ∨ start.toNat + 4 * n ≤ (m.address w).toNat

instance : Decidable (GoesOn h be size start n w m) :=
  decidable_of_iff (_ ∧ _ ∧ _ ∧ _ ∧ _)
    ⟨fun ⟨h1, h2, h3, h4, h5⟩ => ⟨h1, h2, h3, h4, h5⟩, fun hs => ⟨hs.1, hs.2, hs.3, hs.4, hs.5⟩⟩

/-- The instruction as a command. -/
def command : Option Machine :=
  if GoesOn h be size start n w m then m.execute be w else none

end

/-- A place for `n` words of a program, with a low program counter all along. -/
structure Place (size : Nat) (start : Word) (n : Nat) : Prop where
  aligned : start.toNat % 4 = 0
  inside : start.toNat + 4 * n ≤ 4 * size
  low : start.toNat + 4 * n < 2 ^ 28

/-- The text lies at its place. -/
def HoldsText (be : Bool) (start : Word) (text : List Word) (m : Machine) : Prop :=
  ∀ k, (hk : k < text.length) → m.number be (start + BitVec.ofNat 32 (4 * k)) 4 = (text[k]).toNat

/-- The core stands for the machine, which is in front of the part `code` of the text. -/
structure Ahead (be : Bool) (size : Nat) (start : Word) (text code : List Word) (m : Machine)
    (p : ArmCoreData) : Prop where
  simulates : Simulates be size m p
  stored : HoldsText be start text m
  code : ∃ before, text = before ++ code ∧
    m.reg 15 = start + BitVec.ofNat 32 (4 * before.length)

/-! ## One command -/

section
variable {h : Host} {be : Bool} {size : Nat} {start : Word} {n : Nat} {m m' : Machine} {w : Word}

theorem reg_15_dataProcessing (hrd : Arm.rd w ≠ 15) (op : Arm.Opcode) :
    (m.dataProcessing w op).reg 15 = m.reg 15 + 4 := by
  have hskip : m.skip.reg 15 = m.reg 15 + 4 := by rw [Machine.skip, reg_setReg, if_pos rfl]
  have hwrite : ∀ x, (m.skip.setReg (Arm.rd w) x).reg 15 = m.reg 15 + 4 := fun x => by
    rw [reg_setReg, if_neg hrd.symm, hskip]
  rw [Machine.dataProcessing]
  cases op.isComparison with
  | true =>
    split
    · exact hskip
    · exact hskip
  | false =>
    split
    · exact hwrite _
    · exact hwrite _

theorem mem_dataProcessing (op : Arm.Opcode) : (m.dataProcessing w op).mem = m.mem := by
  rw [Machine.dataProcessing]
  cases op.isComparison with
  | true => split <;> rfl
  | false => split <;> rfl

theorem reg_15_transfer (hpred : m.IsPredictable w) : (m.transfer be w).reg 15 = m.reg 15 + 4 := by
  have hskip : m.skip.reg 15 = m.reg 15 + 4 := by rw [Machine.skip, reg_setReg, if_pos rfl]
  have haccessed : (m.accessed be w).reg 15 = m.reg 15 + 4 := by
    rw [Machine.accessed]
    split
    · rw [reg_setReg, if_neg hpred.1.symm, hskip]
    · exact hskip
  rw [Machine.transfer]
  split
  · next hwrites => rw [reg_setReg, if_neg (hpred.2.1 hwrites).1.symm, haccessed]
  · exact haccessed

theorem mem_transfer_of_ne {i : Word} (haway : w.getLsbD 20 = false →
    ∀ k < Arm.width w, i ≠ m.address w + BitVec.ofNat 32 k) :
    (m.transfer be w).mem i = m.mem i := by
  have haccessed : (m.accessed be w).mem i = m.mem i := by
    rw [Machine.accessed]
    split
    · rfl
    · next hload =>
      refine (LastWrite.writeAll_apply _ _ i).trans ?_
      rw [LastWrite.lastWrite_eq_none.mpr]
      · rfl
      · rintro v hv rfl
        obtain ⟨k, hk, hplace⟩ := ByteStore.place_of_mem_writes hv
        exact haway (Bool.eq_false_iff.mpr hload) k hk hplace
  rw [Machine.transfer]
  split
  · exact haccessed
  · exact haccessed

theorem reg_15_of_goesOn (hgoes : GoesOn h be size start n w m)
    (hexecute : m.execute be w = some m') : m'.reg 15 = m.reg 15 + 4 := by
  rcases hgoes.instruction with ⟨hop, hrd⟩ | htransfer
  · rw [execute_of_operation hop hexecute]
    exact reg_15_dataProcessing hrd _
  · obtain ⟨hpred, rfl⟩ := execute_of_transfer htransfer.transfer hexecute
    exact reg_15_transfer hpred

theorem mem_of_goesOn (hplace : Place size start n) (hgoes : GoesOn h be size start n w m)
    (hexecute : m.execute be w = some m') {j : Nat} (hj : j < 4 * n) :
    m'.mem (start + BitVec.ofNat 32 j) = m.mem (start + BitVec.ofNat 32 j) := by
  rcases hgoes.instruction with ⟨hop, -⟩ | htransfer
  · rw [execute_of_operation hop hexecute, mem_dataProcessing]
  · obtain ⟨hpred, rfl⟩ := execute_of_transfer htransfer.transfer hexecute
    refine mem_transfer_of_ne fun hstore k hk heq => ?_
    have hlow := hplace.low
    have hword := Machine.address_mod hpred
    have hlt := (m.address w).isLt
    -- neither of the two addresses wraps around
    have hnat := congrArg BitVec.toNat heq
    rw [BitVec.toNat_add, BitVec.toNat_add, BitVec.toNat_ofNat, BitVec.toNat_ofNat] at hnat
    rcases hgoes.apart htransfer.transfer hstore with hbefore | hbehind <;> omega

theorem HoldsText.kept {text : List Word} (htext : HoldsText be start text m)
    (hsame : ∀ j < 4 * text.length,
      m'.mem (start + BitVec.ofNat 32 j) = m.mem (start + BitVec.ofNat 32 j)) :
    HoldsText be start text m' := by
  intro k hk
  rw [← htext k hk, Machine.number, Machine.number, ByteStore.read, ByteStore.read]
  congr 1
  refine List.map_congr_left fun i hi => ?_
  have hi : i < 4 := List.mem_range.mp hi
  have hplace : start + BitVec.ofNat 32 (4 * k) + BitVec.ofNat 32 i =
      start + BitVec.ofNat 32 (4 * k + i) := by
    rw [BitVec.add_assoc, BitVec.ofNat_add]
  rw [hplace]
  exact hsame _ (by omega)

end

/-! ## Texts -/

section
variable {h : Host} {be : Bool} {size : Nat} {start : Word} {text code : List Word}
  {m m' : Machine} {p : ArmCoreData} {w : Word}

theorem Ahead.fetch (hahead : Ahead be size start text (w :: code) m p) : m.fetch be = w := by
  obtain ⟨before, rfl, hpc⟩ := hahead.code
  have hword := hahead.stored before.length (by simp)
  rw [List.getElem_append_right (Nat.le_refl _)] at hword
  simp only [Nat.sub_self, List.getElem_cons_zero] at hword
  rw [Machine.fetch, hpc, hword, BitVec.ofNat_toNat, BitVec.setWidth_eq]

theorem Ahead.supported (hplace : Place size start text.length)
    (hahead : Ahead be size start text (w :: code) m p)
    (hgoes : GoesOn h be size start text.length w m) : Supported h be size m := by
  have hfetch := hahead.fetch
  obtain ⟨before, htext, hpc⟩ := hahead.code
  have hlength : text.length = before.length + code.length + 1 := by
    rw [htext, List.length_append, List.length_cons, Nat.add_assoc]
  obtain ⟨haligned, hinside, hlow⟩ := hplace
  have hnat : (m.reg 15).toNat = start.toNat + 4 * before.length := by
    rw [hpc, BitVec.toNat_add, BitVec.toNat_ofNat]
    omega
  constructor
  · omega
  · omega
  · omega
  · exact hgoes.flags
  · rw [hfetch]
    exact hgoes.holds
  · rw [hfetch]
    exact hgoes.ls
  · rw [hfetch]
    exact hgoes.instruction.imp And.left Or.inl

theorem executes_text (hplace : Place size start text.length) :
    Program.Executes (stepped h) (command h be size start text.length)
      (fun p => (armStep h p).1 = 0) (Ahead be size start text) := by
  constructor
  · intro w code m m' p hahead hcommand
    rw [command] at hcommand
    split at hcommand
    · next hgoes =>
      have hsupported := hahead.supported hplace hgoes
      have hstep : m.step be = some m' := by
        rw [step_of_supported hsupported, hahead.fetch, hcommand]
      obtain ⟨before, htext, hpc⟩ := hahead.code
      refine ⟨simulates_step hahead.simulates hsupported hstep,
        hahead.stored.kept fun j hj => mem_of_goesOn hplace hgoes hcommand hj,
        before ++ [w], by rw [htext, List.append_assoc]; rfl, ?_⟩
      rw [reg_15_of_goesOn hgoes hcommand, hpc, List.length_append, List.length_singleton,
        Nat.mul_add, BitVec.ofNat_add, ← BitVec.add_assoc]
      rfl
    · cases hcommand
  · intro w code m m' p hahead hcommand
    rw [command] at hcommand
    split at hcommand
    · next hgoes =>
      exact armStep_result_of_passed
        (passed_of_supported hahead.simulates (hahead.supported hplace hgoes))
    · cases hcommand

end

/-- **Straight-line programs**: what is proved of the commands of a text holds of the simulator in
front of the text. After as many steps as the text has words it is behind the text, in a state with
the postcondition, and no step has raised an exception. -/
theorem straight_line (h : Host) (p : ArmCoreData) (start : Word) (text : List Word)
    (P Q : Machine → Prop) (hplace : Place p.mem.size start text.length)
    (htriple : Triple (command h p.mem.isBigEndian p.mem.size start text.length) P text Q)
    (htext : HoldsText p.mem.isBigEndian start text p.machine) (hpc : p.word 15 = start)
    (hP : P p.machine) :
    ∃ m, Q m ∧ Simulates p.mem.isBigEndian p.mem.size m ((stepped h)^[text.length] p) ∧
      m.reg 15 = start + BitVec.ofNat 32 (4 * text.length) ∧
      ∀ k < text.length, (armStep h ((stepped h)^[k] p)).1 = 0 := by
  have hahead : Ahead p.mem.isBigEndian p.mem.size start text text p.machine p := by
    refine ⟨simulates_machine p, htext, [], rfl, ?_⟩
    exact hpc.trans (BitVec.add_zero start).symm
  obtain ⟨m, hQ, hbehind, hresults⟩ := (executes_text hplace).triple htriple hahead hP
  obtain ⟨before, hbefore, hend⟩ := hbehind.code
  rw [List.append_nil] at hbefore
  rw [← hbefore] at hend
  exact ⟨m, hQ, hbehind.simulates, hend, hresults⟩

/-! ## A rule -/

/-- An arithmetical or logical instruction that is always executed and leaves the flags. -/
structure IsPlain (w : Word) : Prop where
  holds : (Arm.condition w).holds .clear = true
  ls : Arm.condition w ≠ .ls
  type : w.extractLsb' 26 2 = 0
  bits : ¬ (w.getLsbD 7 = true ∧ w.getLsbD 4 = true)
  alu : Arm.opcode w ∈ aluOpcodes
  rd : Arm.rd w ≠ 15
  flags : w.getLsbD 20 = false
  predictable : ¬ Machine.IsUnpredictable w ∧ ¬ Arm.IsMiscellaneous w

instance (w : Word) : Decidable (IsPlain w) :=
  decidable_of_iff (_ ∧ _ ∧ _ ∧ _ ∧ _ ∧ _ ∧ _ ∧ _)
    ⟨fun ⟨h1, h2, h3, h4, h5, h6, h7, h8⟩ => ⟨h1, h2, h3, h4, h5, h6, h7, h8⟩,
      fun hs => ⟨hs.1, hs.2, hs.3, hs.4, hs.5, hs.6, hs.7, hs.8⟩⟩

section
variable {h : Host} {be : Bool} {size : Nat} {start : Word} {n : Nat} {m : Machine} {w : Word}

theorem command_of_plain (hplain : IsPlain w) (hflags : m.flags = .clear)
    (hdelivered : Delivered h m w) :
    command h be size start n w m = some (m.skip.setReg (Arm.rd w)
      (((Arm.opcode w).operation false).result (m.read (Arm.rn w)) (m.operand w).1)) := by
  have hop : SupportedOperation h m w :=
    ⟨hplain.type, hplain.bits, Or.inr ⟨hplain.alu, hdelivered⟩⟩
  have hnot := not_transfer_of_operation hop
  have hbranch : ¬ Arm.IsBranch w := by
    rintro ⟨htype, -⟩
    rw [hplain.type] at htype
    exact absurd htype (by decide)
  have hgoes : GoesOn h be size start n w m :=
    ⟨hflags, hplain.holds, hplain.ls, Or.inl ⟨hop, hplain.rd⟩, fun htransfer => absurd htransfer hnot⟩
  rw [command, if_pos hgoes, Machine.execute, if_neg hnot, if_neg hbranch, if_pos hplain.type,
    Arm.classOf, if_neg fun hext : Arm.IsExtension w => hplain.bits hext.2.2,
    if_neg hplain.predictable.2]
  dsimp only
  rw [if_neg hplain.predictable.1, Machine.dataProcessing, hplain.flags, if_neg Bool.false_ne_true,
    isComparison_of_mem_aluOpcodes hplain.alu, if_neg Bool.false_ne_true, hflags]
  rfl

/-- `mov` of a number of 8 bits that is not rotated, on a host where the shift by 32 does not spoil
it. -/
theorem command_of_mov (hplain : IsPlain w) (hflags : m.flags = .clear) (hop : Arm.opcode w = .mov)
    (h25 : w.getLsbD 25 = true) (hrotation : rotationField w = 0)
    (hhost : u16 (immediateField w ||| h.shlOut (immediateField w) 32) = u16 (immediateField w)) :
    command h be size start n w m = some (m.skip.setReg (Arm.rd w) (immediateField w)) := by
  have hdelivered : Delivered h m w := by
    rw [Delivered, if_pos h25, if_pos hrotation]
    exact hhost
  have hoperand : (m.operand w).1 = immediateField w := by
    have hamount : 2 * (w.extractLsb' 8 4).toNat = 0 := by
      rw [← rotationField, hrotation]
    rw [Machine.operand, if_pos h25, hamount, Arm.Shift.byAmount_zero]
    rfl
  rw [command_of_plain hplain hflags hdelivered, hoperand, hop]
  rfl

end

/-! ## A program -/

/-- `exemple5.s` up to its `swi`: `mov r1, #0x1`, `adc r0, r0, r1` and `mov r1, #0x2`. -/
def exemple5 : List Word := [0xE3A01001, 0xE0A00001] ++ [0xE3A01002]

section
variable (be : Bool) (size : Nat) (start : Word) (n : Nat) (x : Word)

theorem triple_increment :
    Triple (command Host.x86 be size start n) (fun m => m.flags = .clear ∧ m.reg 0 = x)
      [0xE3A01001, 0xE0A00001] (fun m => m.flags = .clear ∧ m.reg 0 = x + 1) := by
  refine Triple.cons (R := fun m => m.flags = .clear ∧ m.reg 0 = x ∧ m.reg 1 = 1) ?_
    (Triple.cons ?_ Triple.nil)
  · rintro m ⟨hflags, hr0⟩
    refine ⟨_, command_of_mov (by decide) hflags (by decide) (by decide) (by decide) (by decide),
      hflags, ?_, ?_⟩
    · rw [reg_setReg, if_neg (by decide), Machine.skip, reg_setReg, if_neg (by decide), hr0]
    · rw [reg_setReg, if_pos (by decide)]
      decide
  · rintro m ⟨hflags, hr0, hr1⟩
    have hoperand : (m.operand 0xE0A00001).1 = 1 := hr1
    have hdelivered : Delivered Host.x86 m 0xE0A00001 := by
      have hrm : m.read (Arm.rm 0xE0A00001) = 1 := hr1
      rw [Delivered, if_neg (by decide), hrm]
      decide
    refine ⟨_, command_of_plain (by decide) hflags hdelivered, hflags, ?_⟩
    have hvalue : m.read (Arm.rn 0xE0A00001) = x := hr0
    have hopcode : Arm.opcode 0xE0A00001 = .adc := by decide
    rw [hoperand, hvalue, reg_setReg, if_pos (by decide), hopcode]
    -- the carry flag is clear
    change BitVec.ofInt 32 (x.toNat + (1 : Int) + 0) = x + 1
    apply BitVec.eq_of_toNat_eq
    have hone : (1 : Word).toNat = 1 := rfl
    rw [BitVec.toNat_ofInt, BitVec.toNat_add, hone]
    omega

theorem triple_exemple5 :
    Triple (command Host.x86 be size start n) (fun m => m.flags = .clear ∧ m.reg 0 = x) exemple5
      (fun m => m.reg 0 = x + 1 ∧ m.reg 1 = 2) := by
  refine (triple_increment be size start n x).append (Triple.cons ?_ Triple.nil)
  rintro m ⟨hflags, hr0⟩
  refine ⟨_, command_of_mov (by decide) hflags (by decide) (by decide) (by decide) (by decide),
    ?_, ?_⟩
  · rw [reg_setReg, if_neg (by decide), Machine.skip, reg_setReg, if_neg (by decide), hr0]
  · rw [reg_setReg, if_pos (by decide)]
    decide

end

/-- A core in front of the program. -/
def exemple5Core : ArmCoreData := coreOf 4 exemple5

theorem straight_line_exemple5 :
    ∃ m : Machine, m.reg 0 = 1 ∧ m.reg 1 = 2 ∧
      Simulates true 4 m ((stepped Host.x86)^[3] exemple5Core) := by
  obtain ⟨m, hQ, hsim, -⟩ := straight_line Host.x86 exemple5Core 0 exemple5
    (fun m => m.flags = .clear ∧ m.reg 0 = 0) (fun m => m.reg 0 = 0 + 1 ∧ m.reg 1 = 2)
    ⟨by decide, by decide, by decide⟩ (triple_exemple5 true 4 0 3 0) (by
      intro k hk
      have hk : k < 3 := hk
      interval_cases k <;> rfl) (by decide) ⟨rfl, by decide⟩
  exact ⟨m, hQ.1, hQ.2, hsim⟩

end Armator
