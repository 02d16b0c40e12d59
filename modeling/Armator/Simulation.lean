import Armator.Addressing
import Armator.Arithmetic
import Armator.Branches
import Armator.Condition
import Armator.Persistence
import Armator.Lib.Machine

/-!
# The simulator and the machine

A step of the simulator against a step of the ARM machine. Where the machine is in a state that the
simulator supports (`Supported`), the two steps do the same to the registers and the memory.
-/

namespace Armator

open Arm (Machine Flags Opcode Shift)
open Arm.Machine (reg_setReg)

/-! ## Registers and memory -/

theorem u8_inj {r r' : BitVec 4} : u8 r' = u8 r ↔ r' = r := by
  rw [← BitVec.toNat_inj, BitVec.toNat_setWidth_of_le (by decide),
    BitVec.toNat_setWidth_of_le (by decide), BitVec.toNat_inj]

theorem u8_eq_15 {r : BitVec 4} : u8 r = 15 ↔ r = 15 := @u8_inj 15 r

theorem u8_lt {r : BitVec 4} (hne : r ≠ 15) : (u8 r).toNat < 15 := by
  have hlt := r.isLt
  have hnat : r.toNat ≠ 15 := fun heq => hne (BitVec.eq_of_toNat_eq heq)
  rw [BitVec.toNat_setWidth_of_le (by decide)]
  omega

theorem rnField_eq (w : Word) : rnField w = u8 (Arm.rn w) := u8_nibble w 16

theorem rdField_eq (w : Word) : rdField w = u8 (Arm.rd w) := u8_nibble w 12

/-- The core holds the registers and the memory of the machine. -/
structure Simulates (be : Bool) (size : Nat) (a : Machine) (p : ArmCoreData) : Prop where
  word : ∀ r : BitVec 4, p.word (u8 r) = a.reg r
  mem : p.mem = { size := size, memo := a.mem, isBigEndian := be }

section
variable {h : Host} {be : Bool} {size : Nat} {a : Machine} {p : ArmCoreData}

theorem Simulates.write (hsim : Simulates be size a p) (r : BitVec 4) (x : Word) :
    Simulates be size (a.setReg r x) (armWriteUsrRegister p (u8 r) x) := by
  constructor
  · intro r'
    rw [word_armWriteUsrRegister, reg_setReg, hsim.word r']
    simp only [u8_inj]
  · exact hsim.mem

variable (hsim : Simulates be size a p) (haligned : (a.reg 15).toNat % 4 = 0)
include hsim haligned

theorem Simulates.fetchAddress : fetchAddress p = a.reg 15 := by
  have hpc : armWriteUsrRegister p 15 (a.reg 15) = p := by
    rw [← hsim.word 15]
    exact armWriteUsrRegister_word p 15
  rw [← hpc]
  exact fetchAddress_armWriteUsrRegister p haligned

theorem Simulates.fetched : Simulates be size a.skip (fetchedCore h p) := by
  constructor
  · intro r
    rw [fetchedCore, word_armFetch, hsim.fetchAddress haligned, Machine.skip, reg_setReg, hsim.word r]
    exact if_congr u8_eq_15 rfl rfl
  · exact hsim.mem

theorem Simulates.read (r : BitVec 4) :
    armReadUsrRegister (fetchedCore h p) (u8 r) = a.read r := by
  have haddress := hsim.fetchAddress haligned
  by_cases h15 : r = 15
  · have hread := @armReadUsrRegister_fetchedCore_15 h p (by rw [haddress]; exact haligned)
    rw [haddress] at hread
    rw [h15]
    exact hread
  · rw [armReadUsrRegister_of_lt _ (u8_lt h15), (hsim.fetched haligned).word,
      Arm.Machine.read_of_ne a h15, Machine.skip, reg_setReg, if_neg h15]

theorem Simulates.fetch (hinside : (a.reg 15).toNat + 4 ≤ 4 * size) :
    ¬ FetchFails h p ∧ Armator.fetchedWord h p = a.fetch be := by
  have haddress := hsim.fetchAddress haligned
  have hmemory : p.mem.size = size := congrArg MemoryData.size hsim.mem
  obtain ⟨hreadable, hword⟩ := @fetch_inside h p (by rwa [haddress]) (by rwa [haddress, hmemory])
  rw [haddress, hsim.mem, ByteStore.span, List.map_map] at hword
  have hlt : a.number be (a.reg 15) 4 < 2 ^ 32 := a.number_lt be _ 4
  refine ⟨hreadable, BitVec.eq_of_toNat_eq ?_⟩
  rw [Machine.fetch, BitVec.toNat_ofNat, Nat.mod_eq_of_lt hlt]
  exact hword

theorem Simulates.readable (hinside : (a.reg 15).toNat + 4 ≤ 4 * size) : ¬ FetchFails h p :=
  (hsim.fetch haligned hinside).1

theorem Simulates.fetchedWord (hinside : (a.reg 15).toNat + 4 ≤ 4 * size) :
    fetchedWord h p = a.fetch be :=
  (hsim.fetch haligned hinside).2

end

/-! ## Second operands -/

section
variable (w : Word)

theorem getLsbD_operand {j : Nat} (hj : j < 12) : (u16 (w &&& 4095)).getLsbD j = w.getLsbD j := by
  have hmask : ∀ j < 12, (4095 : Word).getLsbD j = true := by decide
  rw [BitVec.getLsbD_setWidth, BitVec.getLsbD_and, hmask j hj, decide_eq_true (by omega),
    Bool.true_and, Bool.and_true]

theorem field_operand {i n : Nat} (hin : i + n ≤ 12) :
    (u16 (w &&& 4095)).extractLsb' i n = w.extractLsb' i n := by
  apply BitVec.eq_of_getLsbD_eq
  intro j hj
  rw [BitVec.getLsbD_extractLsb', BitVec.getLsbD_extractLsb', getLsbD_operand w (by omega)]

theorem shiftField_operand : shiftField (u16 (w &&& 4095)) = Arm.shift w :=
  congrArg Shift.ofBits (field_operand w (by decide))

theorem amountField_operand : amountField (u16 (w &&& 4095)) = Arm.amount w :=
  congrArg BitVec.toNat (field_operand w (by decide))

end

theorem delivers_byImmediate {c : Bool} {x : Word} {n : Nat} {s : Shift} (hlt : n < 32)
    (hror : s = .ror → n ≠ 0) (hlost : ∀ j < 32, LostByImmediate n j s → x.getLsbD j = false) :
    Delivers (narrow (s.byImmediate c (low x) n)) (s.byImmediate c x n) := by
  have hne : (if n = 0 then 32 else n) ≠ 0 := by split <;> omega
  have hle : (if n = 0 then 32 else n) ≤ 32 := by split <;> omega
  cases s with
  | lsl => exact (lsl_right_iff hlt).mpr hlost
  | lsr => exact (lsr_right_iff hne hle).mpr fun j hj h8 hin => hlost j hj ⟨h8, hin⟩
  | asr => exact (asr_right_iff hne hle).mpr fun j hj h8 hin => hlost j hj ⟨h8, hin⟩
  | ror =>
    simp only [Shift.byImmediate, if_neg (hror rfl)]
    exact (ror_right_iff (hror rfl) hlt).mpr hlost

/-- The second operand is not cut off: an immediate fits in 16 bits, and a register has no set bit
that its shift loses. -/
def Delivered (h : Host) (a : Machine) (w : Word) : Prop :=
  if w.getLsbD 25 then
    if rotationField w = 0 then
      u16 (immediateField w ||| h.shlOut (immediateField w) 32) = u16 (immediateField w)
    else (a.operand w).1.toNat < 2 ^ 16
  else
    w.getLsbD 4 = false ∧ ¬ (Arm.shift w = .ror ∧ Arm.amount w = 0) ∧
      ∀ j < 32, LostByImmediate (Arm.amount w) j (Arm.shift w) →
        (a.read (Arm.rm w)).getLsbD j = false

section
variable {h : Host} {be : Bool} {size : Nat} {a : Machine} {p : ArmCoreData} {w : Word}

theorem operand_immediate (h25 : w.getLsbD 25 = true) (hdelivered : Delivered h a w) (flagC : Byte) :
    u32 (shifterOf h p w flagC).2 = (a.operand w).1 := by
  have hlt := rotationField_lt w
  have himm := immediateField_lt w
  have hoperand : a.operand w =
      Shift.ror.byAmount a.flags.c (immediateField w) (2 * rotationField w) := if_pos h25
  rw [Delivered, if_pos h25] at hdelivered
  rw [shifterOf_immediate w h p flagC h25]
  by_cases hzero : rotationField w = 0
  · rw [if_pos hzero] at hdelivered
    rw [hoperand, hzero, Shift.byAmount_zero]
    show u32 (u16 (ror h (immediateField w) 0)) = immediateField w
    rw [ror_zero, hdelivered]
    exact (u32_u16_eq_iff _).mpr (by omega)
  · rw [if_neg hzero, hoperand, Shift.byAmount_ror (by omega)] at hdelivered
    have hcount : (BitVec.ofNat 8 (2 * rotationField w)).toNat = 2 * rotationField w :=
      Nat.mod_eq_of_lt (by omega)
    rw [hoperand, Shift.byAmount_ror (by omega), ror_eq h _ (by omega) (by omega), hcount]
    exact (u32_u16_eq_iff _).mpr hdelivered

theorem operand_register (h25 : w.getLsbD 25 = false) (hdelivered : Delivered h a w) {c : Bool}
    (hrm : armReadUsrRegister p (u8 (Arm.rm w)) = a.read (Arm.rm w)) (hcarry : a.flags.c = c) :
    u32 (shifterOf h p w (ofBool c)).2 = (a.operand w).1 := by
  rw [Delivered, h25, if_neg Bool.false_ne_true] at hdelivered
  obtain ⟨h4, hrrx, hlost⟩ := hdelivered
  have hrm' : rmValue p (u16 (w &&& 4095)) = a.read (Arm.rm w) := by
    rw [rmValue, field_operand w (by decide)]
    exact hrm
  have hror : shiftField (u16 (w &&& 4095)) = .ror → amountField (u16 (w &&& 4095)) ≠ 0 := by
    rw [shiftField_operand, amountField_operand]
    exact fun hs hn => hrrx ⟨hs, hn⟩
  have hshifter : shifterOf h p w (ofBool c) =
      narrow ((Arm.shift w).byImmediate c (low (a.read (Arm.rm w))) (Arm.amount w)) := by
    rw [shifterOf, u8_bit, h25]
    show updateShifterOperand h p _ (u16 (w &&& 4095)) 0 (ofBool c) = _
    rw [updateShifterOperand_immediate _ h p _ _ ((getLsbD_operand w (by decide)).trans h4),
      shiftByImmediate_eq h p _ c hror, shiftField_operand, amountField_operand, hrm']
  have hoperand : a.operand w =
      (Arm.shift w).byImmediate c (a.read (Arm.rm w)) (Arm.amount w) := by
    rw [Machine.operand, h25, h4, hcarry]
    rfl
  rw [hshifter, hoperand]
  exact (delivers_byImmediate (w.extractLsb' 7 5).isLt (fun hs hn => hrrx ⟨hs, hn⟩) hlost).1

end

/-! ## Instructions -/

section
variable (h : Host) (be : Bool) (size : Nat) (a : Machine) (w : Word)

/-- A data-processing instruction that is not taken for a halfword transfer, and does not subtract
with carry. -/
structure SupportedOperation : Prop where
  type : w.extractLsb' 26 2 = 0
  bits : ¬ (w.getLsbD 7 = true ∧ w.getLsbD 4 = true)
  operation : (Arm.opcode w).isComparison = true ∨ Arm.opcode w ∈ aluOpcodes ∧ Delivered h a w

/-- A load or store whose offset and base are treated as the architecture does, inside the memory.
-/
structure SupportedTransfer : Prop where
  transfer : Arm.IsTransfer w
  scale : w.extractLsb' 26 2 = 1 → w.getLsbD 25 = true → Arm.amount w = 0 → Arm.shift w = .lsl
  indexed : w.getLsbD 24 = true ∨ a.offset w = 0
  base : (WritesBase w ↔ Arm.WritesBack w) ∨ a.offset w = 0 ∧ Arm.rn w ≠ 15
  loaded : w.getLsbD 20 = true → WritesBase w → Arm.rn w ≠ Arm.rd w
  inside : (a.address w).toNat + Arm.width w ≤ 4 * size
  kept : h.bigEndian = false ∨ be = true ∨ Arm.width w = 4

/-- A branch that does not link. -/
structure SupportedBranch : Prop where
  branch : Arm.IsBranch w
  link : w.getLsbD 24 = false

/-- A state in which the simulator does what the machine does. -/
structure Supported : Prop where
  aligned : (a.reg 15).toNat % 4 = 0
  inside : (a.reg 15).toNat + 4 ≤ 4 * size
  low : (a.reg 15).toNat + 4 < 2 ^ 28
  flags : a.flags = .clear
  holds : (Arm.condition (a.fetch be)).holds .clear = true
  ls : Arm.condition (a.fetch be) ≠ .ls
  instruction : SupportedOperation h a (a.fetch be) ∨ SupportedTransfer h be size a (a.fetch be) ∨
    SupportedBranch (a.fetch be)

instance : Decidable (Delivered h a w) := by
  unfold Delivered
  infer_instance

instance : Decidable (SupportedOperation h a w) :=
  decidable_of_iff (_ ∧ _ ∧ _) ⟨fun ⟨h1, h2, h3⟩ => ⟨h1, h2, h3⟩, fun hs => ⟨hs.1, hs.2, hs.3⟩⟩

instance : Decidable (SupportedTransfer h be size a w) :=
  decidable_of_iff (_ ∧ _ ∧ _ ∧ _ ∧ _ ∧ _ ∧ _)
    ⟨fun ⟨h1, h2, h3, h4, h5, h6, h7⟩ => ⟨h1, h2, h3, h4, h5, h6, h7⟩,
      fun hs => ⟨hs.1, hs.2, hs.3, hs.4, hs.5, hs.6, hs.7⟩⟩

instance : Decidable (SupportedBranch w) :=
  decidable_of_iff (_ ∧ _) ⟨fun ⟨h1, h2⟩ => ⟨h1, h2⟩, fun hs => ⟨hs.1, hs.2⟩⟩

instance : Decidable (Supported h be size a) :=
  decidable_of_iff (_ ∧ _ ∧ _ ∧ _ ∧ _ ∧ _ ∧ _)
    ⟨fun ⟨h1, h2, h3, h4, h5, h6, h7⟩ => ⟨h1, h2, h3, h4, h5, h6, h7⟩,
      fun hs => ⟨hs.1, hs.2, hs.3, hs.4, hs.5, hs.6, hs.7⟩⟩

end

section
variable {h : Host} {be : Bool} {size : Nat} {a : Machine} {p : ArmCoreData} {w : Word}

/-- The flags that the simulator finds in a low program counter. -/
theorem ofStatus_of_low {x : Word} (hlow : x.toNat + 4 < 2 ^ 28) :
    Flags.ofStatus (x + 4) = .clear := by
  apply Flags.ofStatus_eq_clear
  rw [BitVec.toNat_add]
  exact lt_of_le_of_lt (Nat.mod_le _ _) hlow

theorem carry_of_low {x : Word} (hlow : x.toNat + 4 < 2 ^ 28) : (x + 4).getLsbD 29 = false :=
  congrArg Flags.c (ofStatus_of_low hlow)

theorem Simulates.setFlags (hsim : Simulates be size a p) (flags : Flags) :
    Simulates be size { a with flags := flags } p := ⟨hsim.word, hsim.mem⟩

variable (hsim : Simulates be size a p) (haligned : (a.reg 15).toNat % 4 = 0)
  (hword : Armator.fetchedWord h p = w) (hpass : Passed h p)
include hsim haligned hword hpass

theorem simulates_operation (hop : SupportedOperation h a w) (hflags : a.flags = .clear)
    (hlow : (a.reg 15).toNat + 4 < 2 ^ 28) :
    Simulates be size (a.dataProcessing w (Arm.opcode w)) (stepped h p) := by
  have hfetched := @Simulates.fetched h be size a p hsim haligned
  have hcpsr : armReadCpsr (fetchedCore h p) = a.reg 15 + 4 := by
    rw [armReadCpsr_fetchedCore, hsim.fetchAddress haligned]
  have hstep : stepped h p = (traitementAR h (fetchedCore h p) w (ofBool false)).2 := by
    have hcarry : flagOf (a.reg 15 + 4) bitC = ofBool false := by
      rw [flagOf_eq]
      exact congrArg ofBool (carry_of_low hlow)
    rw [stepped, armStep_of_passed hpass, selectExecuteInstruction, selectInstruction_eq, hword,
      hop.type, hcpsr, hcarry]
    exact congrArg Prod.snd (if_neg hop.bits)
  have hdest : Simulates be size (if (Arm.opcode w).isComparison then a.skip else
      a.skip.setReg (Arm.rd w) (((Arm.opcode w).operation a.flags.c).result (a.read (Arm.rn w))
        (a.operand w).1)) (stepped h p) := by
    rw [hstep, traitementAR_eq, instr_eq]
    rcases hop.operation with hcomp | ⟨halu, hdelivered⟩
    · rw [if_pos hcomp, if_pos hcomp]
      exact hfetched
    · have hcomp : ¬ (Arm.opcode w).isComparison = true := by
        rw [isComparison_of_mem_aluOpcodes halu]
        exact Bool.false_ne_true
      have hoperand : u32 (shifterOf h (fetchedCore h p) w (ofBool false)).2 = (a.operand w).1 := by
        cases h25 : w.getLsbD 25 with
        | true => exact operand_immediate h25 hdelivered _
        | false => exact operand_register h25 hdelivered (hsim.read haligned _) (congrArg Flags.c hflags)
      have hcarry : a.flags.c = false := congrArg Flags.c hflags
      rw [if_neg hcomp, if_neg hcomp, instrValue_alu _ _ _ _ halu, hoperand, rnField_eq,
        hsim.read haligned, rdField_eq, hcarry]
      exact hfetched.write _ _
  unfold Machine.dataProcessing
  dsimp only
  split
  · exact hdest.setFlags _
  · exact hdest

omit hword hpass in
theorem sourceOffset_fetched (hflags : a.flags = .clear) (hlow : (a.reg 15).toNat + 4 < 2 ^ 28)
    (hscale : w.extractLsb' 26 2 = 1 → w.getLsbD 25 = true → Arm.amount w = 0 → Arm.shift w = .lsl) :
    sourceOffset h (fetchedCore h p) w = a.offset w := by
  have hcarry : (armReadCpsr (fetchedCore h p)).getLsbD 29 = a.flags.c := by
    rw [armReadCpsr_fetchedCore, hsim.fetchAddress haligned, hflags]
    exact carry_of_low hlow
  have hrm := @Simulates.read h be size a p hsim haligned (Arm.rm w)
  have hright : RightOffset h (fetchedCore h p) w := by
    intro htype hreg
    by_cases hn : offsetAmount w = 0
    · rw [show offsetShift w = .lsl from hscale htype hreg hn]
      trivial
    · exact rightScale_of_ne_zero hn _
  rw [sourceOffset_eq_iff.mpr hright, offset, Machine.offset, halfOffset, offsetRegister]
  change armReadUsrRegister (fetchedCore h p) (u8 (w.extractLsb' 0 4)) = _ at hrm
  rw [hrm, hcarry]
  rfl

omit hword hpass in
theorem address_fetched (htransfer : SupportedTransfer h be size a w) (hflags : a.flags = .clear)
    (hlow : (a.reg 15).toNat + 4 < 2 ^ 28) :
    (transferCall h (fetchedCore h p) w).address = a.address w := by
  rw [Arm.Machine.address_eq_target htransfer.indexed, address_transferCall, rnField_eq,
    hsim.read haligned, sourceOffset_fetched hsim haligned hflags hlow htransfer.scale]
  rfl

theorem simulates_transfer (htransfer : SupportedTransfer h be size a w)
    (hpred : a.IsPredictable w) (hflags : a.flags = .clear)
    (hlow : (a.reg 15).toNat + 4 < 2 ^ 28) :
    Simulates be size (a.transfer be w) (stepped h p) := by
  have hfetched := @Simulates.fetched h be size a p hsim haligned
  have hread := @Simulates.read h be size a p hsim haligned
  have htarget := Arm.Machine.address_eq_target htransfer.indexed
  have haddress := address_fetched (h := h) hsim haligned htransfer hflags hlow
  have hsize : (fetchedCore h p).mem.size = size := congrArg MemoryData.size hfetched.mem
  have hbe : (fetchedCore h p).mem.isBigEndian = be := congrArg MemoryData.isBigEndian hfetched.mem
  have hin : (transferCall h (fetchedCore h p) w).Inside (fetchedCore h p).mem.size := by
    rw [hsize]
    exact inside_transferCall haddress htransfer.inside (Arm.Machine.address_mod hpred)
  have hkept : (transferCall h (fetchedCore h p) w).Kept h (fetchedCore h p).mem.isBigEndian := by
    rw [hbe, Call.Kept, width_transferCall]
    exact htransfer.kept
  have haccessed : Simulates be size (a.accessed be w) (accessed h (fetchedCore h p) w) := by
    rw [Machine.accessed, accessed]
    split
    · next hload =>
      have hrd : (rdField w).toNat < 15 := by
        rw [rdField_eq]
        exact u8_lt hpred.1
      have hvalue : loadedWord h (fetchedCore h p) w = a.loaded be w := by
        apply BitVec.eq_of_toNat_eq
        rw [(toNat_loadedWord_iff haddress hin hload hrd).mpr (.inl hkept),
          Arm.Machine.toNat_loaded, numberAt, hfetched.mem]
        rfl
      rw [hvalue, rdField_eq]
      exact hfetched.write _ _
    · next hstore =>
      have hstore := Bool.eq_false_iff.mpr hstore
      have hnumber := @number_transferCall h (fetchedCore h p) w hstore
      rw [rdField_eq, hread] at hnumber
      have hwrites := @ByteStore.writes_congr _ be (transferCall h (fetchedCore h p) w).place _ _ _
        hnumber
      refine ⟨hfetched.word, ?_⟩
      show ((transferCall h (fetchedCore h p) w).perform h (fetchedCore h p).mem).2 = _
      rw [Call.perform_write h (output_transferCall_of_store hstore) hin.accepted, if_pos hkept,
        width_transferCall, hbe, hwrites, place_of_address haddress, hfetched.mem]
      rfl
  have hbase := haccessed.write (Arm.rn w) (a.target w)
  -- where only one of the two writes the base, it writes what is there
  have hsame : (WritesBase w ∨ Arm.WritesBack w) → ¬ (WritesBase w ↔ Arm.WritesBack w) →
      (a.accessed be w).setReg (Arm.rn w) (a.target w) = a.accessed be w := by
    intro hwrites hdiffer
    obtain ⟨hzero, hrn⟩ := htransfer.base.resolve_left hdiffer
    refine Arm.Machine.setReg_target hzero hrn fun hload => ?_
    exact hwrites.elim (htransfer.loaded hload) fun hback => (hpred.2.1 hback).2
  have hls : IsLoadStore w :=
    htransfer.transfer.imp And.left fun hhalf => ⟨hhalf.1.1, hhalf.1.2.2⟩
  subst hword
  rw [stepped_of_loadStore hpass hls, transfer_eq, rnField_eq, haddress, htarget, Machine.transfer]
  by_cases hwrites : WritesBase (fetchedWord h p)
  · rw [if_pos hwrites]
    by_cases hback : Arm.WritesBack (fetchedWord h p)
    · rw [if_pos hback]
      exact hbase
    · rw [if_neg hback, ← hsame (.inl hwrites) fun hiff => hback (hiff.mp hwrites)]
      exact hbase
  · rw [if_neg hwrites]
    by_cases hback : Arm.WritesBack (fetchedWord h p)
    · rw [if_pos hback, hsame (.inr hback) fun hiff => hwrites (hiff.mpr hback)]
      exact haccessed
    · rw [if_neg hback]
      exact haccessed

theorem simulates_branch (hbranch : SupportedBranch w) :
    Simulates be size (a.branch w) (stepped h p) := by
  have hfetched := @Simulates.fetched h be size a p hsim haligned
  have htarget : armReadUsrRegister (fetchedCore h p) 15 + branchOffset w =
      Arm.branchTarget (a.reg 15) (w.extractLsb' 0 24) := by
    rw [branchOffset_eq]
    exact congrArg (· + _) (hsim.read haligned 15)
  have hlink : ¬ w.getLsbD 24 = true := by
    rw [hbranch.link]
    exact Bool.false_ne_true
  subst hword
  rw [stepped_of_branch hbranch.branch hpass, bBlInstr_snd, if_neg hlink, htarget, Machine.branch,
    if_neg hlink]
  exact hfetched.write 15 _

end

/-! ## Steps and runs -/

section
variable {h : Host} {be : Bool} {size : Nat} {a a' : Machine} {p : ArmCoreData} {w : Word}

theorem not_transfer_of_operation (hop : SupportedOperation h a w) : ¬ Arm.IsTransfer w := by
  rintro (⟨htype, -⟩ | hhalf)
  · rw [hop.type] at htype
    exact absurd htype (by decide)
  · exact hop.bits hhalf.1.2.2

theorem not_transfer_of_branch (hbranch : Arm.IsBranch w) : ¬ Arm.IsTransfer w := by
  rintro (⟨htype, -⟩ | hhalf)
  · rw [hbranch.1] at htype
    exact absurd htype (by decide)
  · have htype := hhalf.1.1
    rw [hbranch.1] at htype
    exact absurd htype (by decide)

theorem execute_of_operation (hop : SupportedOperation h a w) (hexecute : a.execute be w = some a') :
    a' = a.dataProcessing w (Arm.opcode w) := by
  have hbranch : ¬ Arm.IsBranch w := by
    rintro ⟨htype, -⟩
    rw [hop.type] at htype
    exact absurd htype (by decide)
  rw [Machine.execute, if_neg (not_transfer_of_operation hop), if_neg hbranch, if_pos hop.type,
    Arm.classOf, if_neg fun hext : Arm.IsExtension w => hop.bits hext.2.2] at hexecute
  by_cases hmisc : Arm.IsMiscellaneous w
  · rw [if_pos hmisc] at hexecute
    cases hexecute
  · rw [if_neg hmisc] at hexecute
    dsimp only at hexecute
    split at hexecute
    · cases hexecute
    · cases hexecute
      rfl

theorem execute_of_transfer (htransfer : Arm.IsTransfer w) (hexecute : a.execute be w = some a') :
    a.IsPredictable w ∧ a' = a.transfer be w := by
  rw [Machine.execute, if_pos htransfer] at hexecute
  split at hexecute
  · next hpred =>
    cases hexecute
    exact ⟨hpred, rfl⟩
  · cases hexecute

theorem execute_of_branch (hbranch : Arm.IsBranch w) (hexecute : a.execute be w = some a') :
    a' = a.branch w := by
  rw [Machine.execute, if_neg (not_transfer_of_branch hbranch), if_pos hbranch] at hexecute
  cases hexecute
  rfl

theorem step_of_supported (hsupported : Supported h be size a) :
    a.step be = a.execute be (a.fetch be) := by
  have hnv : Arm.condition (a.fetch be) ≠ .nv := by
    intro hnv
    have hholds := hsupported.holds
    rw [hnv] at hholds
    exact Bool.noConfusion hholds
  rw [Machine.step, if_neg (not_or.mpr ⟨not_not_intro hsupported.aligned, hnv⟩), hsupported.flags,
    if_pos hsupported.holds]

variable (hsim : Simulates be size a p) (hsupported : Supported h be size a)
include hsim hsupported

theorem passed_of_supported : Passed h p := by
  rw [passed_iff, Holds, hsim.fetchedWord hsupported.aligned hsupported.inside,
    hsim.fetchAddress hsupported.aligned, ofStatus_of_low hsupported.low]
  exact ⟨hsupported.holds, fun hls => absurd hls hsupported.ls⟩

/-- A step of the simulator is one of the machine. -/
theorem simulates_step (hstep : a.step be = some a') : Simulates be size a' (stepped h p) := by
  have hpass := passed_of_supported hsim hsupported
  have hword := @Simulates.fetchedWord h be size a p hsim hsupported.aligned hsupported.inside
  rw [step_of_supported hsupported] at hstep
  rcases hsupported.instruction with hop | htransfer | hbranch
  · rw [execute_of_operation hop hstep]
    exact simulates_operation hsim hsupported.aligned hword hpass hop hsupported.flags hsupported.low
  · obtain ⟨hpred, rfl⟩ := execute_of_transfer htransfer.transfer hstep
    exact simulates_transfer hsim hsupported.aligned hword hpass htransfer hpred hsupported.flags
      hsupported.low
  · rw [execute_of_branch hbranch.branch hstep]
    exact simulates_branch hsim hsupported.aligned hword hpass hbranch

end

theorem simulates_run {h : Host} {be : Bool} {size n : Nat} {a a' : Machine} {p : ArmCoreData}
    (hsim : Simulates be size a p) (hrun : a.run be n = some a')
    (hsupported : ∀ k < n, ∀ c ∈ a.run be k, Supported h be size c) :
    Simulates be size a' ((stepped h)^[n] p) := by
  induction n generalizing a p with
  | zero =>
    cases hrun
    exact hsim
  | succ n ih =>
    obtain ⟨a1, hstep, hrun⟩ := Option.bind_eq_some_iff.mp hrun
    have hfirst := hsupported 0 (Nat.succ_pos n) a rfl
    refine ih (simulates_step hsim hfirst hstep) hrun fun k hk c hc => ?_
    refine hsupported (k + 1) (Nat.succ_lt_succ hk) c ?_
    rw [Machine.run, hstep]
    exact hc

theorem simulates_runs {h : Host} {be : Bool} {size n : Nat} {a : Machine} {p : ArmCoreData}
    (hsim : Simulates be size a p)
    (hsupported : ∀ k < n, ∀ c ∈ a.run be k, Supported h be size c) :
    ∀ k ≤ n, ∀ c ∈ a.run be k, Simulates be size c ((stepped h)^[k] p) := fun _ hk _ hc =>
  simulates_run hsim hc fun j hj => hsupported j (Nat.lt_of_lt_of_le hj hk)

/-- The machine a core stands for, with clear flags. -/
def ArmCoreData.machine (p : ArmCoreData) : Machine where
  reg r := p.word (u8 r)
  flags := .clear
  mem := p.mem.memo

theorem simulates_machine (p : ArmCoreData) :
    Simulates p.mem.isBigEndian p.mem.size p.machine p := ⟨fun _ => rfl, rfl⟩

/-- **The simulator runs programs of the machine**: while the machine is in states that the simulator
supports, `n` steps of the simulator leave the registers and the memory that `n` steps of the machine
leave, and raise no exception. -/
theorem simulation (h : Host) (p : ArmCoreData) (n : Nat) (a : Machine)
    (hrun : p.machine.run p.mem.isBigEndian n = some a)
    (hsupported : ∀ k < n, ∀ c ∈ p.machine.run p.mem.isBigEndian k,
      Supported h p.mem.isBigEndian p.mem.size c) :
    Simulates p.mem.isBigEndian p.mem.size a ((stepped h)^[n] p) ∧
    ∀ k < n, (armStep h ((stepped h)^[k] p)).1 = 0 := by
  have hruns := simulates_runs (simulates_machine p) hsupported
  refine ⟨hruns n (Nat.le_refl n) a hrun, fun k hk => ?_⟩
  obtain ⟨c, hc⟩ := Arm.Machine.exists_run hrun (Nat.le_of_lt hk)
  have hsim := hruns k (Nat.le_of_lt hk) c hc
  exact armStep_result_of_passed (passed_of_supported hsim (hsupported k hk c hc))

/-- `MOV r0, #5` and `STR r0, [r1, #8]`. -/
def storingCore : ArmCoreData := coreOf 3 [0xE3A00005, 0xE5810008]

theorem simulation_store :
    ∃ a, storingCore.machine.run true 2 = some a ∧
      Simulates true 3 a ((stepped Host.x86)^[2] storingCore) := by
  obtain ⟨a, hrun⟩ : ∃ a, storingCore.machine.run true 2 = some a :=
    Option.isSome_iff_exists.mp (by decide)
  exact ⟨a, hrun, (simulation Host.x86 storingCore 2 a hrun (by decide)).1⟩

end Armator
