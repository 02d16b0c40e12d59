import Armator.Condition
import Armator.Persistence
import Armator.ShiftCounts

/-!
# Hosts

A program can behave in one way on one host and in another way on the next: C leaves open what a
shift by a count out of range is and what an unwritten variable holds, and the byte order decides what
is left of a byte of a little-endian memory. A step in which none of these comes up (`Portable`) is
the same on both hosts, and so is a run of such steps (`same_on_hosts`).
-/

namespace Armator

open Arm (Shift)

/-! ## Shifts -/

section
variable (h h' : Host)

theorem asr_host {x : Word} {n : Byte} (hlt : n.toNat < 32) (hpos : n.toNat = 0 → x.msb = false) :
    asr h' x n = asr h x n := by
  by_cases hn : n.toNat = 0
  · have hzero : n = 0 := BitVec.eq_of_toNat_eq hn
    rw [hzero, asr_zero, asr_zero, hpos hn]
    rfl
  · rw [asr_eq h' x hn hlt, asr_eq h x hn hlt]

theorem ror_host (x : Word) {n : Byte} (hlt : n.toNat < 32) (hn : n.toNat ≠ 0) :
    ror h' x n = ror h x n := by
  rw [ror_eq h' x hn hlt, ror_eq h x hn hlt]

variable (p : ArmCoreData) (mot : Word) (c : Bool)

/-- Only the carry-out of `RRX` comes from the host. -/
theorem shiftByImmediate_host (op : Half) :
    (shiftByImmediate h' p op (ofBool c)).2 = (shiftByImmediate h p op (ofBool c)).2 := by
  by_cases hrrx : shiftField op = .ror ∧ amountField op = 0
  · rw [shiftByImmediate_rrx h' p op _ hrrx.1 hrrx.2, shiftByImmediate_rrx h p op _ hrrx.1 hrrx.2]
  · have hror : shiftField op = .ror → amountField op ≠ 0 := fun hs hn => hrrx ⟨hs, hn⟩
    rw [shiftByImmediate_eq h' p op c hror, shiftByImmediate_eq h p op c hror]

theorem shifterOf_host (hcount : mot.getLsbD 25 = true → rotationField mot ≠ 0) :
    (shifterOf h' p mot (ofBool c)).2 = (shifterOf h p mot (ofBool c)).2 := by
  cases h25 : mot.getLsbD 25 with
  | true =>
    have hlt := rotationField_lt mot
    have hne := hcount h25
    have hamount : (BitVec.ofNat 8 (2 * rotationField mot)).toNat = 2 * rotationField mot :=
      Nat.mod_eq_of_lt (by omega)
    rw [shifterOf_immediate mot h' p _ h25, shifterOf_immediate mot h p _ h25]
    exact congrArg u16 (ror_host h h' _ (by omega) (by omega))
  | false =>
    have hzero : u8 ((mot >>> 25) &&& 1) = 0 := (u8_bit_eq_zero mot 25).mpr h25
    rw [shifterOf, shifterOf, hzero]
    cases h4 : (u16 (mot &&& 4095)).getLsbD 4 with
    | true =>
      have hrd : (u8 ((mot >>> 12) &&& 15)).toNat < 16 := by
        rw [u8_nibble, BitVec.toNat_setWidth_of_le (by decide)]
        exact (mot.extractLsb' 12 4).isLt
      rw [updateShifterOperand_register _ h' p _ _ h4, updateShifterOperand_register _ h p _ _ h4,
        shiftByRegister_eq h' p _ _ c hrd, shiftByRegister_eq h p _ _ c hrd]
    | false =>
      rw [updateShifterOperand_immediate _ h' p _ _ h4, updateShifterOperand_immediate _ h p _ _ h4]
      exact shiftByImmediate_host h h' p c _

theorem traitementAR_host (hcount : mot.getLsbD 25 = true → rotationField mot ≠ 0) :
    (traitementAR h' p mot (ofBool c)).2 = (traitementAR h p mot (ofBool c)).2 := by
  rw [traitementAR_eq, traitementAR_eq, instr_eq, instr_eq, shifterOf_host h h' p mot c hcount]

theorem sourceOffset_host
    (hcount : mot.extractLsb' 26 2 = 1 → mot.getLsbD 25 = true → offsetAmount mot = 0 →
      DefinedAtZero (offsetRegister p mot) (offsetShift mot)) :
    sourceOffset h' p mot = sourceOffset h p mot := by
  have hlt := offsetAmount_lt mot
  have hamount := toNat_u8_offsetAmount mot
  rw [sourceOffset, sourceOffset]
  split
  · next hclass =>
    split
    · next hreg =>
      have hzero := hcount hclass hreg
      rw [loadStoreOffsetReg_eq, loadStoreOffsetReg_eq]
      cases hshift : offsetShift mot with
      | lsl => rfl
      | lsr => rfl
      | asr =>
        rw [hshift] at hzero
        exact asr_host h h' (by omega) fun hn => hzero (hamount.symm.trans hn)
      | ror =>
        rw [hshift] at hzero
        exact ror_host h h' _ (by omega) fun hn => hzero (hamount.symm.trans hn)
    · rfl
  · rfl

end

/-! ## Accesses -/

section
variable {h h' : Host} {mem : MemoryData} {c c' : Call}

theorem output_perform_host (haddress : c'.address = c.address) (hwidth : c'.width = c.width)
    (hc : c.output ≠ none) (hc' : c'.output ≠ none) (hacc : c.Accepted mem.size)
    (hkept : c.Kept h mem.isBigEndian ↔ c.Kept h' mem.isBigEndian) :
    (c'.perform h' mem).1.output = (c.perform h mem).1.output := by
  have hacc' : c'.Accepted mem.size := by
    rw [Call.Accepted, Call.aligned_iff, haddress, hwidth, ← Call.aligned_iff]
    exact hacc
  have hkept' : c'.Kept h' mem.isBigEndian ↔ c.Kept h mem.isBigEndian := by
    rw [hkept, Call.Kept, Call.Kept, hwidth]
  rw [Call.output_perform h' hc' hacc', Call.output_perform h hc hacc, Call.place_congr haddress,
    hwidth]
  simp only [hkept']

theorem perform_write_host (hc : c.output = none)
    (hkept : c.Kept h mem.isBigEndian ↔ c.Kept h' mem.isBigEndian) :
    (c.perform h' mem).2 = (c.perform h mem).2 := by
  by_cases hacc : c.Accepted mem.size
  · rw [Call.perform_write h' hc hacc, Call.perform_write h hc hacc]
    simp only [hkept]
  · rw [Call.perform_rejected h' mem c hacc, Call.perform_rejected h mem c hacc]

variable {p : ArmCoreData} {ins : Word}

theorem loadedWord_host (hload : ins.getLsbD 20 = true)
    (haddress : (transferCall h' p ins).address = (transferCall h p ins).address)
    (hacc : (transferCall h p ins).Accepted p.mem.size)
    (hkept : (transferCall h p ins).Kept h p.mem.isBigEndian ↔
      (transferCall h p ins).Kept h' p.mem.isBigEndian) :
    loadedWord h' p ins = loadedWord h p ins := by
  have hwidth : (transferCall h' p ins).width = (transferCall h p ins).width := by
    rw [width_transferCall, width_transferCall]
  exact loadedWord_of_output hload (output_perform_host haddress hwidth
    (output_transferCall_of_load hload) (output_transferCall_of_load hload) hacc hkept)

theorem transferCall_store (hstore : ins.getLsbD 20 = false)
    (haddress : (transferCall h' p ins).address = (transferCall h p ins).address) :
    transferCall h' p ins = transferCall h p ins := by
  unfold transferCall at haddress ⊢
  by_cases hclass : ins.extractLsb' 26 2 = 1
  · rw [if_pos hclass, if_pos hclass] at haddress ⊢
    rw [address_loadStoreCall, address_loadStoreCall] at haddress
    simp only [loadStoreCall, hstore, haddress, Bool.false_eq_true, if_false]
  · rw [if_neg hclass, if_neg hclass]
    simp only [loadStoreHCall, hstore, Bool.false_eq_true, if_false]

theorem transfer_host
    (haddress : (transferCall h' p ins).address = (transferCall h p ins).address)
    (hacc : ins.getLsbD 20 = true → (transferCall h p ins).Accepted p.mem.size)
    (hkept : (transferCall h p ins).Kept h p.mem.isBigEndian ↔
      (transferCall h p ins).Kept h' p.mem.isBigEndian) :
    (transfer h' p ins).2 = (transfer h p ins).2 := by
  have haccessed : accessed h' p ins = accessed h p ins := by
    rw [accessed, accessed]
    cases hload : ins.getLsbD 20 with
    | true => rw [if_pos rfl, if_pos rfl, loadedWord_host hload haddress (hacc hload) hkept]
    | false =>
      rw [if_neg Bool.false_ne_true, if_neg Bool.false_ne_true, transferCall_store hload haddress,
        perform_write_host (output_transferCall_of_store hload) hkept]
  rw [transfer_eq, transfer_eq, haccessed, haddress]

end

/-! ## Steps -/

/-- A step on which two hosts agree: its shifts have a meaning in C, its load is accepted, and both
hosts keep the bytes of its access or both lose them. -/
structure Portable (h h' : Host) (p : ArmCoreData) : Prop where
  counts : DefinedCounts (fetchedCore h p) (fetchedWord h p)
  loads : IsLoad (fetchedWord h p) → (stepCall h p).Accepted p.mem.size
  kept : IsLoadStore (fetchedWord h p) →
    ((stepCall h p).Kept h p.mem.isBigEndian ↔ (stepCall h p).Kept h' p.mem.isBigEndian)

section
variable {h h' : Host} {p : ArmCoreData} {mot : Word}

theorem fetchedWord_host (h h' : Host) (p : ArmCoreData) : fetchedWord h' p = fetchedWord h p := by
  rw [fetchedWord, fetchedWord, armFetch_value, armFetch_value, memoryReadWord_host h h']

theorem DefinedCounts.dataProcessing (hdefined : DefinedCounts p mot)
    (htype : mot.extractLsb' 26 2 = 0)
    (hbits : ¬ (mot.getLsbD 7 = true ∧ mot.getLsbD 4 = true)) :
    mot.getLsbD 25 = true → rotationField mot ≠ 0 := by
  have hhandler : handler mot = .dataProcessing (Arm.opcode mot) := by
    rw [handler, selectInstruction_eq, htype]
    exact if_neg hbits
  rwa [DefinedCounts, hhandler] at hdefined

theorem DefinedCounts.loadStore (hdefined : DefinedCounts p mot)
    (htype : mot.extractLsb' 26 2 = 1) :
    mot.getLsbD 25 = true → offsetAmount mot = 0 →
      DefinedAtZero (offsetRegister p mot) (offsetShift mot) := by
  have hhandler : handler mot = .loadStore := by
    rw [handler, selectInstruction_eq, htype]
    rfl
  rwa [DefinedCounts, hhandler] at hdefined

theorem Portable.address (hportable : Portable h h' p) :
    (transferCall h' (fetchedCore h p) (fetchedWord h p)).address =
      (stepCall h p).address := by
  rw [stepCall, address_transferCall, address_transferCall,
    sourceOffset_host h h' _ _ hportable.counts.loadStore]

theorem Portable.stepped (hpass : Passed h p) (hpass' : Passed h' p) (hportable : Portable h h' p) :
    stepped h' p = stepped h p := by
  have hword := fetchedWord_host h h' p
  have hcore : fetchedCore h' p = fetchedCore h p := rfl
  by_cases hls : IsLoadStore (fetchedWord h p)
  · rw [stepped_of_loadStore hpass hls, stepped_of_loadStore hpass' (by rwa [hword]), hword, hcore]
    exact transfer_host hportable.address (fun hload => hportable.loads ⟨hls, hload⟩)
      (hportable.kept hls)
  · rw [Armator.stepped, Armator.stepped, armStep_of_passed hpass, armStep_of_passed hpass', hword,
      hcore, selectExecuteInstruction, selectExecuteInstruction, selectInstruction_eq,
      selectInstruction_eq]
    split
    · next htype =>
      have hbits : ¬ ((fetchedWord h p).getLsbD 7 = true ∧ (fetchedWord h p).getLsbD 4 = true) :=
        fun hboth => hls (.inr ⟨htype, hboth⟩)
      rw [if_neg hbits, if_neg hbits, flagOf_eq]
      exact traitementAR_host h h' _ _ _ (hportable.counts.dataProcessing htype hbits)
    · next htype => exact absurd (.inl htype) hls
    · rfl
    · rfl

theorem armStep_host (hportable : Passed h p → Portable h h' p) : armStep h' p = armStep h p := by
  have hpassed : Passed h' p ↔ Passed h p := by
    rw [Passed, Passed, fetchedWord_host h h' p]
    rfl
  by_cases hpass : Passed h p
  · have hpass' := hpassed.mpr hpass
    refine Prod.ext ?_ ((hportable hpass).stepped hpass hpass')
    rw [armStep_of_passed hpass, armStep_of_passed hpass', selectExecuteInstruction_result,
      selectExecuteInstruction_result]
  · rw [armStep_of_failed hpass, armStep_of_failed (mt hpassed.mp hpass)]
    rfl

end

/-- **Hosts**: a program does the same on two hosts, whatever their byte orders, their shifts by
counts out of range and their unwritten variables are, as long as none of its steps needs them. -/
theorem same_on_hosts (h h' : Host) (p : ArmCoreData) (n : Nat)
    (hportable : ∀ k < n, Passed h ((stepped h)^[k] p) → Portable h h' ((stepped h)^[k] p)) :
    (stepped h')^[n] p = (stepped h)^[n] p ∧
      ∀ k < n, (armStep h' ((stepped h')^[k] p)).1 = (armStep h ((stepped h)^[k] p)).1 := by
  have hrun : ∀ k ≤ n, (stepped h')^[k] p = (stepped h)^[k] p := by
    intro k hk
    induction k with
    | zero => rfl
    | succ k ih =>
      rw [Function.iterate_succ_apply', Function.iterate_succ_apply', ih (Nat.le_of_lt hk)]
      exact congrArg Prod.snd (armStep_host (hportable k hk))
  refine ⟨hrun n (Nat.le_refl n), fun k hk => ?_⟩
  rw [hrun k (Nat.le_of_lt hk), armStep_host (hportable k hk)]

/-- A host that is different in everything. -/
def otherHost : Host where
  bigEndian := true
  rightToLeft := false
  shlOut _ _ := 0
  shrOut _ _ := 0
  garbage w := BitVec.ofNat w 0xAA

/-- `STR r0, [r1]` over itself. -/
theorem same_on_hosts_store :
    (stepped otherHost)^[1] (coreOf 4 [0xE5810000]) =
      (stepped Host.x86)^[1] (coreOf 4 [0xE5810000]) := by
  refine (same_on_hosts Host.x86 otherHost _ 1 ?_).1
  intro k hk _
  have hzero : k = 0 := Nat.lt_one_iff.mp hk
  subst hzero
  exact ⟨fun hreg => absurd hreg (by decide), fun hload => absurd hload.2 (by decide),
    fun _ => by decide⟩

end Armator
