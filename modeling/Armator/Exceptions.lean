import Armator.Frame
import Armator.MemoryCalls

/-!
# Instructions without an effect, and failed accesses

The result codes that would raise an exception are lost on their way to `arm_step`: `arm_branch`'s
in `traitement_BR`, those of the memory in the load and store functions and in
`arm_execute_instruction`. So a passed instruction always returns 0
(`selectExecuteInstruction_result`), and this file says what it returns 0 for: words nothing
executes (`dispatched_never`), accesses that failed (`dataAbort_never`), and words that were never
read (`prefetchAbort_never`).
-/

namespace Armator

section
variable (h : Host) (p : ArmCoreData)

/-! ## Skipped instructions -/

/-- The words that are to raise an undefined instruction. -/
def IsUnimplemented (mot : Word) : Prop :=
  Arm.IsCoprocessor mot ∨ Arm.IsUndefinedTransfer mot

def IsDispatched (mot : Word) : Prop :=
  Arm.IsBlockTransfer mot ∨ Arm.IsSoftwareInterrupt mot ∨ IsUnimplemented mot

/-- The step does what the function for the word does, and does not return 0 with the core the
fetch left. -/
structure Dispatched : Prop where
  blockTransfer : Arm.IsBlockTransfer (fetchedWord h p) →
    armStep h p = armLoadStoreMultiple h (fetchedCore h p) (fetchedWord h p)
  softwareInterrupt : Arm.IsSoftwareInterrupt (fetchedWord h p) →
    (some (armStep h p).1, (armStep h p).2) =
      armCoprocessorOthersSwi (fetchedCore h p) (fetchedWord h p)
  unimplemented : IsUnimplemented (fetchedWord h p) →
    (armStep h p).1 = UNDEFINED_INSTRUCTION ∧ Undisturbed p (armStep h p).2
  executed : IsDispatched (fetchedWord h p) → armStep h p ≠ (0, fetchedCore h p)

variable {h p}

theorem armStep_result_of_passed (hpass : Passed h p) : (armStep h p).1 = 0 := by
  rw [armStep_of_passed hpass, selectExecuteInstruction_result]

/-- Block transfers, coprocessor instructions and software interrupts are skipped. -/
theorem armStep_skipped (hpass : Passed h p)
    (hword : Arm.IsBlockTransfer (fetchedWord h p) ∨ (fetchedWord h p).extractLsb' 26 2 = 3) :
    armStep h p = (0, fetchedCore h p) := by
  rw [armStep_of_passed hpass, selectExecuteInstruction, selectInstruction_eq]
  rcases hword with ⟨htype, h25⟩ | htype
  · rw [htype]
    show traitementBR (fetchedCore h p) (fetchedWord h p) = (0, fetchedCore h p)
    rw [traitementBR_eq, h25]
    rfl
  · rw [htype]
    rfl

/-- No block transfer, software interrupt, coprocessor or undefined word is dispatched. -/
theorem dispatched_never (hpass : Passed h p) (hword : IsDispatched (fetchedWord h p)) :
    ¬ Dispatched h p := by
  intro hdisp
  rcases hword with hblock | hswi | hcopro | hundef
  · exact hdisp.executed (Or.inl hblock) (armStep_skipped hpass (Or.inl hblock))
  · exact hdisp.executed (Or.inr (Or.inl hswi)) (armStep_skipped hpass (Or.inr hswi.1))
  · exact hdisp.executed (Or.inr (Or.inr (Or.inl hcopro))) (armStep_skipped hpass (Or.inr hcopro.1))
  · have hres := (hdisp.unimplemented (Or.inr hundef)).1
    rw [armStep_result_of_passed hpass] at hres
    exact absurd hres (by decide)

end

theorem dispatched_never_swi : ¬ Dispatched Host.x86 (coreAt 0xEF000000) :=
  dispatched_never (by unfold Passed; decide) (Or.inr (Or.inl ⟨by decide, by decide, by decide⟩))

/-- The breakpoint word runs as a load or store and raises nothing. -/
theorem dispatched_never_breakpoint :
    Passed Host.x86 (coreAt 0xE7F000F0) ∧
    Arm.IsUndefinedTransfer (fetchedWord Host.x86 (coreAt 0xE7F000F0)) ∧
    ¬ Dispatched Host.x86 (coreAt 0xE7F000F0) := by
  have hundef : Arm.IsUndefinedTransfer (fetchedWord Host.x86 (coreAt 0xE7F000F0)) :=
    ⟨by decide, by decide, by decide⟩
  refine ⟨by unfold Passed; decide, hundef, fun hdisp => ?_⟩
  exact absurd (hdisp.unimplemented (Or.inr hundef)).1 (by decide)

/-! ## Failed data accesses -/

section
variable (h : Host) (p : ArmCoreData) (ins : Word)

def loadStoreCall : Call :=
  let address := loadStoreAddress h p ins
  let value := armReadUsrRegister p (rdField ins)
  if ins.getLsbD 20 then
    if ins.getLsbD 22 then .readByte address (h.garbage 8) else .readWord address (h.garbage 32)
  else
    if ins.getLsbD 22 then .writeByte address (u8 (value &&& 0xFF)) else .writeWord address value

def loadStoreHCall : Call :=
  let address := loadStoreHAddress p ins
  let value := armReadUsrRegister p (rdField ins)
  if ins.getLsbD 20 then .readHalf address (h.garbage 16)
  else .writeHalf address (u16 (value &&& 0xFFFF))

/-- The function for a load or store, and the access it makes. -/
def transfer : Int × ArmCoreData :=
  if ins.extractLsb' 26 2 = 1 then armLoadStore h p ins else armLoadStoreH h p ins

def transferCall : Call :=
  if ins.extractLsb' 26 2 = 1 then loadStoreCall h p ins else loadStoreHCall h p ins

theorem mem_armLoadStore :
    (armLoadStore h p ins).2.mem = ((loadStoreCall h p ins).perform h p.mem).2 := by
  cases hload : ins.getLsbD 20
  · simp only [armLoadStore, loadStoreCall, strStrb, hload, u8_bit_ne_zero]
    cases ins.getLsbD 22 <;> simp only [Bool.false_eq_true, if_false, if_true]
    · split
      · rfl
      · split <;> rfl
    · split
      · rfl
      · split <;> rfl
  · rw [(frame_armLoadStore_load h p ins hload).mem.eq_of_empty, loadStoreCall]
    simp only [hload, if_true]
    split <;> rfl

theorem mem_armLoadStoreH :
    (armLoadStoreH h p ins).2.mem = ((loadStoreHCall h p ins).perform h p.mem).2 := by
  cases hload : ins.getLsbD 20
  · simp only [armLoadStoreH, loadStoreHCall, hload, u8_bit_ne_zero, Bool.false_eq_true, if_false]
    split <;> rfl
  · rw [(frame_armLoadStoreH_load h p ins hload).mem.eq_of_empty, loadStoreHCall]
    simp only [hload, if_true]
    rfl

theorem mem_transfer : (transfer h p ins).2.mem = ((transferCall h p ins).perform h p.mem).2 := by
  unfold transfer transferCall
  split
  · exact mem_armLoadStore h p ins
  · exact mem_armLoadStoreH h p ins

theorem transfer_result : (transfer h p ins).1 = 0 := by
  unfold transfer
  split <;> rfl

def AccessFails : Prop := ((transferCall h p ins).perform h p.mem).1.result = -1

theorem mem_transfer_of_fails (hfail : AccessFails h p ins) : (transfer h p ins).2.mem = p.mem := by
  rw [mem_transfer]
  by_cases hacc : (transferCall h p ins).Accepted p.mem.size
  · rw [AccessFails, Call.result_accepted h p.mem _ hacc] at hfail
    exact absurd hfail (by decide)
  · rw [Call.perform_rejected h p.mem _ hacc]

/-- The abort is reported, and nothing has changed. -/
structure DataAbort (r : Int × ArmCoreData) : Prop where
  reported : r.1 ≠ 0
  mem : r.2.mem = p.mem
  word : ∀ reg, r.2.word reg = p.word reg

/-- A load or store whose access fails leaves the memory as it was and returns 0: no abort is
reported. -/
theorem dataAbort_never (hfail : AccessFails h p ins) :
    (transfer h p ins).1 = 0 ∧ (transfer h p ins).2.mem = p.mem ∧
      ¬ DataAbort p (transfer h p ins) := by
  have hres := transfer_result h p ins
  exact ⟨hres, mem_transfer_of_fails h p ins hfail, fun habort => habort.reported hres⟩

end

theorem dataAbort_never_ldr :
    let p := armWriteUsrRegister (coreAt 0) 0 0x100
    (transfer Host.x86 p 0xE5901000).1 = 0 ∧ (transfer Host.x86 p 0xE5901000).2.mem = p.mem ∧
      ¬ DataAbort p (transfer Host.x86 p 0xE5901000) :=
  dataAbort_never Host.x86 _ 0xE5901000 (by unfold AccessFails; decide)

/-- `LDRH r1, [r0]` there writes the content of an unwritten local to `r1`. -/
theorem dataAbort_never_ldrh :
    let p := armWriteUsrRegister (armWriteUsrRegister (coreAt 0) 0 0x100) 1 7
    AccessFails Host.x86 p 0xE1D010B0 ∧ ¬ DataAbort p (transfer Host.x86 p 0xE1D010B0) := by
  intro p
  refine ⟨by unfold AccessFails; decide, fun habort => ?_⟩
  exact absurd (habort.word 1) (by decide)

/-! ## Failed fetches -/

section
variable (h : Host) (p : ArmCoreData)

def FetchFails : Prop := (armFetch h p (armReadCpsr p)).1 = -1

/-- After a failed fetch, the word the CPSR had before it is executed. -/
theorem fetchedWord_of_fails (hfail : FetchFails h p) : fetchedWord h p = armReadCpsr p := by
  rw [FetchFails, armFetch_result] at hfail
  rw [fetchedWord, armFetch_value]
  unfold memoryReadWord at hfail ⊢
  split at hfail
  · next hbad => rw [if_pos hbad]
  · split at hfail <;> exact absurd hfail (show (0 : Int) ≠ -1 by decide)

theorem word_ne_zero_of_fails (hfail : FetchFails h p) : p.word 15 ≠ 0 := by
  intro hzero
  have haddress : fetchAddress p = 0 := by
    rw [fetchAddress_eq, hzero]
    decide
  have hacc : (Call.readWord 0 (armReadCpsr p)).Accepted p.mem.size :=
    ⟨show 0 / 4 ≤ p.mem.size by omega, rfl⟩
  have hres : (memoryReadWord h p.mem 0 (armReadCpsr p)).1 = 0 := Call.result_accepted h p.mem _ hacc
  rw [FetchFails, armFetch_result, haddress, hres] at hfail
  exact absurd hfail (by decide)

variable {h p} in
theorem fetch_inside (haligned : (fetchAddress p).toNat % 4 = 0)
    (hinside : (fetchAddress p).toNat + 4 ≤ 4 * p.mem.size) :
    ¬ FetchFails h p ∧ (fetchedWord h p).toNat =
      ByteStore.value p.mem.isBigEndian ((ByteStore.span (fetchAddress p) 4).map p.mem.memo) := by
  have hin : (Call.readWord (fetchAddress p) (armReadCpsr p)).Inside p.mem.size :=
    ⟨hinside, haligned⟩
  have hkept : (Call.readWord (fetchAddress p) (armReadCpsr p)).Kept h p.mem.isBigEndian :=
    .inr (.inr rfl)
  have hout : (Call.readWord (fetchAddress p) (armReadCpsr p)).output ≠ none :=
    Option.some_ne_none _
  have hread := Call.output_perform h hout hin.accepted
  have hresult : (memoryReadWord h p.mem (fetchAddress p) (armReadCpsr p)).1 = 0 :=
    Call.result_accepted h p.mem _ hin.accepted
  constructor
  · rw [FetchFails, armFetch_result, hresult]
    decide
  · rw [if_pos hkept] at hread
    rw [fetchedWord, armFetch_value, ByteStore.span, List.map_map]
    exact Option.some.inj hread

/-- The abort is reported, and nothing has been executed. -/
structure PrefetchAbort : Prop where
  reported : (armStep h p).1 ≠ 0
  undisturbed : Undisturbed p (armStep h p).2

/-- After a failed fetch the word executed is the old CPSR, and no abort is reported: the step
returns 0 or it is a reset. -/
theorem prefetchAbort_never (hfail : FetchFails h p) :
    fetchedWord h p = armReadCpsr p ∧ ¬ PrefetchAbort h p := by
  refine ⟨fetchedWord_of_fails h p hfail, fun habort => ?_⟩
  by_cases hpass : Passed h p
  · exact habort.reported (armStep_result_of_passed hpass)
  · have hcpsr := habort.undisturbed.cpsr
    rw [armStep_of_failed hpass, armReadCpsr_eq, armReadCpsr_eq, word_armException_reset] at hcpsr
    exact word_ne_zero_of_fails h p hfail hcpsr.symm

end

/-- A core whose program counter is the word of `MOV r0, #5`, far behind its memory. -/
def coreOfPc : ArmCoreData := armWriteUsrRegister (coreAt 0) 15 0xE3A00005

theorem prefetchAbort_never_mov :
    fetchedWord Host.x86 coreOfPc = armReadCpsr coreOfPc ∧ ¬ PrefetchAbort Host.x86 coreOfPc :=
  prefetchAbort_never Host.x86 coreOfPc (by unfold FetchFails; decide)

/-- The step executes `MOV r0, #5`, which is nowhere in memory. -/
theorem prefetchAbort_never_executed :
    FetchFails Host.x86 coreOfPc ∧ ¬ PrefetchAbort Host.x86 coreOfPc := by
  refine ⟨by unfold FetchFails; decide, fun habort => ?_⟩
  exact absurd (habort.undisturbed.reg 0 (by decide)) (by decide)

end Armator
