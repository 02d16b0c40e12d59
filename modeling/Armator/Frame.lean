import Mathlib.Data.Set.Insert
import Armator.Decode

/-!
# What one step changes

`CoreFrame regs bytes p p'` says that `p'` differs from `p` at most in the registers `regs`, in
the bytes `bytes` of the memory and in the cycle counter. Every handler has its frame, read
off its writes, and `frame_selectExecuteInstruction` puts them together by the word executed:
`writtenRegisters` and `writtenBytes`.

Around the handler stand the fetch and the reset, which write word 15 only (`step_frame`).
-/

namespace Armator

/-! ## Frames -/

/-- The memory differs at most in `bytes`. -/
structure MemoryFrame (bytes : Set Word) (mem mem' : MemoryData) : Prop where
  size : mem'.size = mem.size
  isBigEndian : mem'.isBigEndian = mem.isBigEndian
  memo : ∀ i ∉ bytes, mem'.memo i = mem.memo i

/-- The core differs at most in `regs`, in `bytes` and in its cycle counter. -/
structure CoreFrame (regs : Set Byte) (bytes : Set Word) (p p' : ArmCoreData) : Prop where
  word : ∀ reg ∉ regs, p'.word reg = p.word reg
  mem : MemoryFrame bytes p.mem p'.mem

namespace MemoryFrame

variable {bytes bytes' : Set Word} {mem mem' : MemoryData}

theorem refl (bytes : Set Word) (mem : MemoryData) : MemoryFrame bytes mem mem :=
  ⟨rfl, rfl, fun _ _ => rfl⟩

theorem mono (hf : MemoryFrame bytes mem mem') (hsub : bytes ⊆ bytes') :
    MemoryFrame bytes' mem mem' :=
  ⟨hf.size, hf.isBigEndian, fun i hi => hf.memo i fun hmem => hi (hsub hmem)⟩

theorem set (hf : MemoryFrame bytes mem mem') {address : Word} (ha : address ∈ bytes)
    (value : Byte) : MemoryFrame bytes mem (mem'.set address value) := by
  refine ⟨hf.size, hf.isBigEndian, fun i hi => ?_⟩
  have hne : i ≠ address := fun heq => hi (heq ▸ ha)
  rw [← hf.memo i hi]
  exact Function.update_of_ne hne value mem'.memo

theorem eq_of_empty (hf : MemoryFrame ∅ mem mem') : mem' = mem := by
  obtain ⟨size, memo, be⟩ := mem
  obtain ⟨size', memo', be'⟩ := mem'
  obtain ⟨rfl, rfl, hmemo⟩ := hf
  rw [show memo' = memo from funext fun i => hmemo i (Set.notMem_empty i)]

end MemoryFrame

namespace CoreFrame

variable {regs regs' : Set Byte} {bytes bytes' : Set Word} {p q p' : ArmCoreData}

theorem refl (regs : Set Byte) (bytes : Set Word) (p : ArmCoreData) : CoreFrame regs bytes p p :=
  ⟨fun _ _ => rfl, .refl bytes p.mem⟩

theorem mono (hf : CoreFrame regs bytes p p') (hregs : regs ⊆ regs') (hbytes : bytes ⊆ bytes') :
    CoreFrame regs' bytes' p p' :=
  ⟨fun reg hreg => hf.word reg fun hmem => hreg (hregs hmem), hf.mem.mono hbytes⟩

theorem write (hf : CoreFrame regs bytes p p') {reg : Byte} (hreg : reg ∈ regs) (value : Word) :
    CoreFrame regs bytes p (armWriteUsrRegister p' reg value) := by
  refine ⟨fun r hr => ?_, hf.mem⟩
  have hne : r ≠ reg := fun heq => hr (heq ▸ hreg)
  rw [word_armWriteUsrRegister, if_neg hne]
  exact hf.word r hr

theorem ofMem {mem : MemoryData} (hf : MemoryFrame bytes p.mem mem) :
    CoreFrame regs bytes p { p with mem := mem } :=
  ⟨fun _ _ => rfl, hf⟩

end CoreFrame

/-! ## The memory -/

/-- The aligned group of four bytes around an address. -/
def group (address : Word) : Set Word := {i | i.toNat / 4 = address.toNat / 4}

theorem mem_group_self (address : Word) : address ∈ group address := rfl

theorem mem_group_add {address : Word} {k : Nat} (hk : address.toNat % 4 + k < 4) :
    address + BitVec.ofNat 32 k ∈ group address := by
  have hlt := address.isLt
  show (address + BitVec.ofNat 32 k).toNat / 4 = address.toNat / 4
  rw [BitVec.toNat_add, BitVec.toNat_ofNat]
  omega

section
variable (h : Host) (mem : MemoryData) (address : Word)

theorem frame_memoryWriteByte (value : Byte) :
    MemoryFrame (group address) mem (memoryWriteByte h mem address value).2 := by
  unfold memoryWriteByte
  split
  · exact .refl _ mem
  · exact (MemoryFrame.refl _ mem).set (mem_group_self address) _

theorem frame_memoryWriteHalf (value : Half) :
    MemoryFrame (group address) mem (memoryWriteHalf h mem address value).2 := by
  unfold memoryWriteHalf
  split
  · exact .refl _ mem
  · next hacc =>
    have hfirst := (MemoryFrame.refl _ mem).set (mem_group_self address)
    exact (hfirst _).set (mem_group_add (k := 1) (by omega)) _

theorem frame_memoryWriteWord (value : Word) :
    MemoryFrame (group address) mem (memoryWriteWord h mem address value).2 := by
  unfold memoryWriteWord
  split
  · exact .refl _ mem
  · next hacc =>
    have hfirst := (MemoryFrame.refl _ mem).set (mem_group_self address)
    have hsecond := fun v w => (hfirst v).set (mem_group_add (k := 1) (by omega)) w
    have hthird := fun v w x => (hsecond v w).set (mem_group_add (k := 2) (by omega)) x
    exact (hthird _ _ _).set (mem_group_add (k := 3) (by omega)) _

end

/-! ## The handlers -/

theorem frame_instr (p : ArmCoreData) (rsource rdest : Byte) (shifterOperand : Half)
    (shifterCarryOut flagC s : Byte) (op : Arm.Opcode) :
    CoreFrame {rdest} ∅ p
      (instr p rsource rdest shifterOperand shifterCarryOut flagC s op).2 := by
  rw [instr_eq]
  cases op.isComparison
  · exact (CoreFrame.refl _ _ p).write (Set.mem_singleton rdest) _
  · exact .refl _ _ p

section
variable (h : Host) (p : ArmCoreData) (bBit : Byte) (temp : Word) (rdBit rnBit : Byte)

theorem frame_ldrLdrb : CoreFrame {rdBit, rnBit} ∅ p (ldrLdrb h p bBit temp rdBit rnBit) := by
  have hload : ∀ v, CoreFrame {rdBit, rnBit} ∅ p (armWriteUsrRegister p rdBit v) :=
    (CoreFrame.refl _ _ p).write (Set.mem_insert rdBit {rnBit})
  unfold ldrLdrb
  refine CoreFrame.write ?_ (Set.mem_insert_of_mem rdBit (Set.mem_singleton rnBit)) temp
  split
  · exact hload _
  · dsimp only
    split
    · next h15 => exact h15 ▸ hload _
    · exact hload _

theorem frame_strStrb (regs : Set Byte) :
    CoreFrame regs (group temp) p (strStrb h p bBit temp rdBit) := by
  unfold strStrb
  split
  · exact .ofMem (frame_memoryWriteByte h p.mem temp _)
  · exact .ofMem (frame_memoryWriteWord h p.mem temp _)

end

section
variable (h : Host) (p : ArmCoreData) (ins : Word)

theorem frame_armLoadStore_load (hload : ins.getLsbD 20 = true) :
    CoreFrame {rdField ins, rnField ins} ∅ p (armLoadStore h p ins).2 := by
  have hframe := frame_ldrLdrb h p (u8 ((ins >>> 22) &&& 1)) (loadStoreAddress h p ins)
    (rdField ins) (rnField ins)
  simp only [armLoadStore, if_pos ((u8_bit_ne_zero ins 20).mpr hload)]
  split
  · exact hframe
  · split
    · exact hframe.write (Set.mem_insert_of_mem _ (Set.mem_singleton _)) _
    · exact hframe

theorem frame_armLoadStore_store (hstore : ins.getLsbD 20 = false) :
    CoreFrame {rnField ins} (group (loadStoreAddress h p ins)) p (armLoadStore h p ins).2 := by
  have hframe := frame_strStrb h p (u8 ((ins >>> 22) &&& 1)) (loadStoreAddress h p ins)
    (rdField ins) {rnField ins}
  have hbit : ¬ u8 ((ins >>> 20) &&& 1) ≠ 0 := by
    rw [u8_bit_ne_zero, hstore]
    exact Bool.false_ne_true
  simp only [armLoadStore, if_neg hbit]
  split
  · exact hframe
  · split
    · exact hframe.write (Set.mem_singleton _) _
    · exact hframe

theorem frame_armLoadStoreH_load (hload : ins.getLsbD 20 = true) :
    CoreFrame {rdField ins, rnField ins} ∅ p (armLoadStoreH h p ins).2 := by
  have hframe : ∀ v, CoreFrame {rdField ins, rnField ins} ∅ p
      (armWriteUsrRegister p (rdField ins) v) :=
    (CoreFrame.refl _ _ p).write (Set.mem_insert _ _)
  simp only [armLoadStoreH, if_pos ((u8_bit_ne_zero ins 20).mpr hload)]
  split
  · exact (hframe _).write (Set.mem_insert_of_mem _ (Set.mem_singleton _)) _
  · exact hframe _

theorem frame_armLoadStoreH_store (hstore : ins.getLsbD 20 = false) :
    CoreFrame {rnField ins} (group (loadStoreHAddress p ins)) p (armLoadStoreH h p ins).2 := by
  have hframe : ∀ v, CoreFrame {rnField ins} (group (loadStoreHAddress p ins)) p
      (armWriteHalf h p (loadStoreHAddress p ins) v).2 := fun v =>
    .ofMem (frame_memoryWriteHalf h p.mem (loadStoreHAddress p ins) v)
  have hbit : ¬ u8 ((ins >>> 20) &&& 1) ≠ 0 := by
    rw [u8_bit_ne_zero, hstore]
    exact Bool.false_ne_true
  simp only [armLoadStoreH, if_neg hbit]
  split
  · exact (hframe _).write (Set.mem_singleton _) _
  · exact hframe _

def branchRegisters (ins : Word) : Set Byte := {15} ∪ {reg | ins.getLsbD 24 = true ∧ reg = 14}

theorem frame_bBlInstr : CoreFrame (branchRegisters ins) ∅ p (bBlInstr p ins).2 := by
  unfold bBlInstr
  refine CoreFrame.write ?_ (Set.mem_union_left _ (Set.mem_singleton 15)) _
  split
  · next hlink =>
    have h14 : (14 : Byte) ∈ branchRegisters ins :=
      Or.inr ⟨(u8_bit_ne_zero ins 24).mp hlink, rfl⟩
    exact (CoreFrame.refl _ _ p).write h14 _
  · exact .refl _ _ p

theorem traitementBR_eq :
    traitementBR p ins = (0, if ins.getLsbD 25 = true then (bBlInstr p ins).2 else p) := by
  simp only [traitementBR, armBranch, getBit_ne_zero]
  split <;> rfl

end

/-! ## One step -/

def IsLoadStore (mot : Word) : Prop :=
  mot.extractLsb' 26 2 = 1 ∨
    mot.extractLsb' 26 2 = 0 ∧ mot.getLsbD 7 = true ∧ mot.getLsbD 4 = true

def IsStore (mot : Word) : Prop := IsLoadStore mot ∧ mot.getLsbD 20 = false

def IsLoad (mot : Word) : Prop := IsLoadStore mot ∧ mot.getLsbD 20 = true

def IsDataProcessing (mot : Word) : Prop :=
  mot.extractLsb' 26 2 = 0 ∧ ¬ (mot.getLsbD 7 = true ∧ mot.getLsbD 4 = true)

instance : DecidablePred IsLoadStore := fun _ => inferInstanceAs (Decidable (_ ∨ _))
instance : DecidablePred IsStore := fun _ => inferInstanceAs (Decidable (_ ∧ _))
instance : DecidablePred IsLoad := fun _ => inferInstanceAs (Decidable (_ ∧ _))
instance : DecidablePred IsDataProcessing := fun _ => inferInstanceAs (Decidable (_ ∧ _))

def writtenRegisters (mot : Word) : Set Byte :=
  {reg | ((IsDataProcessing mot ∨ IsLoad mot) ∧ reg = rdField mot) ∨
    (IsLoadStore mot ∧ reg = rnField mot) ∨ (Arm.IsBranch mot ∧ reg ∈ branchRegisters mot)}

def writtenBytes (h : Host) (p : ArmCoreData) (mot : Word) : Set Word :=
  {i | IsStore mot ∧ i ∈ group (if mot.extractLsb' 26 2 = 1 then loadStoreAddress h p mot
    else loadStoreHAddress p mot)}

section
variable (h : Host) (p : ArmCoreData)

theorem frame_selectExecuteInstruction (mot : Word) (flagC : Byte) :
    CoreFrame (writtenRegisters mot) (writtenBytes h p mot) p
      (selectExecuteInstruction h p mot flagC).2 := by
  have hbase : IsLoadStore mot → {rnField mot} ⊆ writtenRegisters mot := fun hls reg hreg =>
    Or.inr (Or.inl ⟨hls, hreg⟩)
  have hload : IsLoad mot → {rdField mot, rnField mot} ⊆ writtenRegisters mot := by
    rintro hl reg (rfl | hreg)
    · exact Or.inl ⟨Or.inr hl, rfl⟩
    · exact hbase hl.1 hreg
  apply selectExecuteInstruction_cases h p mot flagC
    (motive := fun r => CoreFrame (writtenRegisters mot) (writtenBytes h p mot) p r.2)
  case halfword =>
    intro htype hbits
    have hls : IsLoadStore mot := Or.inr ⟨htype, hbits⟩
    cases hl : mot.getLsbD 20
    · refine (frame_armLoadStoreH_store h p mot hl).mono (hbase hls) fun i hi => ⟨⟨hls, hl⟩, ?_⟩
      rwa [if_neg (by rw [htype]; decide)]
    · exact (frame_armLoadStoreH_load h p mot hl).mono (hload ⟨hls, hl⟩) (Set.empty_subset _)
  case dataProcessing =>
    intro htype hbits
    rw [traitementAR_eq]
    refine (frame_instr p _ _ _ _ _ _ _).mono ?_ (Set.empty_subset _)
    rintro reg rfl
    exact Or.inl ⟨Or.inl ⟨htype, hbits⟩, rfl⟩
  case loadStore =>
    intro htype
    have hls : IsLoadStore mot := Or.inl htype
    cases hl : mot.getLsbD 20
    · refine (frame_armLoadStore_store h p mot hl).mono (hbase hls) fun i hi => ⟨⟨hls, hl⟩, ?_⟩
      rwa [if_pos htype]
    · exact (frame_armLoadStore_load h p mot hl).mono (hload ⟨hls, hl⟩) (Set.empty_subset _)
  case branch =>
    intro htype
    rw [traitementBR_eq]
    dsimp only
    split
    · next h25 =>
      exact (frame_bBlInstr p mot).mono (fun reg hreg => Or.inr (Or.inr ⟨⟨htype, h25⟩, hreg⟩))
        (Set.empty_subset _)
    · exact .refl _ _ p
  case special =>
    intro htype
    exact .refl _ _ p

/-- What a step may change: memory by a passed store in one aligned word, the registers by the
fields of a passed instruction, the program counter by a branch or under the name of register 15.
-/
structure StepFrame (p' : ArmCoreData) : Prop where
  memory : ¬ (Passed h p ∧ IsStore (fetchedWord h p)) → p'.mem = p.mem
  aligned : ∃ address, MemoryFrame (group address) p.mem p'.mem
  registers : ∀ reg ≠ 15, p'.word reg ≠ p.word reg → Passed h p ∧
    ((IsDataProcessing (fetchedWord h p) ∨ IsLoad (fetchedWord h p)) ∧
        reg = rdField (fetchedWord h p) ∨
      IsLoadStore (fetchedWord h p) ∧ reg = rnField (fetchedWord h p) ∨
      (Arm.IsBranch (fetchedWord h p) ∧ (fetchedWord h p).getLsbD 24 = true) ∧ reg = 14)
  pc : Passed h p → ¬ Arm.IsBranch (fetchedWord h p) → rnField (fetchedWord h p) ≠ 15 →
    rdField (fetchedWord h p) ≠ 15 → p'.word 15 = fetchAddress p + 4

theorem stepFrame_of_failed (hfail : ¬ Passed h p) : StepFrame h p (armStep h p).2 := by
  have hstep := armStep_of_failed hfail
  have hmem : (armStep h p).2.mem = p.mem := by
    rw [hstep, mem_armException]
    rfl
  refine ⟨fun _ => hmem, ⟨0, hmem ▸ .refl _ _⟩, fun reg hreg hne => ?_, fun hpass => ?_⟩
  · rw [hstep, word_armException_of_ne _ _ _ hreg, fetchedCore, word_armFetch, if_neg hreg] at hne
    exact absurd rfl hne
  · exact absurd hpass hfail

theorem stepFrame_of_passed (hpass : Passed h p) : StepFrame h p (armStep h p).2 := by
  have hframe := frame_selectExecuteInstruction h (fetchedCore h p) (fetchedWord h p)
    (flagOf (armReadCpsr (fetchedCore h p)) bitC)
  rw [← armStep_of_passed hpass] at hframe
  have hmem : (fetchedCore h p).mem = p.mem := rfl
  obtain ⟨hword, hbytes⟩ := hframe
  rw [hmem] at hbytes
  refine ⟨fun hstore => ?_, ⟨_, hbytes.mono fun i hi => hi.2⟩, fun reg hreg hne => ?_, ?_⟩
  · refine (hbytes.mono fun i hi => ?_).eq_of_empty
    exact absurd ⟨hpass, hi.1⟩ hstore
  · refine ⟨hpass, ?_⟩
    have hwritten : reg ∈ writtenRegisters (fetchedWord h p) := by
      by_contra hnot
      rw [hword reg hnot, fetchedCore, word_armFetch, if_neg hreg] at hne
      exact absurd rfl hne
    rcases hwritten with hrd | hrn | ⟨hbranch, hpc | hlink⟩
    · exact Or.inl hrd
    · exact Or.inr (Or.inl hrn)
    · exact absurd hpc hreg
    · exact Or.inr (Or.inr ⟨⟨hbranch, hlink.1⟩, hlink.2⟩)
  · intro _ hbranch hrn hrd
    rw [hword 15, fetchedCore, word_armFetch, if_pos rfl]
    rintro (⟨-, heq⟩ | ⟨-, heq⟩ | ⟨hb, -⟩)
    · exact hrd heq.symm
    · exact hrn heq.symm
    · exact hbranch hb

/-- **The frame of one step.** -/
theorem armStep_frame : StepFrame h p (armStep h p).2 := by
  by_cases hpass : Passed h p
  · exact stepFrame_of_passed h p hpass
  · exact stepFrame_of_failed h p hpass

end

end Armator
