import Armator.Transfers

/-!
# Stored data over runs

A step changes a byte of the memory only by an accepted store that covers it (`memo_stepped`), so
the bytes of a number stay through every run without such a store (`kept_run`). With the
transfers at both ends, which compute their addresses and their bytes by the same functions, the
number stored is the number loaded.
-/

namespace Armator

/-! ## What a step does to a byte -/

section
variable {h : Host} {p : ArmCoreData}

theorem stepped_of_loadStore (hpass : Passed h p) (hls : IsLoadStore (fetchedWord h p)) :
    stepped h p = (transfer h (fetchedCore h p) (fetchedWord h p)).2 := by
  rw [stepped, armStep_of_passed hpass, selectExecuteInstruction, selectInstruction_eq, transfer]
  rcases hls with htype | ⟨htype, hbits⟩
  · rw [htype, if_pos rfl]
    rfl
  · have hne : ¬ (0 : BitVec 2) = 1 := by decide
    rw [htype, if_neg hne]
    exact congrArg Prod.snd (if_pos hbits)

/-- The access of the load or store a step executes. -/
def stepCall (h : Host) (p : ArmCoreData) : Call :=
  transferCall h (fetchedCore h p) (fetchedWord h p)

theorem mem_stepped_of_loadStore (hpass : Passed h p) (hls : IsLoadStore (fetchedWord h p)) :
    (stepped h p).mem = ((stepCall h p).perform h p.mem).2 := by
  rw [stepped_of_loadStore hpass hls, mem_transfer]
  rfl

/-- The step executes a store that is accepted and covers the byte. -/
def StoresTo (h : Host) (p : ArmCoreData) (i : Word) : Prop :=
  Passed h p ∧ IsStore (fetchedWord h p) ∧ (stepCall h p).Accepted p.mem.size ∧
    (stepCall h p).Covers i

theorem frame_stepped (h : Host) (p : ArmCoreData) :
    MemoryFrame {i | StoresTo h p i} p.mem (stepped h p).mem := by
  by_cases hstore : Passed h p ∧ IsStore (fetchedWord h p)
  · obtain ⟨hpass, hls⟩ := hstore
    rw [mem_stepped_of_loadStore hpass hls.1]
    refine (frame_perform p.mem (stepCall h p)).mono fun i hi => ?_
    exact ⟨hpass, hls, hi.1, hi.2⟩
  · rw [stepped, (armStep_frame h p).memory hstore]
    exact .refl _ _

theorem frame_run (h : Host) (p : ArmCoreData) (n : Nat) :
    MemoryFrame {i | ∃ k < n, StoresTo h ((stepped h)^[k] p) i} p.mem ((stepped h)^[n] p).mem := by
  induction n with
  | zero => exact .refl _ _
  | succ n ih =>
    rw [Function.iterate_succ_apply']
    have hlast := frame_stepped h ((stepped h)^[n] p)
    refine ⟨hlast.size.trans ih.size, hlast.isBigEndian.trans ih.isBigEndian, fun i hi => ?_⟩
    rw [hlast.memo i fun hn => hi ⟨n, Nat.lt_succ_self n, hn⟩]
    exact ih.memo i fun ⟨k, hk, hstore⟩ => hi ⟨k, Nat.lt_succ_of_lt hk, hstore⟩

end

theorem word_transfer_load {h : Host} {p : ArmCoreData} {ins : Word} (hload : ins.getLsbD 20 = true)
    (h15 : rdField ins ≠ 15) (hbase : rdField ins ≠ rnField ins) :
    some ((transfer h p ins).2.word (rdField ins)).toNat =
      ((transferCall h p ins).perform h p.mem).1.output := by
  rw [word_transfer, if_neg (fun hboth => hbase hboth.2), if_pos ⟨hload, rfl⟩,
    toNat_loadedWord hload h15]

/-! ## Store, run, load -/

/-- The widths of a transfer. -/
inductive TransferWidth where
  | byte
  | half
  | word
  deriving DecidableEq

def TransferWidth.bytes : TransferWidth → Nat
  | byte => 1
  | half => 2
  | word => 4

/-- A load or store of a width with an immediate offset and no writeback. -/
def IsOffsetTransfer (width : TransferWidth) (mot : Word) : Prop :=
  mot.getLsbD 24 = true ∧ mot.getLsbD 21 = false ∧
  match width with
  | .byte => mot.extractLsb' 26 2 = 1 ∧ mot.getLsbD 25 = false ∧ mot.getLsbD 22 = true
  | .half => Arm.IsHalfwordTransfer mot ∧ mot.getLsbD 22 = true
  | .word => mot.extractLsb' 26 2 = 1 ∧ mot.getLsbD 25 = false ∧ mot.getLsbD 22 = false

section
variable {h : Host} {p : ArmCoreData} {width : TransferWidth} {ins : Word}

theorem isLoadStore_of_offset (hins : IsOffsetTransfer width ins) : IsLoadStore ins := by
  obtain ⟨-, -, hclass⟩ := hins
  cases width with
  | byte => exact Or.inl hclass.1
  | half => exact Or.inr ⟨hclass.1.1.1, hclass.1.1.2.2⟩
  | word => exact Or.inl hclass.1

theorem accessWidth_of_offset (hins : IsOffsetTransfer width ins) :
    accessWidth ins = width.bytes := by
  obtain ⟨-, -, hclass⟩ := hins
  cases width with
  | byte => rw [accessWidth, if_pos hclass.1, if_pos hclass.2.2, TransferWidth.bytes]
  | half => rw [accessWidth, if_neg (ne_one_of_half hclass.1), TransferWidth.bytes]
  | word =>
    rw [accessWidth, if_pos hclass.1, hclass.2.2, if_neg Bool.false_ne_true, TransferWidth.bytes]

end

/-- The step executes a store, or a load, of a width with an immediate offset and no writeback. -/
def StepsTransfer (h : Host) (p : ArmCoreData) (width : TransferWidth) (load : Bool) : Prop :=
  Passed h p ∧ IsOffsetTransfer width (fetchedWord h p) ∧ (fetchedWord h p).getLsbD 20 = load

section
variable {h : Host} {p q : ArmCoreData} {width : TransferWidth}

theorem mem_of_store (hle : h.bigEndian = false) (hstore : StepsTransfer h p width false)
    (hin : (stepCall h p).Inside p.mem.size) :
    (stepped h p).mem = p.mem.withMemo
      (LastWrite.writeAll p.mem.memo ((stepCall h p).writes p.mem.isBigEndian)) := by
  obtain ⟨hpass, hins, -⟩ := hstore
  rw [mem_stepped_of_loadStore hpass (isLoadStore_of_offset hins),
    Call.perform_accepted h hle p.mem _ hin.accepted]
  rfl

theorem word_of_load (hle : h.bigEndian = false) (hload : StepsTransfer h q width true)
    (hin : (stepCall h q).Inside q.mem.size) (h15 : rdField (fetchedWord h q) ≠ 15)
    (hbase : rdField (fetchedWord h q) ≠ rnField (fetchedWord h q)) :
    some ((stepped h q).word (rdField (fetchedWord h q))).toNat =
      (stepCall h q).found q.mem.isBigEndian q.mem.memo := by
  obtain ⟨hpass, hins, hbit⟩ := hload
  have hperform : (stepCall h q).perform h (fetchedCore h q).mem = _ :=
    Call.perform_accepted h hle q.mem _ hin.accepted
  rw [stepped_of_loadStore hpass (isLoadStore_of_offset hins),
    word_transfer_load hbit h15 hbase, ← stepCall, hperform]
  rfl

theorem armReadUsrRegister_fetchedCore {reg : Byte} (hreg : reg.toNat < 15) :
    armReadUsrRegister (fetchedCore h p) reg = p.word reg := by
  rw [armReadUsrRegister_of_lt _ hreg, fetchedCore, word_armFetch, if_neg (ne_15_of_lt hreg)]

end

/-- **Stored data persists**: after a store in the buffer and any run of steps none of which
executes an accepted store to its bytes, a load of the same width and address leaves the low bytes
stored in its register. -/
theorem stored_persists (h : Host) (hle : h.bigEndian = false) (p q : ArmCoreData)
    (width : TransferWidth) (n : Nat) (hstore : StepsTransfer h p width false)
    (hrd : (rdField (fetchedWord h p)).toNat < 15) (hin : (stepCall h p).Inside p.mem.size)
    (hq : q = (stepped h)^[n] (stepped h p))
    (hrun : ∀ k < n, ∀ i, (stepCall h p).Covers i → ¬ StoresTo h ((stepped h)^[k] (stepped h p)) i)
    (hload : StepsTransfer h q width true)
    (haddress : (stepCall h q).address = (stepCall h p).address)
    (h15 : rdField (fetchedWord h q) ≠ 15)
    (hbase : rdField (fetchedWord h q) ≠ rnField (fetchedWord h q)) :
    ((stepped h q).word (rdField (fetchedWord h q))).toNat =
      (p.word (rdField (fetchedWord h p))).toNat % 256 ^ width.bytes := by
  have hwrite : (stepCall h p).output = none := output_transferCall_of_store hstore.2.2
  have hread : (stepCall h q).output ≠ none := output_transferCall_of_load hload.2.2
  have hwidth : (stepCall h p).width = width.bytes :=
    width_transferCall.trans (accessWidth_of_offset hstore.2.1)
  have hwidth' : (stepCall h q).width = width.bytes :=
    width_transferCall.trans (accessWidth_of_offset hload.2.1)
  have hnumber := number_transferCall (h := h) (p := fetchedCore h p) hstore.2.2
  rw [accessWidth_of_offset hstore.2.1, ← stepCall] at hnumber
  have hsame : (stepCall h q).width = (stepCall h p).width := hwidth'.trans hwidth.symm
  have hmem := mem_of_store hle hstore hin
  have hkept := frame_run h (stepped h p) n
  rw [← hq] at hkept
  have hsize : q.mem.size = p.mem.size := by rw [hkept.size, hmem]; rfl
  have hbe : q.mem.isBigEndian = p.mem.isBigEndian := by rw [hkept.isBigEndian, hmem]; rfl
  have hin' : (stepCall h q).Inside q.mem.size := by
    rw [hsize]
    exact hin.of_same haddress hsame
  have hbytes : ∀ k < (stepCall h p).width,
      q.mem.memo ((stepCall h p).place k) = (stepped h p).mem.memo ((stepCall h p).place k) :=
    fun k hk => hkept.memo _ fun ⟨j, hj, hst⟩ => hrun j hj _ ⟨hwrite, k, hk, rfl⟩ hst
  have hfound := word_of_load hle hload hin' h15 hbase
  rw [hbe, Call.found_congr hread haddress hsame hbytes, hmem] at hfound
  have hvalue := hfound.trans (Call.found_writeAll p.mem.isBigEndian p.mem.memo hwrite hread
    haddress hsame)
  rw [Option.some.inj hvalue, hwidth, hnumber, armReadUsrRegister_fetchedCore hrd]

/-- `STRB r1, [r2, #16]`, `MOV r3, #1`, `LDRB r4, [r2, #16]`, with 0x12345678 in `r1`. -/
def persistentCore : ArmCoreData :=
  armWriteUsrRegister (coreOf 8 [0xE5C21010, 0xE3A03001, 0xE5D24010]) 1 0x12345678

theorem stored_persists_byte :
    ((stepped Host.x86 (stepped Host.x86 (stepped Host.x86 persistentCore))).word 4).toNat = 0x78 := by
  have hrun : ∀ k < 1, ∀ i, (stepCall Host.x86 persistentCore).Covers i →
      ¬ StoresTo Host.x86 ((stepped Host.x86)^[k] (stepped Host.x86 persistentCore)) i := by
    rintro k hk i - ⟨-, hstore, -⟩
    obtain rfl : k = 0 := by omega
    unfold IsStore IsLoadStore at hstore
    exact absurd hstore.1 (by decide)
  exact stored_persists Host.x86 rfl persistentCore
    (stepped Host.x86 (stepped Host.x86 persistentCore)) .byte 1
    ⟨by unfold Passed; decide, by unfold IsOffsetTransfer; decide, by decide⟩ (by decide)
    ⟨by decide, trivial⟩ rfl hrun
    ⟨by unfold Passed; decide, by unfold IsOffsetTransfer; decide, by decide⟩ (by decide) (by decide)
    (by decide)

end Armator
