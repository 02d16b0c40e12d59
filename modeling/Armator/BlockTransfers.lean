import Armator.Transfers

/-!
# Block transfers

`arm_load_store_multiple` takes the list of registers from bit 16 of the instruction, and converts it
to a byte, so the list is always empty and the function does nothing (`armLoadStoreMultiple_eq`).
`blockTransfer_iff` says when that is the transfer asked for: without write-back, if every word is
already where it should go. Of other lists `init_addresses` would count the registers 0 to 14
(`addressRange_iff`).
-/

namespace Armator

open Arm (moved moved_eq_base registersOf blockStart blockIndex)

/-! ## The range of addresses -/

theorem half_bit_eq_zero (x : Half) : (x &&& 1) % 2 = 0 ↔ x.getLsbD 0 = false := by
  have hone : (1 : Half).toNat = 2 ^ 1 - 1 := rfl
  have htwo : (2 : Half).toNat = 2 := rfl
  rw [← BitVec.toNat_inj, BitVec.toNat_umod, BitVec.toNat_and, hone,
    Nat.and_two_pow_sub_one_eq_mod, htwo, BitVec.getLsbD, Nat.testBit_zero, decide_eq_false_iff_not]
  change x.toNat % 2 % 2 = 0 ↔ _
  omega

theorem numberOfRegisters_turns (list : Half) (n : Nat) :
    (List.range n).foldl (fun (s : Half × Word) _ =>
      if (s.1 &&& 1) % 2 = 0 then (s.1 >>> 1, s.2) else (s.1 >>> 1, s.2 + 1)) (list, 0) =
      (list >>> n, BitVec.ofNat 32 (blockIndex list n)) := by
  induction n with
  | zero => rfl
  | succ n ih =>
    have hshift : list >>> n >>> 1 = list >>> (n + 1) := (BitVec.shiftRight_add ..).symm
    rw [List.range_succ, List.foldl_append, ih, List.foldl_cons, List.foldl_nil, Arm.blockIndex_succ]
    simp only [half_bit_eq_zero, BitVec.getLsbD_ushiftRight, Nat.add_zero, hshift]
    cases list.getLsbD n with
    | false => rfl
    | true =>
      rw [if_neg (by decide), Bool.toNat_true, BitVec.ofNat_add]
      rfl

theorem numberOfRegisters_eq (list : Half) :
    numberOfRegisters list = BitVec.ofNat 32 (blockIndex list 15) := by
  rw [numberOfRegisters, numberOfRegisters_turns]

section
variable (p : ArmCoreData) (a b : Word) (rnBit : Byte) (mode : BitVec 2) (list : Half)

theorem initAddresses_eq :
    initAddresses p a b (u8 mode) rnBit list =
      let start := blockStart (mode.getLsbD 1) (mode.getLsbD 0) (armReadUsrRegister p rnBit)
        (blockIndex list 15)
      (start, start + BitVec.ofNat 32 (4 * blockIndex list 15) - 4) := by
  have hbytes : BitVec.ofNat 32 (blockIndex list 15) * 4 =
      BitVec.ofNat 32 (4 * blockIndex list 15) := by
    rw [Nat.mul_comm, BitVec.ofNat_mul]
    rfl
  have hmode : mode = 0 ∨ mode = 1 ∨ mode = 2 ∨ mode = 3 := by
    revert mode
    decide
  unfold initAddresses
  rw [numberOfRegisters_eq, hbytes]
  rcases hmode with rfl | rfl | rfl | rfl
  · refine Prod.ext rfl ?_
    show armReadUsrRegister p rnBit = armReadUsrRegister p rnBit - _ + 4 + _ - 4
    bv_omega
  · rfl
  · refine Prod.ext rfl ?_
    show armReadUsrRegister p rnBit - 4 = armReadUsrRegister p rnBit - _ + _ - 4
    rw [BitVec.sub_add_cancel]
  · refine Prod.ext rfl ?_
    show armReadUsrRegister p rnBit + _ = armReadUsrRegister p rnBit + 4 + _ - 4
    bv_omega

/-- The range is one of `n` words at the place of a block of `n` words, for the `n` registers of the
list. -/
structure CoversBlock : Prop where
  start : (initAddresses p a b (u8 mode) rnBit list).1 =
    blockStart (mode.getLsbD 1) (mode.getLsbD 0) (armReadUsrRegister p rnBit)
      (registersOf list).length
  bytes : (initAddresses p a b (u8 mode) rnBit list).2 -
    (initAddresses p a b (u8 mode) rnBit list).1 + 4 =
      BitVec.ofNat 32 (4 * (registersOf list).length)

theorem bytes_initAddresses :
    (initAddresses p a b (u8 mode) rnBit list).2 -
      (initAddresses p a b (u8 mode) rnBit list).1 + 4 =
        BitVec.ofNat 32 (4 * blockIndex list 15) := by
  rw [initAddresses_eq]
  dsimp only
  bv_omega

/-- **The range of addresses** is right exactly if register 15 is not in the list: the loop of
`number_of_registers` looks at 15 bits. -/
theorem addressRange_iff :
    CoversBlock p a b rnBit mode list ↔ list.getLsbD 15 = false := by
  have hlength := Arm.length_registersOf list
  constructor
  · intro hcovers
    have hbytes := (bytes_initAddresses p a b rnBit mode list).symm.trans hcovers.bytes
    have hle := Arm.length_registersOf_le list
    rw [← BitVec.toNat_inj, BitVec.toNat_ofNat, BitVec.toNat_ofNat] at hbytes
    cases hbit : list.getLsbD 15 with
    | false => rfl
    | true =>
      rw [hbit, Bool.toNat_true] at hlength
      omega
  · intro hbit
    rw [hbit, Bool.toNat_false, Nat.add_zero] at hlength
    constructor
    · rw [hlength, initAddresses_eq]
    · rw [hlength, bytes_initAddresses]

end

/-- The range of `r15` alone has no word. -/
theorem addressRange_iff_pc :
    (initAddresses (coreAt 0) 0 0 1 0 0x8000).2 - (initAddresses (coreAt 0) 0 0 1 0 0x8000).1 + 4 =
      0 ∧ ¬ CoversBlock (coreAt 0) 0 0 0 1 0x8000 := by
  have hnone : (initAddresses (coreAt 0) 0 0 1 0 0x8000).2 -
      (initAddresses (coreAt 0) 0 0 1 0 0x8000).1 + 4 = 0 :=
    bytes_initAddresses (coreAt 0) 0 0 0 1 0x8000
  exact ⟨hnone, fun hcovers => absurd (hnone.symm.trans hcovers.bytes) (by decide)⟩

/-! ## The empty list -/

/-- The list of the source is empty. -/
theorem registerList_eq (ins : Word) : u16 (u8 (ins &&& 65536)) = 0 := by
  apply BitVec.eq_of_getLsbD_eq
  intro i hi
  have hmask : ∀ j < 8, (65536 : Word).getLsbD j = false := by decide
  rw [BitVec.getLsbD_setWidth, BitVec.getLsbD_setWidth, BitVec.getLsbD_and]
  by_cases hlow : i < 8
  · rw [hmask i hlow, Bool.and_false, Bool.and_false, Bool.and_false]
    exact (BitVec.getLsbD_zero).symm
  · rw [decide_eq_false hlow, Bool.false_and, Bool.and_false]
    exact (BitVec.getLsbD_zero).symm

theorem bit23_eq (ins : Word) : u8 ((ins >>> 23) &&& 2) = 0 ∨ u8 ((ins >>> 23) &&& 2) = 2 := by
  have htwo : (2 : Word) = BitVec.twoPow 32 1 := rfl
  rw [htwo, BitVec.and_twoPow]
  split
  · exact .inr rfl
  · exact .inl rfl

theorem initAddresses_zero (p : ArmCoreData) (a b : Word) (rnBit : Byte) {bit23 : Byte}
    (hbit : bit23 = 0 ∨ bit23 = 2) :
    (initAddresses p a b bit23 rnBit 0).2 = (initAddresses p a b bit23 rnBit 0).1 - 4 := by
  have hempty : ∀ mode : BitVec 2, (initAddresses p a b (u8 mode) rnBit 0).2 =
      (initAddresses p a b (u8 mode) rnBit 0).1 - 4 := by
    intro mode
    rw [initAddresses_eq]
    exact congrArg (· - 4) (BitVec.add_zero _)
  rcases hbit with rfl | rfl
  · exact hempty 0
  · exact hempty 2

theorem armLoadStoreMultiple_eq (h : Host) (p : ArmCoreData) (ins : Word) :
    armLoadStoreMultiple h p ins = (0, p) := by
  have hbit : ∀ i : Nat, ¬ ((0 : Half) >>> i) &&& 1 ≠ 0 := by
    intro i
    rw [not_not, show (0 : Half) >>> i = 0#16 from BitVec.zero_ushiftRight]
    exact BitVec.zero_and
  have hload : ∀ s, (List.range 15).foldl (loadTurn h 0) s = s :=
    fun s => List.foldl_fixed' (fun i => if_neg (hbit i)) (List.range 15)
  have hstore : ∀ rdBit s, (List.range 15).foldl (storeTurn h rdBit 0) s = s :=
    fun rdBit s => List.foldl_fixed' (fun i => if_neg (hbit i)) (List.range 15)
  have hpc : ∀ s, loadPc h 0 s = s := fun s => if_neg (hbit 15)
  have hend := initAddresses_zero p (h.garbage 32) (h.garbage 32) (u8 ((ins >>> 16) &&& 15))
    (bit23_eq ins)
  unfold armLoadStoreMultiple
  simp only [registerList_eq, hload, hstore, hpc, hend, ne_eq, not_true_eq_false, if_false, ite_self]

/-! ## The transfer asked for -/

section
variable (h : Host) (p : ArmCoreData) (ins : Word)

def blockList : Half := ins.extractLsb' 0 16

def blockBytes : Nat := 4 * (registersOf (blockList ins)).length

/-- The lowest address of the block. -/
def blockBase : Word :=
  blockStart (ins.getLsbD 24) (ins.getLsbD 23) (p.word (rnField ins))
    (registersOf (blockList ins)).length

/-- The address of the word of a register. -/
def blockAddress (i : Nat) : Word := blockBase p ins + BitVec.ofNat 32 (4 * blockIndex (blockList ins) i)

/-- What a load puts into a register; the lowest bit of the program counter is cleared. -/
def blockWord (i : Nat) : Word :=
  let w := BitVec.ofNat 32 (numberAt p.mem (blockAddress p ins i) 4)
  if i = 15 then w &&& 0xFFFFFFFE else w

/-- `LDM` loads the words of the block into the registers of the list, `STM` stores these registers
to the block, and nothing else changes but the base, if it is written back. -/
structure TransfersBlock : Prop where
  result : (armLoadStoreMultiple h p ins).1 = 0
  loaded : ins.getLsbD 20 = true → ∀ i ∈ registersOf (blockList ins),
    (armLoadStoreMultiple h p ins).2.word (BitVec.ofNat 8 i) = blockWord p ins i
  kept : ins.getLsbD 20 = true → (armLoadStoreMultiple h p ins).2.mem = p.mem
  stored : ins.getLsbD 20 = false → ∀ i ∈ registersOf (blockList ins),
    numberAt (armLoadStoreMultiple h p ins).2.mem (blockAddress p ins i) 4 =
      (armReadUsrRegister p (BitVec.ofNat 8 i)).toNat
  frame : ins.getLsbD 20 = false →
    MemoryFrame {a | a ∈ ByteStore.span (blockBase p ins) (blockBytes ins)} p.mem
      (armLoadStoreMultiple h p ins).2.mem
  base : (armLoadStoreMultiple h p ins).2.word (rnField ins) =
    if ins.getLsbD 21 then
      moved (ins.getLsbD 23) (p.word (rnField ins)) (BitVec.ofNat 32 (blockBytes ins))
    else p.word (rnField ins)
  others : ∀ reg, reg ≠ rnField ins →
    (ins.getLsbD 20 = true → reg.toNat ∉ registersOf (blockList ins)) →
    (armLoadStoreMultiple h p ins).2.word reg = p.word reg

/-- The registers of a load hold the words of the block already, or the block the registers of a
store. -/
def InPlace : Prop :=
  ∀ i ∈ registersOf (blockList ins),
    if ins.getLsbD 20 then p.word (BitVec.ofNat 8 i) = blockWord p ins i
    else numberAt p.mem (blockAddress p ins i) 4 = (armReadUsrRegister p (BitVec.ofNat 8 i)).toNat

variable {h p ins}

theorem blockBytes_ne_zero (hlist : blockList ins ≠ 0) : BitVec.ofNat 32 (blockBytes ins) ≠ 0#32 := by
  have hpos := Arm.length_registersOf_pos hlist
  have hle := Arm.length_registersOf_le (blockList ins)
  rw [ne_eq, ← BitVec.toNat_inj, BitVec.toNat_ofNat, blockBytes]
  change ¬ _ = 0
  omega

/-- **Block transfers**: nothing is transferred, which is right exactly if everything is in place and
the base is not written back. -/
theorem blockTransfer_iff (hlist : blockList ins ≠ 0) :
    TransfersBlock h p ins ↔ ins.getLsbD 21 = false ∧ InPlace p ins := by
  have hnothing := armLoadStoreMultiple_eq h p ins
  constructor
  · intro hlaw
    refine ⟨?_, fun i hi => ?_⟩
    · have hbase := hlaw.base
      rw [hnothing] at hbase
      by_contra hback
      rw [if_pos (Bool.not_eq_false _ ▸ hback), eq_comm, moved_eq_base] at hbase
      exact blockBytes_ne_zero hlist hbase
    · cases hload : ins.getLsbD 20 with
      | true =>
        have hloaded := hlaw.loaded hload i hi
        rwa [hnothing] at hloaded
      | false =>
        have hstored := hlaw.stored hload i hi
        rwa [hnothing] at hstored
  · rintro ⟨hback, hplace⟩
    have hsnd : (armLoadStoreMultiple h p ins).2 = p := congrArg Prod.snd hnothing
    constructor
    · rw [hnothing]
    · intro hload i hi
      have hi' := hplace i hi
      rw [if_pos hload] at hi'
      rw [hsnd, hi']
    · intro _
      rw [hsnd]
    · intro hstore i hi
      have hi' := hplace i hi
      rw [if_neg (Bool.eq_false_iff.mp hstore)] at hi'
      rw [hsnd, hi']
    · intro _
      rw [hsnd]
      exact .refl _ _
    · rw [hsnd, if_neg (Bool.eq_false_iff.mp hback)]
    · intro reg _ _
      rw [hsnd]

end

/-- `LDMIA r0, {r1}` of a word that is in `r1`. -/
theorem blockTransfer_iff_same : TransfersBlock Host.x86 (coreOf 2 [0]) 0xE8900002 :=
  (blockTransfer_iff (by decide)).mpr ⟨by decide, by unfold InPlace; decide⟩

/-- `LDMIA r0, {r1}` leaves `r1` as it was. -/
theorem blockTransfer_iff_load :
    blockWord (coreOf 2 [7]) 0xE8900002 1 = 7 ∧
    (armLoadStoreMultiple Host.x86 (coreOf 2 [7]) 0xE8900002).2.word 1 = 0 ∧
    ¬ TransfersBlock Host.x86 (coreOf 2 [7]) 0xE8900002 := by
  have hzero : (armLoadStoreMultiple Host.x86 (coreOf 2 [7]) 0xE8900002).2.word 1 = 0 := by
    rw [armLoadStoreMultiple_eq]
    decide
  have hseven : blockWord (coreOf 2 [7]) 0xE8900002 1 = 7 := by decide
  refine ⟨hseven, hzero, fun hlaw => ?_⟩
  have hloaded := hlaw.loaded (by decide) 1 (by decide)
  rw [hseven] at hloaded
  exact absurd (hloaded.symm.trans hzero) (by decide)

end Armator
