import Armator.Exceptions

/-!
# Loads and stores of one register

A load or store makes its access, which leaves a core (`accessed`), and in some of its forms writes
the address to the base register (`WritesBase`, `transfer_eq`): `LDR_LDRB` in all of them.

* `immediateStore_iff`, `offsetHalf_iff`: stores with an immediate offset and halfword transfers
  are right, unless a big-endian host loses the number.
-/

namespace Armator

/-! ## The access and the base -/

/-- The transfer writes its address to the base register. -/
def WritesBase (ins : Word) : Prop :=
  if ins.extractLsb' 26 2 = 1 then
    ins.getLsbD 20 = true ∨
      ins.getLsbD 25 = false ∧ (ins.getLsbD 24 = false ∨ ins.getLsbD 21 = true)
  else ins.getLsbD 24 = false ∨ ins.getLsbD 21 = true

instance : DecidablePred WritesBase :=
  fun ins => inferInstanceAs (Decidable (if ins.extractLsb' 26 2 = 1 then _ ∨ _ ∧ _ else _ ∨ _))

theorem writesBase_of_loadStore {ins : Word} (hclass : ins.extractLsb' 26 2 = 1) :
    WritesBase ins ↔ ins.getLsbD 20 = true ∨
      ins.getLsbD 25 = false ∧ (ins.getLsbD 24 = false ∨ ins.getLsbD 21 = true) := by
  rw [WritesBase, if_pos hclass]

theorem writesBase_of_half {ins : Word} (hclass : ¬ ins.extractLsb' 26 2 = 1) :
    WritesBase ins ↔ ins.getLsbD 24 = false ∨ ins.getLsbD 21 = true := by
  rw [WritesBase, if_neg hclass]

section
variable (h : Host) (p : ArmCoreData) (ins : Word)

/-- What a load writes to its register. -/
def loadedWord : Word :=
  if ins.extractLsb' 26 2 = 1 then
    if ins.getLsbD 22 then u32 (armReadByte h p (loadStoreAddress h p ins) (h.garbage 8)).2
    else
      let value := (armReadWord h p (loadStoreAddress h p ins) (h.garbage 32)).2
      if rdField ins = 15 then value &&& 0xFFFFFFFE else value
  else u32 (armReadHalf h p (loadStoreHAddress p ins) (h.garbage 16)).2

/-- The core after the access. -/
def accessed : ArmCoreData :=
  if ins.getLsbD 20 then armWriteUsrRegister p (rdField ins) (loadedWord h p ins)
  else { p with mem := ((transferCall h p ins).perform h p.mem).2 }

variable {h p ins}

theorem address_loadStoreCall : (loadStoreCall h p ins).address = loadStoreAddress h p ins := by
  unfold loadStoreCall
  split <;> split <;> rfl

theorem address_loadStoreHCall : (loadStoreHCall h p ins).address = loadStoreHAddress p ins := by
  unfold loadStoreHCall
  split <;> rfl

theorem ldrLdrb_eq (hclass : ins.extractLsb' 26 2 = 1) (hload : ins.getLsbD 20 = true) :
    ldrLdrb h p (u8 ((ins >>> 22) &&& 1)) (loadStoreAddress h p ins) (rdField ins) (rnField ins) =
      armWriteUsrRegister (accessed h p ins) (rnField ins) (loadStoreAddress h p ins) := by
  rw [accessed, hload, if_pos rfl, loadedWord, if_pos hclass]
  unfold ldrLdrb
  simp only [u8_bit_ne_zero]
  split
  · rfl
  · split
    · next h15 => rw [h15]
    · rfl

theorem strStrb_eq (hclass : ins.extractLsb' 26 2 = 1) (hstore : ins.getLsbD 20 = false) :
    strStrb h p (u8 ((ins >>> 22) &&& 1)) (loadStoreAddress h p ins) (rdField ins) =
      accessed h p ins := by
  have hcall : transferCall h p ins = loadStoreCall h p ins := if_pos hclass
  rw [accessed, hstore, hcall, loadStoreCall, hstore]
  unfold strStrb
  simp only [u8_bit_ne_zero, Bool.false_eq_true, if_false]
  split <;> rfl

theorem transfer_of_loadStore (hclass : ins.extractLsb' 26 2 = 1) :
    (transfer h p ins).2 = if WritesBase ins then
      armWriteUsrRegister (accessed h p ins) (rnField ins) (transferCall h p ins).address
      else accessed h p ins := by
  have haddress : (transferCall h p ins).address = loadStoreAddress h p ins :=
    (congrArg Call.address (if_pos hclass)).trans address_loadStoreCall
  rw [transfer, if_pos hclass, haddress]
  simp only [writesBase_of_loadStore hclass]
  cases hload : ins.getLsbD 20 with
  | true =>
    have htwice := armWriteUsrRegister_twice (accessed h p ins) (rnField ins)
      (loadStoreAddress h p ins)
    simp only [armLoadStore, u8_bit_ne_zero, hload, if_true, true_or]
    rw [← rdField, ← rnField, ldrLdrb_eq hclass hload, htwice]
    split
    · rfl
    · split <;> rfl
  | false =>
    simp only [armLoadStore, u8_bit_ne_zero, u8_bit_eq_zero, hload, Bool.false_eq_true, if_false,
      false_or]
    rw [← rdField, ← rnField, strStrb_eq hclass hload]
    cases ins.getLsbD 25 <;> cases ins.getLsbD 24 <;> cases ins.getLsbD 21 <;> rfl

theorem transfer_of_half (hclass : ¬ ins.extractLsb' 26 2 = 1) :
    (transfer h p ins).2 = if WritesBase ins then
      armWriteUsrRegister (accessed h p ins) (rnField ins) (transferCall h p ins).address
      else accessed h p ins := by
  have haddress : (transferCall h p ins).address = loadStoreHAddress p ins :=
    (congrArg Call.address (if_neg hclass)).trans address_loadStoreHCall
  have hcall : transferCall h p ins = loadStoreHCall h p ins := if_neg hclass
  rw [transfer, if_neg hclass, haddress, accessed, hcall, loadedWord, if_neg hclass, loadStoreHCall]
  simp only [writesBase_of_half hclass]
  simp only [armLoadStoreH, u8_bit_ne_zero, u8_bit_eq_zero]
  cases ins.getLsbD 20 <;> cases ins.getLsbD 24 <;> cases ins.getLsbD 21 <;> rfl

theorem transfer_eq :
    (transfer h p ins).2 = if WritesBase ins then
      armWriteUsrRegister (accessed h p ins) (rnField ins) (transferCall h p ins).address
      else accessed h p ins := by
  by_cases hclass : ins.extractLsb' 26 2 = 1
  · exact transfer_of_loadStore hclass
  · exact transfer_of_half hclass

theorem word_transfer (reg : Byte) :
    (transfer h p ins).2.word reg =
      if WritesBase ins ∧ reg = rnField ins then (transferCall h p ins).address
      else if ins.getLsbD 20 = true ∧ reg = rdField ins then loadedWord h p ins
      else p.word reg := by
  have haccess : (accessed h p ins).word reg =
      if ins.getLsbD 20 = true ∧ reg = rdField ins then loadedWord h p ins else p.word reg := by
    rw [accessed]
    cases ins.getLsbD 20 with
    | true => simp only [if_true, true_and, word_armWriteUsrRegister]
    | false => rfl
  rw [transfer_eq, ← haccess]
  by_cases hbase : WritesBase ins
  · rw [if_pos hbase, word_armWriteUsrRegister]
    simp only [hbase, true_and]
  · rw [if_neg hbase, if_neg (fun hboth => hbase hboth.1)]

theorem output_transferCall_of_load (hload : ins.getLsbD 20 = true) :
    (transferCall h p ins).output ≠ none := by
  unfold transferCall loadStoreCall loadStoreHCall
  simp only [hload, if_true]
  split
  · split <;> exact Option.some_ne_none _
  · exact Option.some_ne_none _

theorem output_transferCall_of_store (hstore : ins.getLsbD 20 = false) :
    (transferCall h p ins).output = none := by
  unfold transferCall loadStoreCall loadStoreHCall
  simp only [hstore, Bool.false_eq_true, if_false]
  split
  · split <;> rfl
  · rfl

theorem toNat_loadedWord (hload : ins.getLsbD 20 = true) (h15 : rdField ins ≠ 15) :
    some (loadedWord h p ins).toNat = ((transferCall h p ins).perform h p.mem).1.output := by
  rw [loadedWord, transferCall]
  split
  · simp only [loadStoreCall, hload, if_true]
    split
    · rw [toNat_u32 (by decide)]
      rfl
    · rfl
  · rw [loadStoreHCall, hload, if_pos rfl, toNat_u32 (by decide)]
    rfl

theorem loadedWord_of_output {h' : Host} {p' : ArmCoreData} (hload : ins.getLsbD 20 = true)
    (houtput : ((transferCall h' p' ins).perform h' p'.mem).1.output =
      ((transferCall h p ins).perform h p.mem).1.output) :
    loadedWord h' p' ins = loadedWord h p ins := by
  rw [transferCall, transferCall] at houtput
  rw [loadedWord, loadedWord]
  by_cases hclass : ins.extractLsb' 26 2 = 1
  · rw [if_pos hclass, if_pos hclass, loadStoreCall, loadStoreCall, hload, if_pos rfl, if_pos rfl]
      at houtput
    rw [if_pos hclass, if_pos hclass]
    cases h22 : ins.getLsbD 22 with
    | true =>
      rw [h22, if_pos rfl, if_pos rfl] at houtput
      exact congrArg u32 (BitVec.eq_of_toNat_eq (Option.some.inj houtput))
    | false =>
      rw [h22, if_neg Bool.false_ne_true, if_neg Bool.false_ne_true] at houtput
      have hvalue : (armReadWord h' p' (loadStoreAddress h' p' ins) (h'.garbage 32)).2 =
          (armReadWord h p (loadStoreAddress h p ins) (h.garbage 32)).2 :=
        BitVec.eq_of_toNat_eq (Option.some.inj houtput)
      rw [hvalue]
      rfl
  · rw [if_neg hclass, if_neg hclass, loadStoreHCall, loadStoreHCall, hload, if_pos rfl, if_pos rfl]
      at houtput
    rw [if_neg hclass, if_neg hclass]
    exact congrArg u32 (BitVec.eq_of_toNat_eq (Option.some.inj houtput))

/-- The number of bytes of a transfer. -/
def accessWidth (ins : Word) : Nat :=
  if ins.extractLsb' 26 2 = 1 then (if ins.getLsbD 22 then 1 else 4) else 2

theorem width_transferCall : (transferCall h p ins).width = accessWidth ins := by
  unfold transferCall accessWidth
  split
  · unfold loadStoreCall
    cases ins.getLsbD 20 <;> cases ins.getLsbD 22 <;> rfl
  · unfold loadStoreHCall
    cases ins.getLsbD 20 <;> rfl

theorem toNat_u16_and (v : Word) : (u16 (v &&& 0xFFFF)).toNat = v.toNat % 2 ^ 16 := by
  have hmask : (0xFFFF : Word).toNat = 2 ^ 16 - 1 := rfl
  rw [BitVec.toNat_setWidth, BitVec.toNat_and, hmask, Nat.and_two_pow_sub_one_eq_mod, Nat.mod_mod]

theorem number_transferCall (hstore : ins.getLsbD 20 = false) :
    (transferCall h p ins).number % 256 ^ accessWidth ins =
      (armReadUsrRegister p (rdField ins)).toNat % 256 ^ accessWidth ins := by
  rw [transferCall, accessWidth]
  split
  · rw [loadStoreCall, hstore]
    cases ins.getLsbD 22 with
    | true =>
      show (u8 (armReadUsrRegister p (rdField ins) &&& 0xFF)).toNat % 256 = _ % 256
      rw [u8_and_255 (by decide), BitVec.toNat_setWidth]
      exact Nat.mod_mod _ _
    | false => rfl
  · rw [loadStoreHCall, hstore]
    show (u16 (armReadUsrRegister p (rdField ins) &&& 0xFFFF)).toNat % 256 ^ 2 = _
    rw [toNat_u16_and]
    exact Nat.mod_mod _ _

theorem inside_transferCall {a : Word} {size : Nat} (haddress : (transferCall h p ins).address = a)
    (hin : a.toNat + accessWidth ins ≤ 4 * size) (hal : a.toNat % 4 + accessWidth ins ≤ 4) :
    (transferCall h p ins).Inside size := by
  rw [Call.Inside, Call.aligned_iff, haddress, width_transferCall]
  exact ⟨hin, hal⟩

/-- The number of `n` bytes at an address, in the byte order of the memory. -/
def numberAt (mem : MemoryData) (a : Word) (n : Nat) : Nat :=
  ByteStore.read mem.isBigEndian mem.memo (fun k => a + BitVec.ofNat 32 k) n

theorem place_of_address {c : Call} {a : Word} (haddress : c.address = a) :
    c.place = fun k => a + BitVec.ofNat 32 k := by
  rw [← haddress]
  rfl

theorem frame_perform (mem : MemoryData) (c : Call) :
    MemoryFrame {i | c.Accepted mem.size ∧ c.Covers i} mem (c.perform h mem).2 := by
  by_cases hacc : c.Accepted mem.size
  · by_cases hc : c.output = none
    · rw [Call.perform_write h hc hacc]
      refine ⟨rfl, rfl, fun i hi => ?_⟩
      refine (LastWrite.writeAll_apply _ _ i).trans ?_
      rw [LastWrite.lastWrite_eq_none.mpr, Option.getD_none]
      rintro w hw rfl
      exact hi ⟨hacc, hc, ByteStore.place_of_mem_writes hw⟩
    · rw [Call.perform_read h hc]
      exact .refl _ mem
  · rw [Call.perform_rejected h mem c hacc]
    exact .refl _ mem

theorem frame_transfer {a : Word} (haddress : (transferCall h p ins).address = a) :
    MemoryFrame {i | i ∈ ByteStore.span a (accessWidth ins)} p.mem (transfer h p ins).2.mem := by
  rw [mem_transfer]
  refine (frame_perform p.mem _).mono ?_
  rintro i ⟨-, -, k, hk, rfl⟩
  rw [place_of_address haddress]
  rw [width_transferCall] at hk
  exact (ByteStore.mem_span a).mpr ⟨k, hk, rfl⟩

theorem numberAt_transfer_iff {a : Word} (haddress : (transferCall h p ins).address = a)
    (hin : (transferCall h p ins).Inside p.mem.size) (hstore : ins.getLsbD 20 = false)
    (hrd : (rdField ins).toNat < 15) :
    numberAt (transfer h p ins).2.mem a (accessWidth ins) =
        (p.word (rdField ins)).toNat % 256 ^ accessWidth ins ↔
      (transferCall h p ins).Kept h p.mem.isBigEndian ∨
        (p.word (rdField ins)).toNat % 256 ^ accessWidth ins = 0 := by
  have hread := Call.read_perform_iff h (output_transferCall_of_store hstore) hin.accepted
  rw [width_transferCall, number_transferCall hstore, armReadUsrRegister_of_lt p hrd,
    place_of_address haddress, ← mem_transfer] at hread
  rwa [numberAt, (frame_transfer haddress).isBigEndian]

theorem toNat_loadedWord_iff {a : Word} (haddress : (transferCall h p ins).address = a)
    (hin : (transferCall h p ins).Inside p.mem.size) (hload : ins.getLsbD 20 = true)
    (hrd : (rdField ins).toNat < 15) :
    (loadedWord h p ins).toNat = numberAt p.mem a (accessWidth ins) ↔
      (transferCall h p ins).Kept h p.mem.isBigEndian ∨
        numberAt p.mem a (accessWidth ins) = 0 := by
  have hread := Call.output_perform_iff h (output_transferCall_of_load hload) hin.accepted
  rwa [← toNat_loadedWord hload (ne_15_of_lt hrd), Call.found_eq _ _
    (output_transferCall_of_load hload), Option.some.injEq, Option.some.injEq,
    width_transferCall, place_of_address haddress, ← numberAt] at hread

end

/-! ## Words and bytes -/

def loadStoreWidth (ins : Word) : Nat := if ins.getLsbD 22 then 1 else 4

section
variable {h : Host} {p : ArmCoreData} {ins : Word} (hclass : ins.extractLsb' 26 2 = 1)
include hclass

theorem transfer_loadStore : transfer h p ins = armLoadStore h p ins := if_pos hclass

theorem accessWidth_loadStore : accessWidth ins = loadStoreWidth ins := if_pos hclass

theorem address_loadStore : (transferCall h p ins).address = loadStoreAddress h p ins :=
  (congrArg Call.address (if_pos hclass)).trans address_loadStoreCall

theorem kept_loadStore (be : Bool) :
    (transferCall h p ins).Kept h be ↔
      ins.getLsbD 22 = false ∨ h.bigEndian = false ∨ be = true := by
  rw [Call.Kept, width_transferCall, accessWidth_loadStore hclass, loadStoreWidth]
  cases ins.getLsbD 22 with
  | true => simp
  | false => simp

theorem inside_loadStore
    (hin : (loadStoreAddress h p ins).toNat + loadStoreWidth ins ≤ 4 * p.mem.size)
    (hal : ins.getLsbD 22 = false → (loadStoreAddress h p ins).toNat % 4 = 0) :
    (transferCall h p ins).Inside p.mem.size := by
  refine inside_transferCall (address_loadStore hclass) ?_ ?_
  · rwa [accessWidth_loadStore hclass]
  · rw [accessWidth_loadStore hclass, loadStoreWidth]
    split
    · omega
    · next hbyte => rw [hal (Bool.eq_false_iff.mpr hbyte)]

end

/-! ### Stores with an immediate offset -/

/-- STR and STRB with bit 25 clear and `P = 1`. -/
def IsImmediateStore (ins : Word) : Prop :=
  ins.extractLsb' 26 2 = 1 ∧ ins.getLsbD 25 = false ∧ ins.getLsbD 20 = false ∧
    ins.getLsbD 24 = true

section
variable (h : Host) (p : ArmCoreData) (ins : Word)

def immediateAddress : Word :=
  Arm.moved (ins.getLsbD 23) (p.word (rnField ins)) (u32 (ins.extractLsb' 0 12))

/-- The low bytes of the register are at the address in the byte order of the memory, and the base
is the address if `W = 1`; nothing else has changed. -/
structure StoresOnly : Prop where
  result : (armLoadStore h p ins).1 = 0
  stored : numberAt (armLoadStore h p ins).2.mem (immediateAddress p ins) (loadStoreWidth ins) =
    (p.word (rdField ins)).toNat % 256 ^ loadStoreWidth ins
  mem : MemoryFrame {i | i ∈ ByteStore.span (immediateAddress p ins) (loadStoreWidth ins)} p.mem
    (armLoadStore h p ins).2.mem
  base : (armLoadStore h p ins).2.word (rnField ins) =
    if ins.getLsbD 21 then immediateAddress p ins else p.word (rnField ins)
  others : ∀ reg, reg ≠ rnField ins → (armLoadStore h p ins).2.word reg = p.word reg

variable {h p ins}

theorem u32_u16_offset (ins : Word) : u32 (u16 (ins &&& 4095)) = u32 (ins.extractLsb' 0 12) := by
  have hmask : (4095 : Word).toNat = 2 ^ 12 - 1 := rfl
  apply BitVec.eq_of_toNat_eq
  rw [toNat_u32 (by decide), toNat_u32 (by decide), BitVec.toNat_setWidth, BitVec.toNat_and, hmask,
    Nat.and_two_pow_sub_one_eq_mod, BitVec.extractLsb'_toNat, Nat.shiftRight_zero]
  omega

theorem loadStoreAddress_immediate (himm : ins.getLsbD 25 = false) :
    loadStoreAddress h p ins =
      Arm.moved (ins.getLsbD 23) (armReadUsrRegister p (rnField ins))
        (u32 (ins.extractLsb' 0 12)) := by
  simp only [loadStoreAddress, u8_bit_ne_zero, himm, Bool.false_eq_true, if_false, u32_u16_offset]
  rfl

theorem word_immediateStore (hins : IsImmediateStore ins) (reg : Byte) :
    (armLoadStore h p ins).2.word reg =
      if ins.getLsbD 21 = true ∧ reg = rnField ins then loadStoreAddress h p ins
      else p.word reg := by
  obtain ⟨hclass, himm, hstore, hindex⟩ := hins
  rw [← transfer_loadStore hclass, word_transfer, address_loadStore hclass]
  simp only [writesBase_of_loadStore hclass, hstore, himm, hindex, Bool.false_eq_true, false_or,
    Bool.true_eq_false, true_and, false_and, if_false]

/-- A store with an immediate offset is right unless a big-endian host loses its byte. -/
theorem immediateStore_iff (hins : IsImmediateStore ins) (hrn : (rnField ins).toNat < 15)
    (hrd : (rdField ins).toNat < 15)
    (hin : (immediateAddress p ins).toNat + loadStoreWidth ins ≤ 4 * p.mem.size)
    (hal : ins.getLsbD 22 = false → (immediateAddress p ins).toNat % 4 = 0) :
    StoresOnly h p ins ↔
      ins.getLsbD 22 = false ∨ h.bigEndian = false ∨ p.mem.isBigEndian = true ∨
        (p.word (rdField ins)).toNat % 256 = 0 := by
  have hclass := hins.1
  have haddress : loadStoreAddress h p ins = immediateAddress p ins := by
    rw [loadStoreAddress_immediate hins.2.1, armReadUsrRegister_of_lt p hrn, immediateAddress]
  have hword := word_immediateStore (h := h) (p := p) hins
  have hplace : (transferCall h p ins).address = immediateAddress p ins :=
    (address_loadStore hclass).trans haddress
  have hframe := frame_transfer hplace
  rw [← haddress] at hin hal
  have hstored := numberAt_transfer_iff hplace (inside_loadStore hclass hin hal) hins.2.2.1 hrd
  rw [transfer_loadStore hclass, accessWidth_loadStore hclass] at hframe hstored
  rw [haddress] at hword
  have hcondition : (transferCall h p ins).Kept h p.mem.isBigEndian ∨
      (p.word (rdField ins)).toNat % 256 ^ loadStoreWidth ins = 0 ↔
      ins.getLsbD 22 = false ∨ h.bigEndian = false ∨ p.mem.isBigEndian = true ∨
        (p.word (rdField ins)).toNat % 256 = 0 := by
    rw [kept_loadStore hclass, loadStoreWidth, or_assoc, or_assoc]
    cases ins.getLsbD 22 with
    | true => rfl
    | false => exact iff_of_true (.inl rfl) (.inl rfl)
  rw [← hcondition, ← hstored]
  refine ⟨fun hlaw => hlaw.stored, fun hright => ⟨rfl, hright, hframe, ?_, fun reg hreg => ?_⟩⟩
  · rw [hword]
    simp only [and_true]
  · rw [hword, if_neg (fun hboth => hreg hboth.2)]

end

/-- `STR r1, [r0, #4]`. -/
theorem immediateStore_iff_word : StoresOnly Host.x86 (coreOf 2 [7]) 0xE5801004 :=
  (immediateStore_iff (by unfold IsImmediateStore; decide) (by decide) (by decide) (by decide)
    (by decide)).mpr (by decide)

/-- A core at address 0 of a little-endian memory of one word, with 0x42 in `r1`. -/
def littleEndianCore : ArmCoreData :=
  armWriteUsrRegister { coreAt 0 with mem := memoryCreate 1 false fun _ => 7 } 1 0x42

/-- `STRB r1, [r0]` stores 0 there. -/
theorem immediateStore_iff_lost :
    IsImmediateStore 0xE5C01000 ∧
    (armLoadStore Host.bigEndianHost littleEndianCore 0xE5C01000).2.mem.memo 0 = 0 ∧
    ¬ StoresOnly Host.bigEndianHost littleEndianCore 0xE5C01000 := by
  refine ⟨by unfold IsImmediateStore; decide, by decide, fun hlaw => ?_⟩
  exact absurd hlaw.stored (by decide)

/-! ## Halfwords -/

theorem ne_one_of_half {ins : Word} (hclass : Arm.IsHalfwordTransfer ins) :
    ¬ ins.extractLsb' 26 2 = 1 := by
  rw [hclass.1.1]
  decide

/-- LDRH and STRH with `P = 1`. -/
def IsOffsetHalf (ins : Word) : Prop := Arm.IsHalfwordTransfer ins ∧ ins.getLsbD 24 = true

section
variable (h : Host) (p : ArmCoreData) (ins : Word)

/-- The offset in the two nibbles, or in a register. -/
def halfOffset : Word :=
  if ins.getLsbD 22 then u32 (ins.extractLsb' 8 4 ++ ins.extractLsb' 0 4)
  else armReadUsrRegister p (u8 (ins.extractLsb' 0 4))

def halfAddress : Word := Arm.moved (ins.getLsbD 23) (p.word (rnField ins)) (halfOffset p ins)

/-- A load reads the halfword at the address and leaves the memory, a store writes the low half of
its register there and no other byte; the base is the address if `W = 1`. -/
structure MovesHalf : Prop where
  result : (armLoadStoreH h p ins).1 = 0
  loaded : ins.getLsbD 20 = true →
    ((armLoadStoreH h p ins).2.word (rdField ins)).toNat = numberAt p.mem (halfAddress p ins) 2 ∧
      (armLoadStoreH h p ins).2.mem = p.mem
  stored : ins.getLsbD 20 = false →
    numberAt (armLoadStoreH h p ins).2.mem (halfAddress p ins) 2 =
        (p.word (rdField ins)).toNat % 2 ^ 16 ∧
      MemoryFrame {i | i ∈ ByteStore.span (halfAddress p ins) 2} p.mem (armLoadStoreH h p ins).2.mem
  written : ins.getLsbD 21 = true →
    (armLoadStoreH h p ins).2.word (rnField ins) = halfAddress p ins
  kept : ins.getLsbD 21 = false → ¬ (ins.getLsbD 20 = true ∧ rnField ins = rdField ins) →
    (armLoadStoreH h p ins).2.word (rnField ins) = p.word (rnField ins)

variable {h p ins}

theorem loadStoreHAddress_eq :
    loadStoreHAddress p ins =
      Arm.moved (ins.getLsbD 23) (armReadUsrRegister p (rnField ins)) (halfOffset p ins) := by
  have hlow : u8 (ins &&& 15) = u8 (ins.extractLsb' 0 4) := u8_low_field ins rfl
  have hnibbles : ∀ a b : BitVec 4, (u32 (u8 a) <<< 4) ||| u32 (u8 b) = u32 (a ++ b) := by
    intro a b
    have ha := a.isLt
    have hb := b.isLt
    apply BitVec.eq_of_toNat_eq
    rw [toNat_u32 (by decide), BitVec.toNat_append, BitVec.toNat_or, BitVec.toNat_shiftLeft,
      toNat_u32 (by decide), toNat_u32 (by decide), BitVec.toNat_setWidth_of_le (by decide),
      BitVec.toNat_setWidth_of_le (by decide), Nat.shiftLeft_eq, Nat.mod_eq_of_lt (by omega)]
  simp only [loadStoreHAddress, u8_bit_ne_zero, u8_nibble ins 8, hlow, hnibbles]
  rfl

variable (hins : IsOffsetHalf ins) (hrn : (rnField ins).toNat < 15)
include hins hrn

theorem address_offsetHalf : (transferCall h p ins).address = halfAddress p ins := by
  rw [transferCall, if_neg (ne_one_of_half hins.1), address_loadStoreHCall, loadStoreHAddress_eq,
    armReadUsrRegister_of_lt p hrn, halfAddress]

theorem word_offsetHalf (reg : Byte) :
    (transfer h p ins).2.word reg =
      if ins.getLsbD 21 = true ∧ reg = rnField ins then halfAddress p ins
      else if ins.getLsbD 20 = true ∧ reg = rdField ins then loadedWord h p ins
      else p.word reg := by
  rw [word_transfer, address_offsetHalf hins hrn]
  simp only [writesBase_of_half (ne_one_of_half hins.1), hins.2, Bool.true_eq_false, false_or]

/-- A halfword transfer is right unless a big-endian host loses its halfword. -/
theorem offsetHalf_iff (hrd : (rdField ins).toNat < 15)
    (hbase : ins.getLsbD 20 = true → ins.getLsbD 21 = true → rdField ins ≠ rnField ins)
    (hin : (halfAddress p ins).toNat + 2 ≤ 4 * p.mem.size)
    (hal : (halfAddress p ins).toNat % 4 ≤ 2) :
    MovesHalf h p ins ↔
      h.bigEndian = false ∨ p.mem.isBigEndian = true ∨
        if ins.getLsbD 20 then numberAt p.mem (halfAddress p ins) 2 = 0
        else (p.word (rdField ins)).toNat % 2 ^ 16 = 0 := by
  have htransfer : transfer h p ins = armLoadStoreH h p ins := if_neg (ne_one_of_half hins.1)
  have hwidth : accessWidth ins = 2 := if_neg (ne_one_of_half hins.1)
  have haddress := address_offsetHalf (h := h) (p := p) hins hrn
  have hword := word_offsetHalf (h := h) (p := p) hins hrn
  have hbound : (transferCall h p ins).Inside p.mem.size :=
    inside_transferCall haddress (by rwa [hwidth]) (by omega)
  have hframe := frame_transfer haddress
  have hkeeps : (transferCall h p ins).Kept h p.mem.isBigEndian ↔
      h.bigEndian = false ∨ p.mem.isBigEndian = true := by
    rw [Call.Kept, width_transferCall, hwidth]
    simp
  rw [htransfer] at hword hframe
  rw [hwidth] at hframe
  have hwritten : ins.getLsbD 21 = true →
      (armLoadStoreH h p ins).2.word (rnField ins) = halfAddress p ins := by
    intro hw
    rw [hword, if_pos ⟨hw, rfl⟩]
  have hkept : ins.getLsbD 21 = false → ¬ (ins.getLsbD 20 = true ∧ rnField ins = rdField ins) →
      (armLoadStoreH h p ins).2.word (rnField ins) = p.word (rnField ins) := by
    intro hw hother
    rw [hword, if_neg (fun hboth => Bool.noConfusion (hw.symm.trans hboth.1)), if_neg hother]
  cases hload : ins.getLsbD 20 with
  | true =>
    have hvalue : (armLoadStoreH h p ins).2.word (rdField ins) = loadedWord h p ins := by
      rw [hword, if_neg (fun hboth => hbase hload hboth.1 hboth.2), if_pos ⟨hload, rfl⟩]
    have hmem : (armLoadStoreH h p ins).2.mem = p.mem := by
      rw [← htransfer, mem_transfer, Call.perform_read h (output_transferCall_of_load hload)]
    have hread := toNat_loadedWord_iff haddress hbound hload hrd
    rw [hwidth, ← hvalue, hkeeps] at hread
    rw [if_pos rfl, ← or_assoc, ← hread]
    refine ⟨fun hlaw => (hlaw.loaded hload).1, fun hloaded => ?_⟩
    refine ⟨rfl, fun _ => ⟨hloaded, hmem⟩, fun hstore => ?_, hwritten, hkept⟩
    exact Bool.noConfusion (hload.symm.trans hstore)
  | false =>
    have hread := numberAt_transfer_iff haddress hbound hload hrd
    rw [hkeeps, htransfer, hwidth] at hread
    rw [if_neg Bool.false_ne_true, ← or_assoc]
    refine Iff.trans ?_ hread
    refine ⟨fun hlaw => (hlaw.stored hload).1, fun hstored => ?_⟩
    refine ⟨rfl, fun hl => ?_, fun _ => ⟨hstored, hframe⟩, hwritten, hkept⟩
    exact Bool.noConfusion (hload.symm.trans hl)

end

/-- `STRH r1, [r0, #2]`. -/
theorem offsetHalf_iff_store : MovesHalf Host.x86 (coreOf 2 [7]) 0xE1C010B2 :=
  (offsetHalf_iff (by unfold IsOffsetHalf; decide) (by decide) (by decide) (by decide) (by decide)
    (by decide)).mpr (by decide)

/-- `STRH r1, [r0]` stores 0 there. -/
theorem offsetHalf_iff_lost :
    IsOffsetHalf 0xE1C010B0 ∧
    numberAt (armLoadStoreH Host.bigEndianHost littleEndianCore 0xE1C010B0).2.mem 0 2 = 0 ∧
    ¬ MovesHalf Host.bigEndianHost littleEndianCore 0xE1C010B0 := by
  refine ⟨by unfold IsOffsetHalf; decide, by decide, fun hlaw => ?_⟩
  exact absurd (hlaw.stored (by decide)).1 (by decide)

end Armator
