import Armator.ShifterOperand
import Armator.Transfers

/-!
# Addressing modes

The indexed forms of a load or store against the addressing modes of the architecture, and its two
forms of an offset against each other. The source always accesses the moved base, and a store with a
register offset never writes it back.

* `scaledIndex_iff`: a register offset is right unless its amount is 0.
* `offsetLoad_iff`: a load in offset form changes its base.
* `indexed_iff`: a post-indexed transfer is right only if its offset is 0.
* `offsetForms_iff`: and the two forms agree except for a store that should write back.
-/

namespace Armator

open Arm (Shift moved moved_inj moved_eq_base moved_zero)

/-! ## Offsets -/

section
variable (h : Host) (p : ArmCoreData) (ins : Word)

/-- The value of `Rm`. -/
def offsetRegister : Word := armReadUsrRegister p (u8 (ins.extractLsb' 0 4))

def offsetShift : Shift := .ofBits (ins.extractLsb' 5 2)

def offsetAmount : Nat := (ins.extractLsb' 7 5).toNat

/-- The register offset of the addressing mode: a shift by 32, or RRX, for some of the amounts 0. -/
def scaledIndex : Word :=
  ((offsetShift ins).byImmediate ((armReadCpsr p).getLsbD 29) (offsetRegister p ins)
    (offsetAmount ins)).1

/-- The offset of the addressing mode. -/
def offset : Word :=
  if ins.extractLsb' 26 2 = 1 then
    if ins.getLsbD 25 then
      ((offsetShift ins).byImmediate ((armReadCpsr p).getLsbD 29) (offsetRegister p ins)
        (offsetAmount ins)).1
    else u32 (ins.extractLsb' 0 12)
  else halfOffset p ins

/-- The offset of the source. -/
def sourceOffset : Word :=
  if ins.extractLsb' 26 2 = 1 then
    if ins.getLsbD 25 then loadStoreOffsetReg h p ins else u32 (ins.extractLsb' 0 12)
  else halfOffset p ins

/-- What a shift by the amount 0 makes of `Rm` in the source. -/
def unshifted (x : Word) : Shift → Word
  | .lsl | .lsr => x
  | .asr => x ||| if x.msb then h.shlOut (~~~0) 32 else 0
  | .ror => x ||| h.shlOut x 32

/-- When the source shifts a register offset as the architecture does: it has no special amount
0. -/
def RightScale (c : Bool) (x : Word) (n : Nat) : Shift → Prop
  | .lsl => True
  | .lsr => n = 0 → x = 0#32
  | .asr => n = 0 → if x.msb then x ||| h.shlOut (~~~0) 32 = ~~~0 else x = 0#32
  | .ror => n = 0 → x ||| h.shlOut x 32 = Shift.rrx c x

instance (c : Bool) (x : Word) (n : Nat) : (s : Shift) → Decidable (RightScale h c x n s)
  | .lsl => inferInstanceAs (Decidable True)
  | .lsr => inferInstanceAs (Decidable (_ → _))
  | .asr => inferInstanceAs
    (Decidable (n = 0 → if x.msb then x ||| h.shlOut (~~~0) 32 = ~~~0 else x = 0#32))
  | .ror => inferInstanceAs (Decidable (_ → _))

def RightOffset : Prop :=
  ins.extractLsb' 26 2 = 1 → ins.getLsbD 25 = true →
    RightScale h ((armReadCpsr p).getLsbD 29) (offsetRegister p ins) (offsetAmount ins)
      (offsetShift ins)

instance : Decidable (RightOffset h p ins) := inferInstanceAs (Decidable (_ → _ → _))

theorem offsetAmount_lt : offsetAmount ins < 32 := (ins.extractLsb' 7 5).isLt

theorem toNat_u8_offsetAmount : (u8 (ins.extractLsb' 7 5)).toNat = offsetAmount ins :=
  BitVec.toNat_setWidth_of_le (by decide)

variable {h p ins}

theorem loadStoreOffsetReg_eq :
    loadStoreOffsetReg h p ins =
      match offsetShift ins with
      | .lsl => offsetRegister p ins <<< offsetAmount ins
      | .lsr => offsetRegister p ins >>> offsetAmount ins
      | .asr => asr h (offsetRegister p ins) (u8 (ins.extractLsb' 7 5))
      | .ror => ror h (offsetRegister p ins) (u8 (ins.extractLsb' 7 5)) := by
  have hlt := offsetAmount_lt ins
  have hcount := toNat_u8_offsetAmount ins
  have hrm : u8 (ins &&& 15) = u8 (ins.extractLsb' 0 4) := u8_low_field ins rfl
  have hshift : u8 ((ins >>> 5) &&& 3) = u8 (ins.extractLsb' 5 2) := u8_field ins 5 rfl
  have hamount : u8 ((ins >>> 7) &&& 31) = u8 (ins.extractLsb' 7 5) := u8_field ins 7 rfl
  unfold loadStoreOffsetReg
  simp only [hrm, hshift, hamount, hcount]
  rw [ite_shift, ← offsetRegister, ← offsetShift]
  cases offsetShift ins with
  | lsl => exact h.shl_eq _ (by omega) (by omega)
  | lsr => exact h.shr_eq _ (by omega) (by omega)
  | asr => rfl
  | ror => rfl

theorem rightScale_of_ne_zero {c : Bool} {x : Word} {n : Nat} (hn : n ≠ 0) (s : Shift) :
    RightScale h c x n s := by
  cases s with
  | lsl => trivial
  | lsr => exact fun habsurd => absurd habsurd hn
  | asr => exact fun habsurd => absurd habsurd hn
  | ror => exact fun habsurd => absurd habsurd hn

theorem loadStoreOffsetReg_of_zero (hn : offsetAmount ins = 0) :
    loadStoreOffsetReg h p ins = unshifted h (offsetRegister p ins) (offsetShift ins) := by
  have hzero : u8 (ins.extractLsb' 7 5) = 0 := by
    rw [← BitVec.toNat_inj, toNat_u8_offsetAmount, hn]
    rfl
  rw [loadStoreOffsetReg_eq, hn, hzero]
  cases offsetShift ins with
  | lsl => rw [BitVec.shiftLeft_zero, unshifted]
  | lsr => rw [BitVec.ushiftRight_zero, unshifted]
  | asr => rw [asr_zero, unshifted]
  | ror => rw [ror_zero, unshifted]

theorem unshifted_eq_iff {c : Bool} {x : Word} (s : Shift) :
    unshifted h x s = (s.byImmediate c x 0).1 ↔ RightScale h c x 0 s := by
  cases s with
  | lsl =>
    refine iff_of_true ?_ trivial
    rw [unshifted, Shift.byImmediate, Shift.byAmount_lsl_fst, BitVec.shiftLeft_zero]
  | lsr =>
    simp only [unshifted, Shift.byImmediate, RightScale, if_pos, forall_const]
    rw [Shift.byAmount_lsr_fst, BitVec.ushiftRight_eq_zero (by decide)]
  | asr =>
    simp only [unshifted, Shift.byImmediate, RightScale, if_pos, forall_const]
    rw [Shift.byAmount_asr (by decide)]
    cases hmsb : x.msb with
    | true =>
      rw [if_pos rfl, if_pos rfl, BitVec.sshiftRight_eq_of_msb_true hmsb,
        BitVec.ushiftRight_eq_zero (by decide)]
      exact Iff.rfl
    | false =>
      rw [if_neg Bool.false_ne_true, if_neg Bool.false_ne_true,
        BitVec.sshiftRight_eq_of_msb_false hmsb, BitVec.ushiftRight_eq_zero (by decide)]
      exact iff_of_eq (congrArg (· = 0#32) (BitVec.or_zero))
  | ror =>
    simp only [unshifted, Shift.byImmediate, RightScale, if_pos, forall_const]

theorem loadStoreOffsetReg_eq_iff (c : Bool) :
    loadStoreOffsetReg h p ins =
        ((offsetShift ins).byImmediate c (offsetRegister p ins) (offsetAmount ins)).1 ↔
      RightScale h c (offsetRegister p ins) (offsetAmount ins) (offsetShift ins) := by
  by_cases hn : offsetAmount ins = 0
  · rw [loadStoreOffsetReg_of_zero hn, hn]
    exact unshifted_eq_iff _
  · have hlt := offsetAmount_lt ins
    have hcount := toNat_u8_offsetAmount ins
    refine iff_of_true ?_ (rightScale_of_ne_zero hn _)
    rw [loadStoreOffsetReg_eq]
    cases offsetShift ins with
    | lsl => rw [Shift.byImmediate, Shift.byAmount_lsl_fst]
    | lsr => rw [Shift.byImmediate, if_neg hn, Shift.byAmount_lsr_fst]
    | asr =>
      rw [Shift.byImmediate, if_neg hn, Shift.byAmount_asr hn]
      exact (asr_eq h _ (by omega) (by omega)).trans (by rw [hcount])
    | ror =>
      rw [Shift.byImmediate, if_neg hn, Shift.byAmount_ror hn]
      exact (ror_eq h _ (by omega) (by omega)).trans (by rw [hcount])

theorem sourceOffset_eq_iff : sourceOffset h p ins = offset p ins ↔ RightOffset h p ins := by
  unfold sourceOffset offset RightOffset
  by_cases hclass : ins.extractLsb' 26 2 = 1
  · rw [if_pos hclass, if_pos hclass]
    by_cases hreg : ins.getLsbD 25 = true
    · rw [if_pos hreg, if_pos hreg, loadStoreOffsetReg_eq_iff]
      exact ⟨fun hright _ _ => hright, fun hright => hright hclass hreg⟩
    · rw [if_neg hreg, if_neg hreg]
      exact iff_of_true rfl fun _ habsurd => absurd habsurd hreg
  · rw [if_neg hclass, if_neg hclass]
    exact iff_of_true rfl fun habsurd => absurd habsurd hclass

theorem loadStoreAddress_eq (hclass : ins.extractLsb' 26 2 = 1) :
    loadStoreAddress h p ins =
      moved (ins.getLsbD 23) (armReadUsrRegister p (rnField ins)) (sourceOffset h p ins) := by
  rw [sourceOffset, if_pos hclass]
  cases hreg : ins.getLsbD 25 with
  | true =>
    simp only [loadStoreAddress, u8_bit_ne_zero, hreg, if_true]
    rfl
  | false => exact loadStoreAddress_immediate hreg

/-- The access of a register form is made at the base moved by its index exactly if the shift of the
source is right. -/
theorem scaledIndex_iff (hclass : ins.extractLsb' 26 2 = 1) (hreg : ins.getLsbD 25 = true) :
    loadStoreAddress h p ins =
        moved (ins.getLsbD 23) (armReadUsrRegister p (rnField ins)) (scaledIndex p ins) ↔
      RightScale h ((armReadCpsr p).getLsbD 29) (offsetRegister p ins) (offsetAmount ins)
        (offsetShift ins) := by
  rw [loadStoreAddress_eq hclass, moved_inj, sourceOffset, if_pos hclass, if_pos hreg, scaledIndex,
    loadStoreOffsetReg_eq_iff]

theorem address_transferCall :
    (transferCall h p ins).address =
      moved (ins.getLsbD 23) (armReadUsrRegister p (rnField ins)) (sourceOffset h p ins) := by
  by_cases hclass : ins.extractLsb' 26 2 = 1
  · rw [address_loadStore hclass, loadStoreAddress_eq hclass]
  · rw [transferCall, if_neg hclass, address_loadStoreHCall, loadStoreHAddress_eq, sourceOffset,
      if_neg hclass]

end

/-- `LDR r1, [r0, r2, LSR #1]`. -/
theorem scaledIndex_iff_one :
    loadStoreAddress Host.x86 (armWriteUsrRegister (coreOf 2 [7]) 2 8) 0xE79010A2 = 4 := by
  have hright : loadStoreAddress Host.x86 (armWriteUsrRegister (coreOf 2 [7]) 2 8) 0xE79010A2 =
      moved true (armReadUsrRegister (armWriteUsrRegister (coreOf 2 [7]) 2 8) 0)
        (scaledIndex (armWriteUsrRegister (coreOf 2 [7]) 2 8) 0xE79010A2) :=
    (scaledIndex_iff (by decide) (by decide)).mpr fun habsurd => absurd habsurd (by decide)
  rw [hright]
  decide

/-- `LDR r1, [r0, r2, LSR #0]` adds `r2` to its base. -/
theorem scaledIndex_iff_zero :
    loadStoreAddress Host.x86 (armWriteUsrRegister (coreOf 2 [7]) 2 4) 0xE7901022 = 4 ∧
    moved true (armReadUsrRegister (armWriteUsrRegister (coreOf 2 [7]) 2 4) 0)
      (scaledIndex (armWriteUsrRegister (coreOf 2 [7]) 2 4) 0xE7901022) = 0 := by
  constructor <;> decide

/-! ## Loads in offset form -/

/-- LDR and LDRB with `P = 1` and `W = 0`. -/
def IsOffsetLoad (ins : Word) : Prop :=
  ins.extractLsb' 26 2 = 1 ∧ ¬ Arm.IsUndefinedTransfer ins ∧ ins.getLsbD 20 = true ∧
    ins.getLsbD 24 = true ∧ ins.getLsbD 21 = false

section
variable (h : Host) (p : ArmCoreData) (ins : Word)

/-- The address of the addressing mode. -/
def offsetAddress : Word :=
  moved (ins.getLsbD 23) (armReadUsrRegister p (rnField ins)) (offset p ins)

/-- The register of the load holds the number at its address, and nothing else has changed. -/
structure LoadsOnly : Prop where
  loaded : ((armLoadStore h p ins).2.word (rdField ins)).toNat =
    numberAt p.mem (offsetAddress p ins) (loadStoreWidth ins)
  others : ∀ reg : Byte, reg.toNat < 16 → reg ≠ rdField ins →
    (armLoadStore h p ins).2.word reg = p.word reg
  cpsr : armReadCpsr (armLoadStore h p ins).2 = armReadCpsr p
  mem : (armLoadStore h p ins).2.mem = p.mem

def unshiftedAddress : Word :=
  moved (ins.getLsbD 23) (armReadUsrRegister p (rnField ins))
    (unshifted h (offsetRegister p ins) (offsetShift ins))

/-- What a load gets from an address: the number there, 0 if the host loses it, or what its local
variable holds if the memory rejects the address. -/
def foundAt (a : Word) : Nat :=
  if a.toNat / 4 ≤ p.mem.size ∧ a.toNat % 4 + loadStoreWidth ins ≤ 4 then
    if ins.getLsbD 22 = false ∨ h.bigEndian = false ∨ p.mem.isBigEndian = true then
      numberAt p.mem a (loadStoreWidth ins)
    else 0
  else if ins.getLsbD 22 then (h.garbage 8).toNat else (h.garbage 32).toNat

variable {h p ins}

theorem loadStoreAddress_of_right (hclass : ins.extractLsb' 26 2 = 1)
    (hright : RightOffset h p ins) : loadStoreAddress h p ins = offsetAddress p ins := by
  rw [loadStoreAddress_eq hclass, sourceOffset_eq_iff.mpr hright, offsetAddress]

theorem loadStoreAddress_of_wrong (hclass : ins.extractLsb' 26 2 = 1)
    (hwrong : ¬ RightOffset h p ins) : loadStoreAddress h p ins = unshiftedAddress h p ins := by
  have hreg : ins.getLsbD 25 = true := by
    by_contra hreg
    exact hwrong fun _ habsurd => absurd habsurd hreg
  have hamount : offsetAmount ins = 0 := by
    by_contra hamount
    exact hwrong fun _ _ => rightScale_of_ne_zero hamount _
  rw [loadStoreAddress_eq hclass, sourceOffset, if_pos hclass, if_pos hreg,
    loadStoreOffsetReg_of_zero hamount, unshiftedAddress]

theorem toNat_loadedWord_loadStore (hclass : ins.extractLsb' 26 2 = 1)
    (hload : ins.getLsbD 20 = true) (hrd : (rdField ins).toNat < 15) :
    (loadedWord h p ins).toNat = foundAt h p ins (loadStoreAddress h p ins) := by
  have hword := toNat_loadedWord (h := h) (p := p) hload (ne_15_of_lt hrd)
  have hc := output_transferCall_of_load (h := h) (p := p) hload
  have haccepted : (transferCall h p ins).Accepted p.mem.size ↔
      (loadStoreAddress h p ins).toNat / 4 ≤ p.mem.size ∧
        (loadStoreAddress h p ins).toNat % 4 + loadStoreWidth ins ≤ 4 := by
    rw [Call.Accepted, Call.aligned_iff, address_loadStore hclass, width_transferCall,
      accessWidth_loadStore hclass]
  rw [foundAt]
  by_cases hacc : (transferCall h p ins).Accepted p.mem.size
  · rw [if_pos (haccepted.mp hacc)]
    rw [Call.output_perform h hc hacc, Option.some.injEq, width_transferCall,
      accessWidth_loadStore hclass, place_of_address (address_loadStore hclass), ← numberAt] at hword
    simp only [kept_loadStore hclass] at hword
    exact hword
  · rw [if_neg (mt haccepted.mpr hacc)]
    rw [Call.perform_rejected h p.mem _ hacc, transferCall, if_pos hclass, loadStoreCall, hload,
      if_pos rfl] at hword
    cases hbyte : ins.getLsbD 22 with
    | true =>
      rw [hbyte] at hword
      exact Option.some.inj hword
    | false =>
      rw [hbyte] at hword
      exact Option.some.inj hword

theorem word_loadStore_load (hclass : ins.extractLsb' 26 2 = 1) (hload : ins.getLsbD 20 = true)
    (reg : Byte) :
    (armLoadStore h p ins).2.word reg =
      if reg = rnField ins then loadStoreAddress h p ins
      else if reg = rdField ins then loadedWord h p ins
      else p.word reg := by
  have hbase : WritesBase ins := (writesBase_of_loadStore hclass).mpr (.inl hload)
  rw [← transfer_loadStore hclass, word_transfer, address_loadStore hclass]
  simp only [hbase, hload, true_and]

theorem loadsOnly_iff (hclass : ins.extractLsb' 26 2 = 1) (hload : ins.getLsbD 20 = true)
    (hrd : (rdField ins).toNat < 15) :
    LoadsOnly h p ins ↔
      if rdField ins = rnField ins then
        numberAt p.mem (offsetAddress p ins) (loadStoreWidth ins) = (loadStoreAddress h p ins).toNat
      else
        loadStoreAddress h p ins = p.word (rnField ins) ∧
          (loadedWord h p ins).toNat =
            numberAt p.mem (offsetAddress p ins) (loadStoreWidth ins) := by
  have hword := word_loadStore_load (h := h) (p := p) hclass hload
  have hmem : (armLoadStore h p ins).2.mem = p.mem := by
    rw [← transfer_loadStore hclass, mem_transfer,
      Call.perform_read h (output_transferCall_of_load hload)]
  have hlaw : (∀ reg, reg ≠ rdField ins → (armLoadStore h p ins).2.word reg = p.word reg) →
      ((armLoadStore h p ins).2.word (rdField ins)).toNat =
        numberAt p.mem (offsetAddress p ins) (loadStoreWidth ins) → LoadsOnly h p ins :=
    fun hothers hloaded =>
      ⟨hloaded, fun reg _ => hothers reg, hothers 15 (ne_15_of_lt hrd).symm, hmem⟩
  by_cases hsame : rdField ins = rnField ins
  · rw [if_pos hsame]
    constructor
    · intro hlaw
      have hloaded := hlaw.loaded
      rw [hword, if_pos hsame] at hloaded
      exact hloaded.symm
    · intro hfound
      refine hlaw (fun reg hreg => ?_) ?_
      · rw [hword, if_neg (fun heq => hreg (heq.trans hsame.symm)), if_neg hreg]
      · rw [hword, if_pos hsame, hfound]
  · have hloaded : (armLoadStore h p ins).2.word (rdField ins) = loadedWord h p ins := by
      rw [hword, if_neg hsame, if_pos rfl]
    rw [if_neg hsame, ← hloaded]
    constructor
    · intro hlaw
      refine ⟨?_, hlaw.loaded⟩
      rw [← hlaw.others _ (rnField_lt ins) (Ne.symm hsame), hword, if_pos rfl]
    · rintro ⟨haddress, hloads⟩
      refine hlaw (fun reg hreg => ?_) hloads
      rw [hword, if_neg hreg]
      split
      · next heq => rw [heq, haddress]
      · rfl

/-- A load in offset form is right if the offset is, and the address is what the base register holds
already. With a wrong offset it can be right by accident only. -/
theorem offsetLoad_iff (hins : IsOffsetLoad ins) (hrd : (rdField ins).toNat < 15)
    (hin : (offsetAddress p ins).toNat + loadStoreWidth ins ≤ 4 * p.mem.size)
    (hal : ins.getLsbD 22 = false → (offsetAddress p ins).toNat % 4 = 0) :
    LoadsOnly h p ins ↔
      if RightOffset h p ins then
        if rdField ins = rnField ins then
          numberAt p.mem (offsetAddress p ins) (loadStoreWidth ins) = (offsetAddress p ins).toNat
        else
          offsetAddress p ins = p.word (rnField ins) ∧
            (ins.getLsbD 22 = false ∨ h.bigEndian = false ∨ p.mem.isBigEndian = true ∨
              numberAt p.mem (offsetAddress p ins) (loadStoreWidth ins) = 0)
      else if rdField ins = rnField ins then
        numberAt p.mem (offsetAddress p ins) (loadStoreWidth ins) =
          (unshiftedAddress h p ins).toNat
      else
        unshiftedAddress h p ins = p.word (rnField ins) ∧
          foundAt h p ins (p.word (rnField ins)) =
            numberAt p.mem (offsetAddress p ins) (loadStoreWidth ins) := by
  obtain ⟨hclass, -, hload, -, -⟩ := hins
  rw [loadsOnly_iff hclass hload hrd]
  by_cases hright : RightOffset h p ins
  · have haddress := loadStoreAddress_of_right hclass hright
    rw [if_pos hright, haddress]
    rw [← haddress] at hin hal
    have hread := toNat_loadedWord_iff (address_loadStore hclass)
      (inside_loadStore hclass hin hal) hload hrd
    rw [accessWidth_loadStore hclass, kept_loadStore hclass, or_assoc, or_assoc, haddress] at hread
    rw [hread]
  · have haddress := loadStoreAddress_of_wrong hclass hright
    rw [if_neg hright, haddress]
    by_cases hsame : rdField ins = rnField ins
    · rw [if_pos hsame, if_pos hsame]
    · rw [if_neg hsame, if_neg hsame, toNat_loadedWord_loadStore hclass hload hrd, haddress]
      refine and_congr_right fun hbase => ?_
      rw [hbase]

end

/-- `LDR r1, [r0]`. -/
theorem offsetLoad_iff_word : LoadsOnly Host.x86 (coreOf 2 [7]) 0xE5901000 :=
  (offsetLoad_iff (by unfold IsOffsetLoad Arm.IsUndefinedTransfer; decide) (by decide) (by decide)
    (by decide)).mpr (by decide)

/-- `LDR r1, [pc, #0]` moves the program counter, and with it the CPSR. -/
theorem offsetLoad_iff_literal :
    IsOffsetLoad 0xE59F1000 ∧ offsetAddress (coreOf 2 [0, 7]) 0xE59F1000 = 4 ∧
    (armLoadStore Host.x86 (coreOf 2 [0, 7]) 0xE59F1000).2.word 15 = 4 ∧
    ¬ LoadsOnly Host.x86 (coreOf 2 [0, 7]) 0xE59F1000 := by
  refine ⟨by unfold IsOffsetLoad Arm.IsUndefinedTransfer; decide, by decide, by decide,
    fun hlaw => ?_⟩
  exact absurd hlaw.cpsr (by decide)

/-- `LDR r0, [r0, r2, LSR #0]` loads from `r0` moved by `r2`. -/
example : ¬ LoadsOnly Host.x86 (armWriteUsrRegister (coreOf 2 [7, 4]) 2 4) 0xE7900022 :=
  fun hlaw => absurd hlaw.loaded (by decide)

/-! ## Indexed forms -/

/-- A load or store of a word, a byte or a halfword that is post-indexed or pre-indexed. -/
def IsIndexed (ins : Word) : Prop :=
  (ins.extractLsb' 26 2 = 1 ∧ ¬ Arm.IsUndefinedTransfer ins ∨ Arm.IsHalfwordTransfer ins) ∧
    (ins.getLsbD 24 = false ∨ ins.getLsbD 21 = true)

/-- STR and STRB with a register offset. -/
def IsRegisterStore (ins : Word) : Prop :=
  ins.extractLsb' 26 2 = 1 ∧ ins.getLsbD 25 = true ∧ ins.getLsbD 20 = false

instance : DecidablePred IsRegisterStore := fun _ => inferInstanceAs (Decidable (_ ∧ _ ∧ _))

theorem writesBase_of_indexed {ins : Word}
    (hindex : ins.getLsbD 24 = false ∨ ins.getLsbD 21 = true) :
    WritesBase ins ↔ ¬ IsRegisterStore ins := by
  by_cases hclass : ins.extractLsb' 26 2 = 1
  · rw [writesBase_of_loadStore hclass, IsRegisterStore, and_iff_right hclass,
      and_iff_left hindex]
    cases ins.getLsbD 20 <;> cases ins.getLsbD 25 <;> decide
  · rw [writesBase_of_half hclass]
    exact iff_of_true hindex fun hstore => hclass hstore.1

section
variable (h : Host) (p : ArmCoreData) (ins : Word)

/-- The access is made at the base, or with `P = 1` at the moved base, which is what the base
register holds afterwards. -/
structure Indexed : Prop where
  access : (transferCall h p ins).address =
    if ins.getLsbD 24 then moved (ins.getLsbD 23) (p.word (rnField ins)) (offset p ins)
    else p.word (rnField ins)
  base : (transfer h p ins).2.word (rnField ins) =
    moved (ins.getLsbD 23) (p.word (rnField ins)) (offset p ins)

variable {h p ins}

/-- A post-indexed transfer is right only with the offset 0, a pre-indexed one unless it is a store
with a register offset; and the offset has to be right. -/
theorem indexed_iff (hins : IsIndexed ins) (hrn : rnField ins ≠ 15)
    (hload : ins.getLsbD 20 = true → rnField ins ≠ rdField ins) :
    Indexed h p ins ↔
      RightOffset h p ins ∧
        (offset p ins = 0#32 ∨ ins.getLsbD 24 = true ∧ ¬ IsRegisterStore ins) := by
  obtain ⟨-, hindex⟩ := hins
  have hread : armReadUsrRegister p (rnField ins) = p.word (rnField ins) := by
    rw [armReadUsrRegister_eq, if_neg hrn]
  have haccess : (transferCall h p ins).address =
      moved (ins.getLsbD 23) (p.word (rnField ins)) (sourceOffset h p ins) := by
    rw [address_transferCall, hread]
  have hbase : (transfer h p ins).2.word (rnField ins) =
      if ¬ IsRegisterStore ins then
        moved (ins.getLsbD 23) (p.word (rnField ins)) (sourceOffset h p ins)
      else p.word (rnField ins) := by
    rw [word_transfer, haccess, if_neg (c := ins.getLsbD 20 = true ∧ _)
      fun hboth => hload hboth.1 hboth.2]
    simp only [writesBase_of_indexed hindex, and_true]
  rw [← sourceOffset_eq_iff]
  constructor
  · rintro ⟨haccess', hbase'⟩
    rw [haccess] at haccess'
    rw [hbase] at hbase'
    by_cases hp : ins.getLsbD 24 = true
    · rw [if_pos hp, moved_inj] at haccess'
      refine ⟨haccess', ?_⟩
      by_cases hstore : IsRegisterStore ins
      · rw [if_neg (not_not.mpr hstore), eq_comm, moved_eq_base] at hbase'
        exact .inl hbase'
      · exact .inr ⟨hp, hstore⟩
    · rw [if_neg hp, moved_eq_base] at haccess'
      rw [haccess', moved_zero, ite_self, eq_comm, moved_eq_base] at hbase'
      exact ⟨haccess'.trans hbase'.symm, .inl hbase'⟩
  · rintro ⟨hright, hzero | ⟨hp, hstore⟩⟩
    · rw [hright, hzero, moved_zero] at haccess hbase
      refine ⟨?_, ?_⟩
      · rw [haccess, hzero, moved_zero, ite_self]
      · rw [hbase, hzero, moved_zero, ite_self]
    · rw [hright] at haccess hbase
      exact ⟨haccess.trans (if_pos hp).symm, hbase.trans (if_pos hstore)⟩

end

/-- `LDR r1, [r0, #4]!`. -/
theorem indexed_iff_pre : Indexed Host.x86 (coreOf 2 [7]) 0xE5B01004 :=
  (indexed_iff ⟨.inl (by unfold Arm.IsUndefinedTransfer; decide), by decide⟩ (by decide)
    (by decide)).mpr ⟨fun _ habsurd => absurd habsurd (by decide), by decide⟩

/-- `LDR r1, [r0], #4` loads from the address 4. -/
theorem indexed_iff_post :
    IsIndexed 0xE4901004 ∧
    (transferCall Host.x86 (coreOf 2 [7]) 0xE4901004).address = 4 ∧
    ¬ Indexed Host.x86 (coreOf 2 [7]) 0xE4901004 := by
  refine ⟨⟨.inl (by unfold Arm.IsUndefinedTransfer; decide), by decide⟩, by decide, fun hlaw => ?_⟩
  exact absurd hlaw.access (by decide)

/-! ## Two forms of an offset -/

section
variable (h : Host) (p : ArmCoreData) (ins ins' : Word)

/-- `ins` has a register shifted to the left as its offset, and `ins'` the value of it as an
immediate; `P`, `U`, `B`, `W`, `L`, `Rn` and `Rd` are the same. -/
structure OffsetForms : Prop where
  register : ins.extractLsb' 26 2 = 1 ∧ ins.getLsbD 25 = true ∧ ins.getLsbD 4 = false
  shift : offsetShift ins = .lsl
  immediate : ins'.extractLsb' 26 2 = 1 ∧ ins'.getLsbD 25 = false
  fields : ins'.extractLsb' 12 13 = ins.extractLsb' 12 13
  offset : u32 (ins'.extractLsb' 0 12) = offsetRegister p ins <<< offsetAmount ins

variable {h p ins ins'}

theorem OffsetForms.bit (hforms : OffsetForms p ins ins') {i : Nat} (hlow : 12 ≤ i) (hi : i < 25) :
    ins'.getLsbD i = ins.getLsbD i := by
  have hbit := congrArg (fun x => x.getLsbD (i - 12)) hforms.fields
  simpa only [BitVec.getLsbD_extractLsb', show i - 12 < 13 by omega, decide_true, Bool.true_and,
    show 12 + (i - 12) = i by omega] using hbit

theorem OffsetForms.nibble (hforms : OffsetForms p ins ins') {i : Nat} (hlow : 12 ≤ i)
    (hi : i + 4 ≤ 25) : u8 ((ins' >>> i) &&& 15) = u8 ((ins >>> i) &&& 15) := by
  have hfield : ins'.extractLsb' i 4 = ins.extractLsb' i 4 := by
    apply BitVec.eq_of_getLsbD_eq
    intro j hj
    rw [BitVec.getLsbD_extractLsb', BitVec.getLsbD_extractLsb', hforms.bit (by omega) (by omega)]
  rw [u8_nibble, u8_nibble, hfield]

theorem OffsetForms.rn (hforms : OffsetForms p ins ins') : rnField ins' = rnField ins :=
  hforms.nibble (by decide) (by decide)

theorem OffsetForms.rd (hforms : OffsetForms p ins ins') : rdField ins' = rdField ins :=
  hforms.nibble (by decide) (by decide)

theorem OffsetForms.address (hforms : OffsetForms p ins ins') :
    loadStoreAddress h p ins = moved (ins.getLsbD 23) (armReadUsrRegister p (rnField ins))
      (offsetRegister p ins <<< offsetAmount ins) := by
  obtain ⟨hclass, hreg, -⟩ := hforms.register
  rw [loadStoreAddress_eq hclass, sourceOffset, if_pos hclass, if_pos hreg, loadStoreOffsetReg_eq,
    hforms.shift]

theorem OffsetForms.same_address (hforms : OffsetForms p ins ins') :
    loadStoreAddress h p ins' = loadStoreAddress h p ins := by
  rw [hforms.address, loadStoreAddress_immediate hforms.immediate.2, hforms.rn, hforms.offset]
  unfold moved
  rw [hforms.bit (by decide) (by decide)]

theorem OffsetForms.same_accessed (hforms : OffsetForms p ins ins') :
    accessed h p ins' = accessed h p ins := by
  have hload := hforms.bit (i := 20) (by decide) (by decide)
  have hbyte := hforms.bit (i := 22) (by decide) (by decide)
  unfold accessed loadedWord transferCall loadStoreCall
  simp only [hforms.register.1, hforms.immediate.1, if_true, hload, hbyte, hforms.rd,
    hforms.same_address]

theorem OffsetForms.register_snd (hforms : OffsetForms p ins ins') :
    (armLoadStore h p ins).2 =
      if ins.getLsbD 20 = true then
        armWriteUsrRegister (accessed h p ins) (rnField ins) (loadStoreAddress h p ins)
      else accessed h p ins := by
  obtain ⟨hclass, hreg, -⟩ := hforms.register
  rw [← transfer_loadStore hclass, transfer_eq, address_loadStore hclass]
  simp only [writesBase_of_loadStore hclass, hreg, Bool.true_eq_false, false_and, or_false]

theorem OffsetForms.immediate_snd (hforms : OffsetForms p ins ins') :
    (armLoadStore h p ins').2 =
      if ins.getLsbD 20 = true ∨ ins.getLsbD 24 = false ∨ ins.getLsbD 21 = true then
        armWriteUsrRegister (accessed h p ins) (rnField ins) (loadStoreAddress h p ins)
      else accessed h p ins := by
  obtain ⟨hclass, himm⟩ := hforms.immediate
  rw [← transfer_loadStore hclass, transfer_eq, address_loadStore hclass, hforms.same_address,
    hforms.rn, hforms.same_accessed]
  simp only [writesBase_of_loadStore hclass, himm, true_and,
    hforms.bit (i := 20) (by decide) (by decide), hforms.bit (i := 21) (by decide) (by decide),
    hforms.bit (i := 24) (by decide) (by decide)]

/-- The two forms leave the same core, but for a store that is to write back a base that moves. -/
theorem offsetForms_iff (hforms : OffsetForms p ins ins') :
    (armLoadStore h p ins).2 = (armLoadStore h p ins').2 ↔
      ins.getLsbD 20 = true ∨ (ins.getLsbD 24 = true ∧ ins.getLsbD 21 = false) ∨
        moved (ins.getLsbD 23) (armReadUsrRegister p (rnField ins))
          (offsetRegister p ins <<< offsetAmount ins) = p.word (rnField ins) := by
  rw [hforms.register_snd, hforms.immediate_snd, ← hforms.address (h := h)]
  cases hload : ins.getLsbD 20 with
  | true => simp only [if_true, true_or]
  | false =>
    by_cases hback : ins.getLsbD 24 = false ∨ ins.getLsbD 21 = true
    · have hnot : ¬ (ins.getLsbD 24 = true ∧ ins.getLsbD 21 = false) := by
        rintro ⟨hp, hw⟩
        rw [hp, hw] at hback
        exact absurd hback (by decide)
      have hword : (accessed h p ins).word (rnField ins) = p.word (rnField ins) := by
        rw [accessed, hload]
        rfl
      rw [if_neg Bool.false_ne_true, if_pos (.inr hback), or_iff_right Bool.false_ne_true,
        or_iff_right hnot, ← hword]
      constructor
      · intro hsame
        have hbase := congrArg (fun q => q.word (rnField ins)) hsame
        simp only [word_armWriteUsrRegister, if_true] at hbase
        exact hbase.symm
      · intro hbase
        rw [hbase, armWriteUsrRegister_word]
    · have hoffset : ins.getLsbD 24 = true ∧ ins.getLsbD 21 = false := by
        simpa [not_or] using hback
      rw [if_neg Bool.false_ne_true, if_neg (fun hboth => hboth.elim Bool.false_ne_true hback)]
      exact iff_of_true rfl (.inr (.inl hoffset))

end

/-- `LDR r1, [r0, r2]` and `LDR r1, [r0, #4]`, with 4 in `r2`. -/
theorem offsetForms_iff_load :
    (armLoadStore Host.x86 (armWriteUsrRegister (coreOf 2 [7]) 2 4) 0xE7901002).2 =
      (armLoadStore Host.x86 (armWriteUsrRegister (coreOf 2 [7]) 2 4) 0xE5901004).2 :=
  (offsetForms_iff ⟨by decide, by decide, by decide, by decide, by decide⟩).mpr (.inl (by decide))

/-- `STR r1, [r0], r2` leaves the base as it was, `STR r1, [r0], #4` does not. -/
theorem offsetForms_iff_store :
    OffsetForms (armWriteUsrRegister (coreOf 2 [7]) 2 4) 0xE6801002 0xE4801004 ∧
    (armLoadStore Host.x86 (armWriteUsrRegister (coreOf 2 [7]) 2 4) 0xE6801002).2.word 0 = 0 ∧
    (armLoadStore Host.x86 (armWriteUsrRegister (coreOf 2 [7]) 2 4) 0xE4801004).2.word 0 = 4 ∧
    (armLoadStore Host.x86 (armWriteUsrRegister (coreOf 2 [7]) 2 4) 0xE6801002).2 ≠
      (armLoadStore Host.x86 (armWriteUsrRegister (coreOf 2 [7]) 2 4) 0xE4801004).2 := by
  refine ⟨⟨by decide, by decide, by decide, by decide, by decide⟩, by decide, by decide,
    fun hsame => ?_⟩
  exact absurd (congrArg (fun q => q.word 0) hsame) (by decide)

end Armator
