import Armator.Core

/-!
# `arm_load_store.c`

The result codes of the memory accesses are dropped: a failed load writes the content of an
uninitialised local to its register, and every function but `arm_load_store_multiple` returns 0.
-/

namespace Armator

/-! ## Halfwords -/

def loadStoreHAddress (p : ArmCoreData) (ins : Word) : Word :=
  let uBit := u8 ((ins >>> 23) &&& 1)
  let iBit := u8 ((ins >>> 22) &&& 1)
  let rnBit := u8 ((ins >>> 16) &&& 15)
  let immedL := u8 (ins &&& 15)
  let immedH := u8 ((ins >>> 8) &&& 15)
  let rnAdr := armReadUsrRegister p rnBit
  let offset := if iBit ≠ 0 then (u32 immedH <<< 4) ||| u32 immedL else armReadUsrRegister p immedL
  if uBit ≠ 0 then rnAdr + offset else rnAdr - offset

def armLoadStoreH (h : Host) (p : ArmCoreData) (ins : Word) : Int × ArmCoreData :=
  let pBit := u8 ((ins >>> 24) &&& 1)
  let wBit := u8 ((ins >>> 21) &&& 1)
  let lBit := u8 ((ins >>> 20) &&& 1)
  let rnBit := u8 ((ins >>> 16) &&& 15)
  let rdBit := u8 ((ins >>> 12) &&& 15)
  let address := loadStoreHAddress p ins
  let p :=
    if lBit ≠ 0 then
      let (_, motaecrire) := armReadHalf h p address (h.garbage 16)
      armWriteUsrRegister p rdBit (u32 motaecrire)
    else
      let motaecrire := u16 (armReadUsrRegister p rdBit &&& 0xFFFF)
      let (_, p) := armWriteHalf h p address motaecrire
      p
  let p :=
    if pBit = 0 ∨ (pBit ≠ 0 ∧ wBit ≠ 0) then armWriteUsrRegister p rnBit address else p
  (0, p)

/-! ## Words and bytes -/

def ldrLdrb (h : Host) (p : ArmCoreData) (bBit : Byte) (temp : Word) (rdBit rnBit : Byte) :
    ArmCoreData :=
  let p :=
    if bBit ≠ 0 then
      let (_, motaecrire) := armReadByte h p temp (h.garbage 8)
      armWriteUsrRegister p rdBit (u32 motaecrire)
    else
      let (_, motaecrire) := armReadWord h p temp (h.garbage 32)
      if rdBit = 15 then armWriteUsrRegister p 15 (motaecrire &&& 0xFFFFFFFE)
      else armWriteUsrRegister p rdBit motaecrire
  armWriteUsrRegister p rnBit temp

def strStrb (h : Host) (p : ArmCoreData) (bBit : Byte) (temp : Word) (rdBit : Byte) :
    ArmCoreData :=
  if bBit ≠ 0 then
    let motaecrire := u8 (armReadUsrRegister p rdBit &&& 0xFF)
    let (_, p) := armWriteByte h p temp motaecrire
    p
  else
    let motaecrire := armReadUsrRegister p rdBit
    let (_, p) := armWriteWord h p temp motaecrire
    p

/-- The register offset of `arm_load_store`; the four cases cover the two bits of `shift_T`. -/
def loadStoreOffsetReg (h : Host) (p : ArmCoreData) (ins : Word) : Word :=
  let shiftT := u8 ((ins >>> 5) &&& 3)
  let shiftIm := u8 ((ins >>> 7) &&& 31)
  let rmBit := u8 (ins &&& 15)
  if shiftT = 0 then h.shl (armReadUsrRegister p rmBit) shiftIm.toNat
  else if shiftT = 1 then h.shr (armReadUsrRegister p rmBit) shiftIm.toNat
  else if shiftT = 2 then asr h (armReadUsrRegister p rmBit) shiftIm
  else ror h (armReadUsrRegister p rmBit) shiftIm

def loadStoreAddress (h : Host) (p : ArmCoreData) (ins : Word) : Word :=
  let uBit := u8 ((ins >>> 23) &&& 1)
  let iBit := u8 ((ins >>> 25) &&& 1)
  let rnBit := u8 ((ins >>> 16) &&& 15)
  let offset := u16 (ins &&& 4095)
  let rnAdr := armReadUsrRegister p rnBit
  if iBit ≠ 0 then
    let offsetReg := loadStoreOffsetReg h p ins
    if uBit ≠ 0 then rnAdr + offsetReg else rnAdr - offsetReg
  else
    if uBit ≠ 0 then rnAdr + u32 offset else rnAdr - u32 offset

def armLoadStore (h : Host) (p : ArmCoreData) (ins : Word) : Int × ArmCoreData :=
  let pBit := u8 ((ins >>> 24) &&& 1)
  let wBit := u8 ((ins >>> 21) &&& 1)
  let iBit := u8 ((ins >>> 25) &&& 1)
  let lBit := u8 ((ins >>> 20) &&& 1)
  let bBit := u8 ((ins >>> 22) &&& 1)
  let rnBit := u8 ((ins >>> 16) &&& 15)
  let rdBit := u8 ((ins >>> 12) &&& 15)
  let temp := loadStoreAddress h p ins
  let p :=
    if iBit ≠ 0 then
      if lBit ≠ 0 then ldrLdrb h p bBit temp rdBit rnBit else strStrb h p bBit temp rdBit
    else if lBit ≠ 0 then
      let p := ldrLdrb h p bBit temp rdBit rnBit
      if pBit ≠ 0 ∧ wBit ≠ 0 then armWriteUsrRegister p rnBit temp else p
    else
      let p := strStrb h p bBit temp rdBit
      if pBit = 0 ∨ (pBit ≠ 0 ∧ wBit ≠ 0) then armWriteUsrRegister p rnBit temp else p
  (0, p)

/-! ## Block transfers -/

/-- The loop `for(i=1;i<16;i++)`, over the list shifted so far and the count. -/
def numberOfRegisters (bit : Half) : Word :=
  ((List.range 15).foldl (fun (s : Half × Word) _ =>
    if (s.1 &&& 1) % 2 = 0 then (s.1 >>> 1, s.2) else (s.1 >>> 1, s.2 + 1)) (bit, 0)).2

def initAddresses (p : ArmCoreData) (startAddress endAddress : Word) (bit23 rnBit : Byte)
    (registerList : Half) : Word × Word :=
  if bit23 = 0 then
    (armReadUsrRegister p rnBit - numberOfRegisters registerList * 4 + 4, armReadUsrRegister p rnBit)
  else if bit23 = 1 then
    (armReadUsrRegister p rnBit, armReadUsrRegister p rnBit + numberOfRegisters registerList * 4 - 4)
  else if bit23 = 2 then
    (armReadUsrRegister p rnBit - numberOfRegisters registerList * 4, armReadUsrRegister p rnBit - 4)
  else if bit23 = 3 then
    (armReadUsrRegister p rnBit + 4, armReadUsrRegister p rnBit + numberOfRegisters registerList * 4)
  else (startAddress, endAddress)

structure BlockTransfer where
  core : ArmCoreData
  address : Word
  value : Word

/-- One turn of the load loop: the result code of `arm_read_word` is what is written, to the
register whose number is the value of register `i`. -/
def loadTurn (h : Host) (registerList : Half) (s : BlockTransfer) (i : Nat) : BlockTransfer :=
  if (registerList >>> i) &&& 1 ≠ 0 then
    let (result, value) := armReadWord h s.core s.address s.value
    let p := armWriteUsrRegister s.core (u8 (armReadUsrRegister s.core (BitVec.ofNat 8 i)))
      (BitVec.ofInt 32 result)
    { core := p, address := s.address + 4, value := value }
  else s

def loadPc (h : Host) (registerList : Half) (s : BlockTransfer) : BlockTransfer :=
  if (registerList >>> 15) &&& 1 ≠ 0 then
    let (result, value) := armReadWord h s.core s.address s.value
    let reg := if h.rightToLeft then value else s.value
    let p := armWriteUsrRegister s.core (u8 reg) (BitVec.ofInt 32 result)
    let p := armWriteUsrRegister p 15 (value &&& 0xFFFFFFFE)
    { s with core := p, value := value }
  else s

/-- One turn of the store loop: `value` is the address. -/
def storeTurn (h : Host) (rdBit : Byte) (registerList : Half) (s : BlockTransfer) (i : Nat) :
    BlockTransfer :=
  if (registerList >>> i) &&& 1 ≠ 0 then
    let (_, p) := armWriteWord h s.core s.value
      (armReadUsrRegister s.core (u8 (armReadUsrRegister s.core rdBit)))
    { s with core := p, address := s.address + 4 }
  else s

/-- With `W`, the source assigns to its local `RN_bit`, which it does not read again. -/
def armLoadStoreMultiple (h : Host) (p : ArmCoreData) (ins : Word) : Int × ArmCoreData :=
  let bit23 := u8 ((ins >>> 23) &&& 2)
  let registerList := u16 (u8 (ins &&& 65536))
  let rnBit := u8 ((ins >>> 16) &&& 15)
  let lBit := u8 ((ins >>> 20) &&& 1)
  let rdBit := u8 ((ins >>> 12) &&& 1)
  let (startAddress, endAddress) :=
    initAddresses p (h.garbage 32) (h.garbage 32) bit23 rnBit registerList
  let s : BlockTransfer := { core := p, address := startAddress, value := h.garbage 32 }
  if lBit ≠ 0 then
    let s := (List.range 15).foldl (loadTurn h registerList) s
    let s := loadPc h registerList s
    if endAddress ≠ s.address - 4 then (1, s.core) else (0, s.core)
  else
    let s := (List.range 15).foldl (storeTurn h rdBit registerList) s
    if endAddress ≠ s.address - 4 then (1, s.core) else (0, s.core)

end Armator
