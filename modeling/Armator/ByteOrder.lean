import Armator.GdbMemory

/-!
# The byte order of the debugger

The bytes `write_uint32` spells are those the memory keeps for the word, in a build whose memory
has the byte order of the target (`wordBytes_eq`). So the debugger shows a word of the memory as it
shows a register, and what it writes is read as this word, unless `write_memory_binary` refuses the
address (`views_agree_iff`).
-/

namespace Armator

open CString Packet LastWrite ByteStore

/-! ## Words of the memory -/

section
variable (h : Host) {mem : MemoryData} {address : Word}

theorem memoryReadWord_iff (haligned : address.toNat % 4 = 0) (hacc : address.toNat / 4 ≤ mem.size)
    (content value : Word) :
    memoryReadWord h mem address content = (0, value) ↔
      (span address 4).map mem.memo = ByteStore.bytes mem.isBigEndian 4 value.toNat := by
  have hcall := Call.readWord_accepted h mem address content ⟨hacc, haligned⟩
  have hspan : (span address 4).map mem.memo =
      (List.range 4).map fun i => mem.memo ((Call.readWord address content).place i) := List.map_map
  have hresult : (memoryReadWord h mem address content).1 = 0 :=
    congrArg (fun r : Answer × MemoryData => r.1.result) hcall
  have houtput : some (memoryReadWord h mem address content).2.toNat =
      some (ByteStore.value mem.isBigEndian ((span address 4).map mem.memo)) := by
    rw [hspan]
    exact congrArg (fun r : Answer × MemoryData => r.1.output) hcall
  have hvalue : ByteStore.value mem.isBigEndian (ByteStore.bytes mem.isBigEndian 4 value.toNat) =
      value.toNat := by
    rw [value_bytes]
    exact Nat.mod_eq_of_lt value.isLt
  rw [Prod.ext_iff, hresult, and_iff_right rfl, ← BitVec.toNat_inj, Option.some.inj houtput]
  constructor
  · intro heq
    apply value_injective
    · simp
    · exact heq.trans hvalue.symm
  · intro heq
    rw [heq, hvalue]

theorem memo_memoryWriteWord (haligned : address.toNat % 4 = 0)
    (hacc : address.toNat / 4 ≤ mem.size) (value : Word) :
    (span address 4).map (memoryWriteWord h mem address value).2.memo =
      ByteStore.bytes mem.isBigEndian 4 value.toNat := by
  have hcall := Call.writeWord_accepted h mem address value ⟨hacc, haligned⟩
  have hmem : (memoryWriteWord h mem address value).2 = mem.withMemo (writeAll mem.memo
      ((Call.writeWord address value).writes mem.isBigEndian)) :=
    congrArg (fun r : Answer × MemoryData => r.2) hcall
  rw [hmem]
  apply map_writeAll_zip (nodup_span address (by decide))
  simp

end

/-! ## The two views -/

/-- After a write of a word to the memory the reply to `m` has the digits of a register that holds
it, and an `X` request with the bytes of these digits makes the memory hold it. -/
def ViewsAgree (b : Build) (turns : Nat) (g : GdbProtocolData) (address value : Word)
    (read write : Chars) (beyond beyond' : Nat → Byte) : Prop :=
  (∃ g', receive b turns { g with arm := { g.arm with
        mem := (memoryWriteWord b.host g.arm.mem address value).2 } } read beyond = .ok g' ∧
      Replies g g' (writeUint32 b value)) ∧
  ∃ g', receive b turns g write beyond' = .ok g' ∧
    ∀ content, memoryReadWord b.host g'.arm.mem address content = (0, value)

section
variable (b : Build) (turns : Nat) {g : GdbProtocolData} {address value : Word}
  {read write : Chars} {d : List Byte} (beyond : Nat → Byte)

theorem memoryWriteWord_same (h : Host) (mem : MemoryData) (address value : Word) :
    (memoryWriteWord h mem address value).2.size = mem.size ∧
      (memoryWriteWord h mem address value).2.isBigEndian = mem.isBigEndian := by
  rw [memoryWriteWord]
  split <;> exact ⟨rfl, rfl⟩

theorem digits_agree (hle : b.host.bigEndian = false)
    (hbuild : g.arm.mem.isBigEndian = b.bigEndianSimulator) (haligned : address.toNat % 4 = 0)
    (hinside : address.toNat + 4 ≤ 4 * g.arm.mem.size) (hread : ReadRequest address 4 read)
    (hopen : g.fd.shut = false) :
    ∃ g', receive b turns { g with arm := { g.arm with
        mem := (memoryWriteWord b.host g.arm.mem address value).2 } } read beyond = .ok g' ∧
      Replies g g' (writeUint32 b value) := by
  obtain ⟨hsize, hbe⟩ := memoryWriteWord_same b.host g.arm.mem address value
  have hacc : AcceptsSpan (memoryWriteWord b.host g.arm.mem address value).2.size address 4 := by
    rw [hsize]
    exact (acceptsSpan_iff (by omega) (by omega)).mpr (Or.inl (by omega))
  obtain ⟨g', hok, hanswered⟩ := receive_read b turns (g := { g with arm := { g.arm with
      mem := (memoryWriteWord b.host g.arm.mem address value).2 } })
    beyond hread (by omega) hacc hopen
  have hdigits : (((span address 4).map fun i => storedByte b.host
      (memoryWriteWord b.host g.arm.mem address value).2.isBigEndian
      ((memoryWriteWord b.host g.arm.mem address value).2.memo i)).flatMap twoDigits) =
      writeUint32 b value := by
    have hin : address.toNat / 4 ≤ g.arm.mem.size := by omega
    have hbytes := memo_memoryWriteWord b.host haligned hin value
    rw [← digits_wordBytes, wordBytes_eq b value, ← hbuild, ← hbytes]
    simp only [storedByte_of b.host (Or.inl hle)]
  rw [hdigits] at hanswered
  exact ⟨g', hok, hanswered.replies⟩

theorem bytes_agree_iff (hle : b.host.bigEndian = false)
    (hbuild : g.arm.mem.isBigEndian = b.bigEndianSimulator) (haligned : address.toNat % 4 = 0)
    (hinside : address.toNat + 4 ≤ 4 * g.arm.mem.size)
    (hdigits : d.flatMap twoDigits = writeUint32 b value) (hwrite : WriteRequest address d write)
    (hopen : g.fd.shut = false) :
    (∃ g', receive b turns g write beyond = .ok g' ∧
      ∀ content, memoryReadWord b.host g'.arm.mem address content = (0, value)) ↔
    address.toNat < g.arm.mem.size ∨ (span address 4).map g.arm.mem.memo = d := by
  have hbytes : d = ByteStore.bytes g.arm.mem.isBigEndian 4 value.toNat := by
    rw [hbuild, ← wordBytes_eq b value]
    exact fields_injective length_twoDigits (by decide) (fun _ _ => twoDigits_injective)
      (hdigits.trans (digits_wordBytes b value).symm)
  have hlength : d.length = 4 := by simp [hbytes]
  have hin : address.toNat / 4 ≤ g.arm.mem.size := by omega
  obtain ⟨g', hok, hanswered⟩ := receive_write b turns beyond hwrite (by omega) hopen
  have hmem : g'.arm.mem = (written b.host g.arm.mem address d).1 := by rw [hanswered.arm]
  rw [exists_ok_iff hok, hmem, written, memoryGetSize]
  by_cases hquarter : address.toNat < g.arm.mem.size
  · rw [if_pos hquarter]
    refine iff_of_true (fun content => ?_) (Or.inl hquarter)
    obtain ⟨hsize, hbe⟩ := @size_writeBytes b.host g.arm.mem address d
    have hacc : AcceptsSpan g.arm.mem.size address d.length :=
      (acceptsSpan_iff (by omega) (by omega)).mpr (Or.inl (by omega))
    have hkept := (memo_writeBytes b.host (by omega) hacc).1
    rw [(map_storedByte_eq_iff _ _ _).mpr (Or.inl hle), hlength] at hkept
    rw [memoryReadWord_iff b.host haligned (by rwa [hsize]), hkept, hbe, hbytes]
  · rw [if_neg hquarter, or_iff_right hquarter, hbytes]
    constructor
    · intro hread
      exact (memoryReadWord_iff b.host haligned hin 0 value).mp (hread 0)
    · intro heq content
      exact (memoryReadWord_iff b.host haligned hin content value).mpr heq

end

/-- **Byte order**: a word in the memory of a build has the digits of a register, and an `X` request
with these digits is read as this word exactly if its address is in the first quarter of the memory
or the bytes are already there. -/
theorem views_agree_iff (b : Build) (turns : Nat) (g : GdbProtocolData) (address value : Word)
    (d : List Byte) (read write : Chars) (beyond beyond' : Nat → Byte)
    (hle : b.host.bigEndian = false) (hbuild : g.arm.mem.isBigEndian = b.bigEndianSimulator)
    (haligned : address.toNat % 4 = 0) (hinside : address.toNat + 4 ≤ 4 * g.arm.mem.size)
    (hread : ReadRequest address 4 read) (hdigits : d.flatMap twoDigits = writeUint32 b value)
    (hwrite : WriteRequest address d write) (hopen : g.fd.shut = false) :
    ViewsAgree b turns g address value read write beyond beyond' ↔
      address.toNat < g.arm.mem.size ∨ (span address 4).map g.arm.mem.memo = d := by
  rw [ViewsAgree,
    and_iff_right (digits_agree b turns beyond hle hbuild haligned hinside hread hopen)]
  exact bytes_agree_iff b turns beyond' hle hbuild haligned hinside hdigits hwrite hopen

/-- A build with a big-endian memory of two words. -/
def bigEndianBuild : Build := { Build.x86 with bigEndianSimulator := true }

def gdbOfTwoWords : GdbProtocolData := gdbInitData (coreOf 2 []) fun _ => 0

theorem requests_digit (address : Word) (digit : Byte) (d : List Byte) (hdigit : IsHex [digit])
    (haddress : hexNumber [digit] = address.toNat) (hd : d.length = 4) :
    ReadRequest address 4 (frame (ascii 'm' :: ([digit] ++ ofString ",4"))) ∧
      WriteRequest address d
        (frame (ascii 'X' :: ([digit] ++ ofString ",4" ++ ascii ':' :: d.flatMap escaped))) := by
  have hfour : IsHex (ofString "4") := by
    unfold IsHex
    decide
  have htext : RequestText address 4 ([digit] ++ ofString ",4") :=
    ⟨[digit], ofString "4", hdigit, by simp, hfour, by decide, haddress, by decide, rfl⟩
  exact ⟨⟨_, htext, carries_frame _⟩, ⟨_, by rwa [hd], carries_frame _⟩⟩

/-- The first word of two. -/
theorem views_agree_iff_first :
    ViewsAgree bigEndianBuild 0 gdbOfTwoWords 0 1 (frame (ofString "m0,4"))
      (frame (ofString "X0,4:" ++ [0, 0, 0, 1])) (fun _ => 0) fun _ => 0 := by
  obtain ⟨hread, hwrite⟩ := requests_digit 0 (ascii '0') [0, 0, 0, 1] (by unfold IsHex; decide)
    (by decide) rfl
  exact (views_agree_iff bigEndianBuild 0 gdbOfTwoWords 0 1 [0, 0, 0, 1] _ _ _ _ rfl rfl
    (by decide) (by decide) hread (by decide) hwrite rfl).mpr (Or.inl (by decide))

/-- The second word of two cannot be written. -/
theorem views_agree_iff_second :
    ¬ ViewsAgree bigEndianBuild 0 gdbOfTwoWords 4 1 (frame (ofString "m4,4"))
      (frame (ofString "X4,4:" ++ [0, 0, 0, 1])) (fun _ => 0) fun _ => 0 := by
  obtain ⟨-, hwrite⟩ := requests_digit 4 (ascii '4') [0, 0, 0, 1] (by unfold IsHex; decide)
    (by decide) rfl
  rintro ⟨-, hbytes⟩
  have hiff := (bytes_agree_iff bigEndianBuild 0 (fun _ => 0) rfl rfl (by decide) (by decide)
    (by decide) hwrite rfl).mp hbytes
  exact absurd hiff (by decide)

end Armator
