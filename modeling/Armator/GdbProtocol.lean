import Armator.Instruction
import Armator.Lib.CString

/-!
# `gdb_protocol.c`

The handlers of the remote serial protocol. They share the state `gdb_protocol_data`, whose array
`packet` holds the last reply and in which every reply is built, and they send through the
connection `fd`. The core and the debugger have the same memory object, so the memory is the one of
`arm`.

A received packet is a text in the buffer of the scanner, followed by a terminator and whatever the
buffer holds behind it; handlers get it with an offset, where the source passes a pointer. What ends
the process, or leaves the bounds of `packet`, is a `Fault`. The loop of `cont` runs for a given
number of turns at most, and not to have met a breakpoint by then is a fault too. The traces and the
lock are left out.
-/

namespace Armator

open CString

/-! ## The environment -/

/-- A build of the simulator: its host, the switch `BIG_ENDIAN_SIMULATOR`, and what a conversion of
text stores for a number its variable cannot hold. -/
structure Build where
  host : Host
  bigEndianSimulator : Bool
  outOfRange : Int → Word

inductive Fault where
  /-- An access to `packet` at or behind its size. -/
  | overflow
  | assertion
  | nullPointer
  /-- A write that fails, which ends the process. -/
  | disconnected
  /-- `cont` is still running. -/
  | running
  deriving DecidableEq

/-- The connection: the writes made so far, and whether it is shut down for writing. -/
structure Connection where
  sent : List Chars
  shut : Bool

/-- A text in memory, with the bytes behind it. -/
structure Text where
  bytes : Chars
  beyond : Nat → Byte

namespace Text

def get (t : Text) (i : Nat) : Byte := t.bytes.getD i (t.beyond i)

def set (t : Text) (i : Nat) (c : Byte) : Text := { t with bytes := t.bytes.set i c }

/-- The string at an offset, up to its terminator. -/
def str (t : Text) (offset : Nat) : Chars := (t.bytes.drop offset).takeWhile (· ≠ 0)

/-- `index`: the offset of the first `c` of the string. -/
def index (t : Text) (offset : Nat) (c : Byte) : Option Nat :=
  ((t.str offset).findIdx? (· = c)).map (offset + ·)

end Text

namespace Build

/-- The build without the switch on an x86 host, whose conversions keep the low bits. -/
def x86 : Build where
  host := Host.x86
  bigEndianSimulator := false
  outOfRange n := BitVec.ofInt 32 n

variable (b : Build)

/-- The value stored for a number scanned. -/
def stored (n : Int) : Word := if n.natAbs < 2 ^ 32 then BitVec.ofInt 32 n else b.outOfRange n

/-- `sscanf(s, "%x", &value)`, with the content of the variable before it. -/
def scanWord (width : Nat) (s : Chars) (value : Word) : Word :=
  match scanHex width s with
  | some (n, _) => b.stored n
  | none => value

/-- `sscanf(s, "%x,%x", &first, &second)`. -/
def scanPair (s : Chars) (first second : Word) : Word × Word :=
  match scanHex s.length s with
  | some (n, comma :: s) => (b.stored n, if comma = ascii ',' then b.scanWord s.length s second else second)
  | some (n, []) => (b.stored n, second)
  | none => (first, second)

def atoi (s : Chars) : Word :=
  if -2 ^ 31 ≤ scanInt s ∧ scanInt s < 2 ^ 31 then BitVec.ofInt 32 (scanInt s)
  else b.outOfRange (scanInt s)

end Build

/-! ## The state -/

def maxPacketSize : Nat := 1024

structure GdbProtocolData where
  arm : ArmCoreData
  targetException : Int
  fd : Connection
  /-- The bytes from `packet` on; those from `maxPacketSize` on are not its own. -/
  packet : Nat → Byte
  len : Nat

/-- The offset of `buffer` in `packet`. -/
def buffer : Nat := 1

def rioWriten (fd : Connection) (bytes : Chars) : Except Fault Connection :=
  if bytes = [] then .ok fd
  else if fd.shut then .error .disconnected
  else .ok { fd with sent := fd.sent ++ [bytes] }

def shutdown (fd : Connection) : Connection := { fd with shut := true }

/-- `sprintf` or `strcpy` of a text to `packet + position`. -/
def store (packet : Nat → Byte) (position : Nat) (s : Chars) : Except Fault (Nat → Byte) :=
  if maxPacketSize ≤ position + s.length then .error .overflow
  else .ok fun i =>
    if position ≤ i ∧ i < position + s.length then s.getD (i - position) 0
    else if i = position + s.length then 0
    else packet i

/-- Texts one behind the other, each over the terminator of the one before. -/
def storeAll (packet : Nat → Byte) (position : Nat) : List Chars → Except Fault (Nat → Byte)
  | [] => .ok packet
  | s :: rest => do
    let packet ← store packet position s
    storeAll packet (position + s.length) rest

/-! ## Sending -/

section
variable (g : GdbProtocolData)

def gdbTransmitPacket : Except Fault GdbProtocolData := do
  let fd ← rioWriten g.fd ((List.range g.len).map g.packet)
  .ok { g with fd := fd }

def gdbSendAck : Except Fault GdbProtocolData := do
  let fd ← rioWriten g.fd (ofString "+")
  .ok { g with fd := fd }

def gdbRequireRetransmission : Except Fault GdbProtocolData := do
  let fd ← rioWriten g.fd (ofString "-")
  .ok { g with fd := fd }

/-- The loop over `packet` from `i` up to the terminator, for at most the given number of bytes: the
index of the terminator and the sum. -/
def sumPacket (packet : Nat → Byte) : Nat → Nat → Byte → Option (Nat × Byte)
  | 0, _, _ => none
  | n + 1, i, check =>
    if packet i ≠ 0 then sumPacket packet n (i + 1) (check + packet i) else some (i, check)

def gdbSendBuffer : Except Fault GdbProtocolData := do
  let packet := Function.update g.packet 0 (ascii '$')
  match sumPacket packet (maxPacketSize - 1) 1 0 with
  | none => .error .overflow
  | some (i, check) =>
    let packet := Function.update packet i (ascii '#')
    let packet ← store packet (i + 1) (twoDigits check)
    let i := i + 3
    let packet := Function.update packet i 0
    gdbTransmitPacket { g with packet := packet, len := i }

def gdbSendData (data : Chars) : Except Fault GdbProtocolData := do
  let packet ← store g.packet buffer data
  gdbSendBuffer { g with packet := packet }

/-- `PREFETCH_ABORT` and `DATA_ABORT` have one answer. -/
def gdbSendStopReason : Except Fault GdbProtocolData :=
  if g.targetException = UNDEFINED_INSTRUCTION then gdbSendData g (ofString "S04")
  else if g.targetException = PREFETCH_ABORT ∨ g.targetException = DATA_ABORT then
    gdbSendData g (ofString "S10")
  else gdbSendData g (ofString "S05")

end

/-! ## Words as text -/

/-- The first index into the union and the step: `target_big_endian` is the build switch. -/
def uint32Order (b : Build) : Word × Word :=
  if isBigEndian b.host = b.bigEndianSimulator then (0, 1) else (3, -1)

/-- The indices `for (; (i<4) && (i>=0); i+=step)` runs through, in the given number of turns at
most. -/
def uint32Indices : Nat → Word → Word → List Nat
  | 0, _, _ => []
  | n + 1, i, step => if i < 4 ∧ 0 ≤ i then i.toNat :: uint32Indices n (i + step) step else []

/-- The loop runs four times in either direction, so that five turns leave it (`uint32Indices_eq`).
-/
def uint32Loop (b : Build) : List Nat := uint32Indices 5 (uint32Order b).1 (uint32Order b).2

/-- One turn of `read_uint32`: the position, `value`, and the bytes of the union. -/
def readUint32Turn (b : Build) (t : Text) (s : Nat × Word × (Nat → Byte)) (i : Nat) :
    Nat × Word × (Nat → Byte) :=
  let value := b.scanWord 2 (t.str s.1) s.2.1
  (s.1 + 2, value, Function.update s.2.2 i (u8 value))

def readUint32 (b : Build) (t : Text) (data : Nat) : Word :=
  let s := (uint32Loop b).foldl (readUint32Turn b t)
    (data, b.host.garbage 32, b.host.objectByte (b.host.garbage 32))
  b.host.ofObject s.2.2

/-- The text `write_uint32` puts at `data`. -/
def writeUint32 (b : Build) (value : Word) : Chars :=
  (uint32Loop b).flatMap fun i => twoDigits (b.host.objectByte value i)

/-! ## The commands -/

namespace Gdb

section
variable (b : Build) (turns : Nat) (g : GdbProtocolData) (t : Text) (data : Nat)

def IsBreakpoint (instruction : Word) : Prop := instruction &&& 0xFFF000F0 = 0xE7F000F0

instance (instruction : Word) : Decidable (IsBreakpoint instruction) :=
  inferInstanceAs (Decidable (_ = _))

/-- The address and the word `cont` looks at before a step. -/
def lookAhead (h : Host) (p : ArmCoreData) (instruction : Word) : Int × Word :=
  let r15 := armReadRegister p 15 - 4
  armReadWord h p r15 instruction

/-- What the loop of `cont` changes. -/
structure ContState where
  arm : ArmCoreData
  targetException : Int
  instruction : Word
  fin : Bool

/-- One turn of the loop, as long as `end` is not set. -/
def contTurn (h : Host) (s : ContState) : ContState :=
  if s.fin then s
  else
    let (_, instruction) := lookAhead h s.arm s.instruction
    if IsBreakpoint instruction then { s with instruction := instruction, fin := true }
    else
      let (targetException, arm) := armStep h s.arm
      { s with arm := arm, targetException := targetException, instruction := instruction }

def contStart : ContState where
  arm := g.arm
  targetException := g.targetException
  instruction := b.host.garbage 32
  fin := false

def cont : Except Fault GdbProtocolData :=
  let s := (contTurn b.host)^[turns] (contStart b g)
  if s.fin then gdbSendStopReason { g with arm := s.arm, targetException := s.targetException }
  else .error .running

def killRequest : Except Fault GdbProtocolData := .ok { g with fd := shutdown g.fd }

def query : Except Fault GdbProtocolData :=
  if t.str data = ofString "Offsets" then gdbSendData g (ofString "Text=0;Data=0;Bss=0")
  else if (t.str data).take 9 = ofString "Supported" then gdbSendData g (ofString "PacketSize=400")
  else if t.str data = ofString "TStatus" then gdbSendData g (ofString "T0;tnotrun:0")
  else if t.str data = ofString "Symbol::" then gdbSendData g (ofString "")
  else gdbSendData g (ofString "")

/-- The words `read_general_registers` writes: `r0` to `r15`, eight floating-point registers of
three words, `fps` and the CPSR. The program counter is one instruction in advance. -/
def generalRegisters (p : ArmCoreData) : List Chars :=
  (List.range 15).map (fun i => writeUint32 b (armReadRegister p (BitVec.ofNat 8 i))) ++
    [writeUint32 b (armReadRegister p 15 - 4)] ++
    List.replicate (8 * 3) (ofString "xxxxxxxx") ++ [ofString "xxxxxxxx"] ++
    [writeUint32 b (armReadCpsr p)]

def readGeneralRegisters : Except Fault GdbProtocolData := do
  let packet ← storeAll g.packet buffer (generalRegisters b g.arm)
  gdbSendBuffer { g with packet := packet }

/-- `while (size-- && (memory_read_byte(mem, address++, &value) != -1))`. -/
def readMemoryLoop (h : Host) (mem : MemoryData) :
    Nat → Word → Byte → Nat → (Nat → Byte) → Except Fault (Nat → Byte)
  | 0, _, _, _, packet => .ok packet
  | size + 1, address, value, position, packet =>
    let (result, value) := memoryReadByte h mem address value
    if result ≠ -1 then do
      let packet ← store packet position (twoDigits value)
      readMemoryLoop h mem size (address + 1) value (position + 2) packet
    else .ok packet

/-- The address and the size in the arguments of `read_memory` and `write_memory_binary`. -/
def request : Word × Word :=
  b.scanPair (t.str data) (b.host.garbage 32) (b.host.garbage 32)

def readMemory : Except Fault GdbProtocolData := do
  let (address, size) := request b t data
  let packet := Function.update g.packet buffer 0
  let packet ←
    readMemoryLoop b.host g.arm.mem size.toNat address (b.host.garbage 8) buffer packet
  gdbSendBuffer { g with packet := packet }

def readRegister : Except Fault GdbProtocolData := do
  let reg := b.atoi (t.str data)
  if ¬ reg < 16 then .error .assertion
  else
    let value := armReadRegister g.arm (u8 reg) - if reg = 15 then 4 else 0
    let packet ← store g.packet buffer (writeUint32 b value)
    gdbSendBuffer { g with packet := packet }

def reason : Except Fault GdbProtocolData := gdbSendStopReason g

def setThread : Except Fault GdbProtocolData :=
  let type := t.get data
  let value := (b.atoi (t.str (data + 1))).toInt
  if (type = ascii 'c' ∨ type = ascii 'g') ∧ value < 1 ∧ -2 < value then gdbSendData g (ofString "OK")
  else gdbSendData g (ofString "E01")

def step : Except Fault GdbProtocolData :=
  let (targetException, arm) := armStep b.host g.arm
  gdbSendStopReason { g with arm := arm, targetException := targetException }

/-- The words of the floating-point registers and of `fps` are read and dropped. -/
def writeGeneralRegisters : Except Fault GdbProtocolData :=
  let arm := (List.range 16).foldl (fun arm i =>
    armWriteRegister arm (BitVec.ofNat 8 i) (readUint32 b t (data + 8 * i))) g.arm
  let arm := armWriteCpsr arm (readUint32 b t (data + 8 * (16 + 8 * 3 + 1)))
  gdbSendData { g with arm := arm } (ofString "OK")

/-- The loop of `write_memory_binary`, once `write_ok` is set: the memory and `write_ok`. -/
def writeMemoryLoop (h : Host) (t : Text) : Nat → MemoryData → Word → Nat → MemoryData × Bool
  | 0, mem, _, _ => (mem, true)
  | size + 1, mem, address, content =>
    let (content, value) :=
      if t.get content = 0x7d then (content + 1, t.get (content + 1) ^^^ 0x20)
      else (content, t.get content)
    let (result, mem) := memoryWriteByte h mem address value
    if result = 0 then writeMemoryLoop h t size mem (address + 1) (content + 1)
    else (mem, false)

/-- The first test compares the address with the number of words of the memory. -/
def writeMemoryBinary : Except Fault GdbProtocolData := do
  let (address, size) := request b t data
  let writeOk := decide (address.toNat < memoryGetSize g.arm.mem)
  let (mem, writeOk) ←
    if size = 0 ∨ writeOk = false then .ok (g.arm.mem, writeOk)
    else
      match t.index data (ascii ':') with
      | none => .error .nullPointer
      | some colon => .ok (writeMemoryLoop b.host t size.toNat g.arm.mem address (colon + 1))
  let g := { g with arm := { g.arm with mem := mem } }
  if writeOk then gdbSendData g (ofString "OK") else gdbSendData g (ofString "E02")

def writeRegister : Except Fault GdbProtocolData :=
  let reg := b.scanWord (t.str data).length (t.str data) (b.host.garbage 32)
  match t.index data (ascii '=') with
  | none => .error .nullPointer
  | some equals =>
    let value := readUint32 b t (equals + 1)
    if ¬ reg < 16 then .error .assertion
    else gdbSendData { g with arm := armWriteRegister g.arm (u8 reg) value } (ofString "OK")

end

end Gdb

/-! ## Packets -/

inductive GdbHandler where
  | cont | killRequest | query | readGeneralRegisters | readMemory | readRegister | reason
  | setThread | step | writeGeneralRegisters | writeMemoryBinary | writeRegister
  deriving DecidableEq

/-- The table `handler` as `gdb_init` fills it. -/
def gdbHandler (index : Byte) : Option GdbHandler :=
  if index = ascii 'c' then some .cont
  else if index = ascii 'k' then some .killRequest
  else if index = ascii 'q' then some .query
  else if index = ascii 'g' then some .readGeneralRegisters
  else if index = ascii 'm' then some .readMemory
  else if index = ascii 'p' then some .readRegister
  else if index = ascii '?' then some .reason
  else if index = ascii 'H' then some .setThread
  else if index = ascii 's' then some .step
  else if index = ascii 'G' then some .writeGeneralRegisters
  else if index = ascii 'X' then some .writeMemoryBinary
  else if index = ascii 'P' then some .writeRegister
  else none

def GdbHandler.run (b : Build) (turns : Nat) (g : GdbProtocolData) (t : Text) (data : Nat) :
    GdbHandler → Except Fault GdbProtocolData
  | cont => Gdb.cont b turns g
  | killRequest => Gdb.killRequest g
  | query => Gdb.query g t data
  | readGeneralRegisters => Gdb.readGeneralRegisters b g
  | readMemory => Gdb.readMemory b g t data
  | readRegister => Gdb.readRegister b g t data
  | reason => Gdb.reason g
  | setThread => Gdb.setThread b g t data
  | step => Gdb.step b g
  | writeGeneralRegisters => Gdb.writeGeneralRegisters b g t data
  | writeMemoryBinary => Gdb.writeMemoryBinary b g t data
  | writeRegister => Gdb.writeRegister b g t data

/-- `malloc` gives a structure with whatever content it has. -/
def gdbInitData (arm : ArmCoreData) (content : Nat → Byte) : GdbProtocolData where
  arm := arm
  targetException := 0
  fd := { sent := [], shut := false }
  packet := content
  len := 0

/-- The debugger of a core at a word, with nothing received. -/
def gdbAt (word : Word) : GdbProtocolData := gdbInitData (coreAt word) fun _ => 0

section
variable (b : Build) (turns : Nat) (g : GdbProtocolData) (packet : Text) (length : Nat)

/-- The index of `#`: the loop `for (i=1; i<length-3; i++)` ends there. -/
def packetEnd : Nat := max 1 (length - 3)

/-- The sum of the payload. -/
def packetCheck : Byte :=
  (List.range' 1 (packetEnd length - 1)).foldl (fun check i => check + packet.get i) 0

def packetGiven : Word :=
  let s := packet.str (packetEnd length + 1)
  b.scanWord s.length s (b.host.garbage 32)

/-- The packet with a terminator for its payload, in which the command is byte 1 and its arguments
start at byte 2. -/
def packetText : Text := packet.set (packetEnd length) 0

def gdbPacketAnalysis : Except Fault GdbProtocolData :=
  if u32 (packetCheck packet length) = packetGiven b packet length then do
    let g ← gdbSendAck g
    let packet := packetText packet length
    match gdbHandler (packet.get 1) with
    | some handler => handler.run b turns g packet 2
    | none => gdbSendData g (ofString "")
  else gdbRequireRetransmission g

end

end Armator
