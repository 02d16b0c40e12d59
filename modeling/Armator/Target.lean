import Armator.GdbSingleRegister
import Armator.Programs
import Armator.Lib.Debugger

/-!
# The simulator as a target

The packets of a debugger are commands to the machine of the architecture. As long as the simulator
supports the steps that are made, and the memory packets stay in the part of the memory that
`write_memory_binary` takes, a session answers its packets as the machine answers the commands, and
goes on standing for the machine (`target_session`).
-/

namespace Armator

open CString Packet
open Arm (Machine Command Reply)

/-! ## Commands and replies as packets -/

/-- The packet says the command. -/
def Says (b : Build) (packet : Chars × (Nat → Byte)) : Command → Prop
  | .reason => SumAccepted b packet.1 packet.2 ∧ commandOf packet.1 packet.2 = some .reason
  | .registers => SumAccepted b packet.1 packet.2 ∧
      commandOf packet.1 packet.2 = some .readGeneralRegisters
  -- the packet has a CPSR as well, which is written over the program counter
  | .writeRegisters v => ∃ text, EncodesRegisters b (fun i => v (BitVec.ofNat 4 i)) (v 15) text ∧
      Carries packet.1 (ascii 'G' :: text)
  | .register r => ∃ i : Fin 16, r = BitVec.ofNat 4 i ∧ ReadsRegister i packet.1
  | .writeRegister r x => ∃ i : Fin 16, r = BitVec.ofNat 4 i ∧ WritesRegister b i x packet.1
  | .readMemory a n => ReadRequest a n packet.1
  | .writeMemory a d => WriteRequest a d packet.1
  | .step => SumAccepted b packet.1 packet.2 ∧ commandOf packet.1 packet.2 = some .step
  | .cont => SumAccepted b packet.1 packet.2 ∧ commandOf packet.1 packet.2 = some .cont

/-- The text says the reply. That of the registers has some CPSR, which is none of the machine. -/
def Tells (b : Build) (text : Chars) : Reply → Prop
  | .registers v => ∃ cpsr, EncodesRegisters b (fun i => v (BitVec.ofNat 4 i)) cpsr text
  | .register x => text = writeUint32 b x
  | .bytes d => text = d.flatMap twoDigits
  | .ok => text = ofString "OK"
  | .stopped => text = ofString "S05"

/-- The simulator does what the machine does. -/
def Follows (h : Host) (be : Bool) (size turns : Nat) (a : Machine) : Command → Prop
  | .reason | .writeRegisters _ | .writeRegister _ _ => True
  | .registers => (a.reg 15).toNat % 4 = 0
  | .register r => r.toNat ≤ 9
  | .readMemory q n => q.toNat + n ≤ 4 * size ∧ 2 * n ≤ 1019
  | .writeMemory q d => q.toNat < size ∧ q.toNat + d.length ≤ 4 * size ∧ d.length < 2 ^ 32
  | .step => Supported h be size a
  | .cont => ∀ n a', a.RunsUpTo be Gdb.IsBreakpoint n a' → n < turns ∧
      (∀ k < n, ∀ c ∈ a.run be k, Supported h be size c) ∧
      (a'.reg 15).toNat % 4 = 0 ∧ (a'.reg 15).toNat + 4 ≤ 4 * size

/-! ## One command -/

/-- The state of a session stands for the machine, and is ready for a packet. -/
structure StandsFor (be : Bool) (size : Nat) (a : Machine) (data : ParserData) : Prop where
  simulates : Simulates be size a data.gdb.arm
  isOpen : data.gdb.fd.shut = false
  stored : Stored data.gdb
  result : IsStepResult data.gdb.targetException

section
variable {b : Build} {turns size : Nat} {be : Bool} {a a' : Machine} {data data' : ParserData}
  {token : Chars} {beyond : Nat → Byte} {q : Word}

theorem acceptsSpan_of_le {n : Nat} (hin : q.toNat + n ≤ 4 * size) : AcceptsSpan size q n := by
  intro i hi
  obtain ⟨k, hk, rfl⟩ := (ByteStore.mem_span q).mp hi
  rw [BitVec.toNat_add, BitVec.toNat_ofNat, Nat.add_mod_mod]
  have hle := Nat.mod_le (q.toNat + k) (2 ^ 32)
  omega

theorem map_storedByte_of {h : Host} (hhost : h.bigEndian = false ∨ be = true) (d : List Byte) :
    d.map (storedByte h be) = d :=
  (map_storedByte_eq_iff h be d).mpr (hhost.imp_right Or.inl)

variable (hstands : StandsFor be size a data)
include hstands

theorem StandsFor.of_action (haction : scannerAction b turns data (.packet token beyond) = .ok data')
    (hsim : Simulates be size a' data'.gdb.arm) (hopen : data'.gdb.fd.shut = false) :
    StandsFor be size a' data' :=
  ⟨hsim, hopen, stored_action hstands.stored haction,
    isStepResult_action hstands.stored hstands.result haction⟩

/-- A packet that is answered in every state of the session. -/
theorem StandsFor.answered {arm : ArmCoreData} {answer : Chars}
    (hreceive : ∀ g : GdbProtocolData, g.arm = data.gdb.arm → g.fd.shut = false →
      ∃ g', receive b turns g token beyond = .ok g' ∧ Answered g g' arm answer)
    (hsim : Simulates be size a' arm) :
    ∃ data', scannerAction b turns data (.packet token beyond) = .ok data' ∧
      StandsFor be size a' data' ∧ lastReply data'.gdb.fd.sent = frame answer := by
  have hanswer : ∀ g, g.session = data.gdb.session → ∃ g', receive b turns g token beyond = .ok g' ∧
      (g'.arm = arm ∧ g'.fd.shut = false ∧ lastReply g'.fd.sent = frame answer) := by
    intro g hsame
    have hopen : g.fd.shut = false := (shut_of_session hsame).trans hstands.isOpen
    obtain ⟨g', hok, hanswered⟩ := hreceive g (congrArg Session.arm hsame) hopen
    exact ⟨g', hok, hanswered.arm, hanswered.shut.trans hopen, hanswered.lastReply⟩
  obtain ⟨data', haction, harm, hopen, hreply⟩ := action_of_open hstands.isOpen hanswer
  refine ⟨data', haction, hstands.of_action haction ?_ hopen, hreply⟩
  rw [harm]
  exact hsim

theorem target_readMemory {n : Nat} (hhost : b.host.bigEndian = false ∨ be = true)
    (hpacket : ReadRequest q n token) (hin : q.toNat + n ≤ 4 * size) (hfits : 2 * n ≤ 1019) :
    ∃ data', scannerAction b turns data (.packet token beyond) = .ok data' ∧
      StandsFor be size a data' ∧
      lastReply data'.gdb.fd.sent = frame ((a.peek q n).flatMap twoDigits) := by
  have hmem := hstands.simulates.mem
  refine hstands.answered (fun g harm hopen => ?_) hstands.simulates
  have hacc : AcceptsSpan g.arm.mem.size q n := by
    rw [harm, hmem]
    exact acceptsSpan_of_le hin
  obtain ⟨g', hok, hanswered⟩ := receive_read b turns beyond hpacket hfits hacc hopen
  refine ⟨g', hok, ?_⟩
  rw [map_storedByte_memo, harm, hmem, map_storedByte_of hhost] at hanswered
  exact hanswered

theorem target_writeMemory {d : List Byte} (hhost : b.host.bigEndian = false ∨ be = true)
    (hpacket : WriteRequest q d token) (hquarter : q.toNat < size)
    (hin : q.toNat + d.length ≤ 4 * size) (hlt : d.length < 2 ^ 32) :
    ∃ data', scannerAction b turns data (.packet token beyond) = .ok data' ∧
      StandsFor be size (a.poke q d) data' ∧
      lastReply data'.gdb.fd.sent = frame (ofString "OK") := by
  have hmem := hstands.simulates.mem
  have hwritten : written b.host data.gdb.arm.mem q d =
      (⟨size, (a.poke q d).mem, be⟩, true) := by
    have hacc : AcceptsSpan data.gdb.arm.mem.size q d.length := by
      rw [hmem]
      exact acceptsSpan_of_le hin
    have hbytes := writeBytes_eq b.host d hacc
    have hok := (writeBytes_ok_iff b.host d).mpr hacc
    rw [hmem] at hbytes hok ⊢
    rw [written, memoryGetSize, if_pos hquarter]
    refine Prod.ext ?_ hok
    rw [hbytes, map_storedByte_of hhost]
    rfl
  have hsim : Simulates be size (a.poke q d)
      { data.gdb.arm with mem := ⟨size, (a.poke q d).mem, be⟩ } := ⟨hstands.simulates.word, rfl⟩
  refine hstands.answered (fun g harm hopen => ?_) hsim
  obtain ⟨g', hok, hanswered⟩ := receive_write b turns beyond hpacket hlt hopen
  rw [harm, hwritten] at hanswered
  exact ⟨g', hok, hanswered⟩

theorem target_step {turns : Nat} (hsum : SumAccepted b token beyond)
    (hcommand : commandOf token beyond = some .step) (hsupported : Supported b.host be size a)
    (hstep : a.step be = some a') :
    ∃ data', scannerAction b turns data (.packet token beyond) = .ok data' ∧
      StandsFor be size a' data' ∧ lastReply data'.gdb.fd.sent = frame (ofString "S05") := by
  obtain ⟨data', haction, hopen, htarget, hreply⟩ :=
    @step_ok b turns data token beyond hsum hcommand hstands.isOpen
  have harm : data'.gdb.arm = stepped b.host data.gdb.arm := congrArg Prod.fst htarget
  have hstands' : StandsFor be size a' data' := by
    refine hstands.of_action haction ?_ hopen
    rw [harm]
    exact simulates_step hstands.simulates hsupported hstep
  rw [stopReason_stepResult hstands'.result] at hreply
  exact ⟨data', haction, hstands', hreply⟩

theorem target_reason (hsum : SumAccepted b token beyond)
    (hcommand : commandOf token beyond = some .reason) :
    ∃ data', scannerAction b turns data (.packet token beyond) = .ok data' ∧
      StandsFor be size a data' ∧ lastReply data'.gdb.fd.sent = frame (ofString "S05") := by
  have heffect : Effect b turns data.gdb token beyond _ _ _ :=
    .handled .reason hcommand nofun trivial
  obtain ⟨data', haction, hsession⟩ :=
    action_of_effect hsum hstands.isOpen heffect (length_stopReason _)
  simp only [GdbProtocolData.session, Session.mk.injEq] at hsession
  obtain ⟨harm, -, hopen, hreply⟩ := hsession
  refine ⟨data', haction, hstands.of_action haction ?_ hopen, ?_⟩
  · rw [harm]
    exact hstands.simulates
  · rw [hreply]
    exact congrArg frame (stopReason_stepResult hstands.result)

theorem target_writeRegisters {v : BitVec 4 → Word} {text : Chars}
    (hencodes : EncodesRegisters b (fun i => v (BitVec.ofNat 4 i)) (v 15) text)
    (hcarries : Carries token (ascii 'G' :: text)) :
    ∃ data', scannerAction b turns data (.packet token beyond) = .ok data' ∧
      StandsFor be size { a with reg := v } data' ∧
      lastReply data'.gdb.fd.sent = frame (ofString "OK") := by
  obtain ⟨t, more, ht, hreceive⟩ := receive_carried hcarries beyond
  have hsim : Simulates be size { a with reg := v }
      (Gdb.writtenGeneralRegisters b data.gdb t 2) := by
    constructor
    · intro r
      obtain ⟨i, rfl⟩ : ∃ i : Fin 16, r = BitVec.ofNat 4 i := by
        revert r
        decide
      rw [u8_ofNat, word_writtenGeneralRegisters hencodes ht]
      split
      · next hi => rw [hi]; rfl
      · rfl
    · rw [mem_writtenGeneralRegisters]
      exact hstands.simulates.mem
  refine hstands.answered (fun g harm hopen => ?_) hsim
  have hsame : Gdb.writtenGeneralRegisters b g t 2 =
      Gdb.writtenGeneralRegisters b data.gdb t 2 := by
    rw [Gdb.writtenGeneralRegisters, harm]
    rfl
  rw [← hsame]
  exact hreceive b turns g .writeGeneralRegisters hopen (by decide) (by decide) trivial
    (show (ofString "OK").length ≤ 1019 by decide)

theorem target_register {i : Fin 16} (hreads : ReadsRegister i token) (hi : i.val ≤ 9) :
    ∃ data', scannerAction b turns data (.packet token beyond) = .ok data' ∧
      StandsFor be size a data' ∧
      lastReply data'.gdb.fd.sent = frame (writeUint32 b (a.reg (BitVec.ofNat 4 i))) := by
  have hword : data.gdb.arm.word (BitVec.ofNat 8 (decimalRegister i)) = a.reg (BitVec.ofNat 4 i) := by
    rw [decimalRegister, if_pos hi, ← u8_ofNat]
    exact hstands.simulates.word _
  refine hstands.answered (fun g harm hopen => ?_) hstands.simulates
  rw [← hword, ← harm]
  exact receive_readRegister b turns beyond hreads hopen

theorem target_writeRegister {i : Fin 16} {x : Word} (hwrites : WritesRegister b i x token) :
    ∃ data', scannerAction b turns data (.packet token beyond) = .ok data' ∧
      StandsFor be size (a.setReg (BitVec.ofNat 4 i) x) data' ∧
      lastReply data'.gdb.fd.sent = frame (ofString "OK") := by
  have hsim := hstands.simulates.write (BitVec.ofNat 4 i) x
  rw [u8_ofNat] at hsim
  refine hstands.answered (fun g harm hopen => ?_) hsim
  rw [← harm]
  exact receive_writeRegister b turns beyond hwrites hopen

theorem target_cont {n : Nat} (hsum : SumAccepted b token beyond)
    (hcommand : commandOf token beyond = some .cont)
    (hruns : a.RunsUpTo be Gdb.IsBreakpoint n a') (hturns : n < turns)
    (hsupported : ∀ k < n, ∀ c ∈ a.run be k, Supported b.host be size c)
    (haligned : (a'.reg 15).toNat % 4 = 0) (hinside : (a'.reg 15).toNat + 4 ≤ 4 * size) :
    ∃ data', scannerAction b turns data (.packet token beyond) = .ok data' ∧
      StandsFor be size a' data' ∧ lastReply data'.gdb.fd.sent = frame (ofString "S05") := by
  have hrun := simulates_runs hstands.simulates hsupported
  have hend := hrun n (Nat.le_refl n) a' hruns.run
  have hbefore : ∀ k < n, ¬ FetchFails b.host ((stepped b.host)^[k] data.gdb.arm) ∧
      ¬ Gdb.IsBreakpoint (fetchedWord b.host ((stepped b.host)^[k] data.gdb.arm)) := by
    intro k hk
    obtain ⟨c, hc⟩ := Arm.Machine.exists_run hruns.run (Nat.le_of_lt hk)
    have hsim := hrun k (Nat.le_of_lt hk) c hc
    have hsupport := hsupported k hk c hc
    refine ⟨hsim.readable hsupport.aligned hsupport.inside, ?_⟩
    rw [hsim.fetchedWord hsupport.aligned hsupport.inside]
    exact hruns.first k hk c hc
  have hstop : ¬ FetchFails b.host ((stepped b.host)^[n] data.gdb.arm) ∧
      Gdb.IsBreakpoint (fetchedWord b.host ((stepped b.host)^[n] data.gdb.arm)) := by
    refine ⟨hend.readable haligned hinside, ?_⟩
    rw [hend.fetchedWord haligned hinside]
    exact hruns.stop
  obtain ⟨data', haction, harm, hopen, hreply⟩ :=
    cont_ok hstands.isOpen hsum hcommand hbefore hstop hturns
  have hstands' : StandsFor be size a' data' := by
    refine hstands.of_action haction ?_ hopen
    rw [harm]
    exact hend
  rw [stopReason_stepResult hstands'.result] at hreply
  exact ⟨data', haction, hstands', hreply⟩

/-- **One command**: the packet is answered as the machine answers the command. -/
theorem target_command {command : Command} {reply : Reply} {turns : Nat}
    (hhost : b.host.bigEndian = false ∨ be = true) (hpacket : Says b (token, beyond) command)
    (hfollows : Follows b.host be size turns a command)
    (hperforms : a.Performs be Gdb.IsBreakpoint command a' reply) :
    ∃ data' text, scannerAction b turns data (.packet token beyond) = .ok data' ∧
      StandsFor be size a' data' ∧ lastReply data'.gdb.fd.sent = frame text ∧
      Tells b text reply := by
  cases hperforms with
  | reason =>
    obtain ⟨data', haction, hstands', hreply⟩ := target_reason hstands hpacket.1 hpacket.2
    exact ⟨data', _, haction, hstands', hreply, rfl⟩
  | writeRegisters =>
    obtain ⟨text, hencodes, hcarries⟩ := hpacket
    obtain ⟨data', haction, hstands', hreply⟩ := target_writeRegisters hstands hencodes hcarries
    exact ⟨data', _, haction, hstands', hreply, rfl⟩
  | register =>
    obtain ⟨i, rfl, hreads⟩ := hpacket
    have hi : i.val ≤ 9 := by
      have hlt := i.isLt
      have hle : (BitVec.ofNat 4 i).toNat ≤ 9 := hfollows
      rw [BitVec.toNat_ofNat] at hle
      omega
    obtain ⟨data', haction, hstands', hreply⟩ := target_register hstands hreads hi
    exact ⟨data', _, haction, hstands', hreply, rfl⟩
  | writeRegister =>
    obtain ⟨i, rfl, hwrites⟩ := hpacket
    obtain ⟨data', haction, hstands', hreply⟩ := target_writeRegister hstands hwrites
    exact ⟨data', _, haction, hstands', hreply, rfl⟩
  | registers =>
    obtain ⟨data', text, haction, harm, hopen, hreply, hregisters⟩ :=
      registers_ok hstands.isOpen hpacket.1 hpacket.2 hstands.simulates hfollows
    refine ⟨data', text, haction, hstands.of_action haction ?_ hopen, hreply, _, hregisters⟩
    rw [harm]
    exact hstands.simulates
  | readMemory =>
    obtain ⟨data', haction, hstands', hreply⟩ :=
      target_readMemory hstands hhost hpacket hfollows.1 hfollows.2
    exact ⟨data', _, haction, hstands', hreply, rfl⟩
  | writeMemory =>
    obtain ⟨data', haction, hstands', hreply⟩ :=
      target_writeMemory hstands hhost hpacket hfollows.1 hfollows.2.1 hfollows.2.2
    exact ⟨data', _, haction, hstands', hreply, rfl⟩
  | step hstep =>
    obtain ⟨data', haction, hstands', hreply⟩ :=
      target_step hstands hpacket.1 hpacket.2 hfollows hstep
    exact ⟨data', _, haction, hstands', hreply, rfl⟩
  | cont hruns =>
    obtain ⟨hturns, hsupported, haligned, hinside⟩ := hfollows _ _ hruns
    obtain ⟨data', haction, hstands', hreply⟩ := target_cont hstands hpacket.1 hpacket.2 hruns hturns
      hsupported haligned hinside
    exact ⟨data', _, haction, hstands', hreply, rfl⟩

end

/-! ## Sessions -/

/-- The packets of a session one after the other, and the last reply after each. -/
inductive Converses (b : Build) (turns : Nat) :
    ParserData → List (Chars × (Nat → Byte)) → List Chars → ParserData → Prop where
  | nil (data : ParserData) : Converses b turns data [] [] data
  | cons {data data' data'' : ParserData} {packet : Chars × (Nat → Byte)}
    {packets : List (Chars × (Nat → Byte))} {replies : List Chars}
    (haction : scannerAction b turns data (.packet packet.1 packet.2) = .ok data')
    (hrest : Converses b turns data' packets replies data'') :
    Converses b turns data (packet :: packets) (lastReply data'.gdb.fd.sent :: replies) data''

/-- The reply packet says the reply. -/
def IsReplyPacket (b : Build) (reply : Reply) (packet : Chars) : Prop :=
  ∃ text, packet = frame text ∧ Tells b text reply

theorem converses_of_standsFor {b : Build} {turns size : Nat} {be : Bool} {a a' : Machine}
    {data : ParserData} {packets : List (Chars × (Nat → Byte))} {commands : List Command}
    {replies : List Reply} (hhost : b.host.bigEndian = false ∨ be = true)
    (hstands : StandsFor be size a data) (hpacket : List.Forall₂ (Says b) packets commands)
    (hperforms : Machine.PerformsAll be Gdb.IsBreakpoint (Follows b.host be size turns)
      a commands a' replies) :
    ∃ data' answers, Converses b turns data packets answers data' ∧ StandsFor be size a' data' ∧
      List.Forall₂ (IsReplyPacket b) replies answers := by
  induction hperforms generalizing data packets with
  | nil =>
    cases hpacket
    exact ⟨data, [], .nil data, hstands, .nil⟩
  | cons hfollows hperforms hrest ih =>
    cases hpacket with
    | cons hpacket hmore =>
      obtain ⟨data1, text, haction, hstands1, hreply, htells⟩ :=
        target_command hstands hhost hpacket hfollows hperforms
      obtain ⟨data', answers, hconverses, hstands', hanswers⟩ := ih hstands1 hmore
      exact ⟨data', _, .cons haction hconverses, hstands', .cons ⟨text, hreply, htells⟩ hanswers⟩

/-- `MOV r0, #5` and `MOV r1, #6` in front of a breakpoint. -/
def movStopCore : ArmCoreData := coreOf 32 [0xE3A00005, 0xE3A01006, 0xE7F000F0]

theorem runs_movStopCore :
    ∃ a, movStopCore.machine.RunsUpTo true Gdb.IsBreakpoint 2 a ∧ a.reg 15 = 8 ∧
      Follows Host.x86 true 32 3 movStopCore.machine .cont := by
  obtain ⟨a1, a2, hstep1, hstep2, hgo0, hgo1, hstop, hpc, hsupported0, hsupported1⟩ :
      ∃ a1 a2, movStopCore.machine.step true = some a1 ∧ a1.step true = some a2 ∧
        ¬ Gdb.IsBreakpoint (movStopCore.machine.fetch true) ∧ ¬ Gdb.IsBreakpoint (a1.fetch true) ∧
        Gdb.IsBreakpoint (a2.fetch true) ∧ a2.reg 15 = 8 ∧
        Supported Host.x86 true 32 movStopCore.machine ∧ Supported Host.x86 true 32 a1 :=
    ⟨_, _, rfl, rfl, by decide, by decide, by decide, by decide, by decide, by decide⟩
  have hbefore : ∀ k < 2, ∀ c ∈ movStopCore.machine.run true k,
      c = movStopCore.machine ∨ c = a1 := by
    intro k hk c hc
    interval_cases k
    · exact Or.inl (Option.some.inj hc).symm
    · rw [Machine.run, hstep1] at hc
      exact Or.inr (Option.some.inj hc).symm
  have hruns : movStopCore.machine.RunsUpTo true Gdb.IsBreakpoint 2 a2 := by
    refine ⟨?_, hstop, fun k hk c hc => ?_⟩
    · rw [Machine.run, hstep1, Option.bind_some, Machine.run, hstep2]
      rfl
    · rcases hbefore k hk c hc with rfl | rfl
      · exact hgo0
      · exact hgo1
  refine ⟨a2, hruns, hpc, fun n a' hruns' => ?_⟩
  obtain ⟨rfl, rfl⟩ := hruns.unique hruns'
  refine ⟨by decide, fun k hk c hc => ?_, ?_, ?_⟩
  · rcases hbefore k hk c hc with rfl | rfl
    · exact hsupported0
    · exact hsupported1
  · rw [hpc]
    decide
  · rw [hpc]
    decide

end Armator
