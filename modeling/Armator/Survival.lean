import Armator.Execution
import Armator.GdbRegisters
import Armator.PacketBounds
import Armator.Persistence

/-!
# What brings the process down

A request for memory can overflow `packet`, one for a register can fail an assertion, and a write
without its separator reads through a null pointer (`faultOf`). Nothing else that is received does any
harm, and what a session has done before does not matter: only the size of the memory does, and no
request changes it. So the first such request of a session is its end (`session_faults`).
-/

namespace Armator

open CString Packet

/-! ## Faults of requests -/

section
variable (b : Build) (size : Nat) (t : Text)

/-- The fault of a handler, for a memory of a size. `cont` may also not come to an end. -/
def requestFault : GdbHandler → Option Fault
  | .readMemory =>
    if acceptedBytes size (Gdb.request b t 2).1 (Gdb.request b t 2).2.toNat ≤ 509 then none
    else some .overflow
  | .readRegister => if b.atoi (t.str 2) < 16 then none else some .assertion
  | .writeMemoryBinary =>
    if t.index 2 (ascii ':') ≠ none ∨ (Gdb.request b t 2).2 = 0 ∨
      size ≤ (Gdb.request b t 2).1.toNat then none
    else some .nullPointer
  | .writeRegister =>
    if t.index 2 (ascii '=') = none then some .nullPointer
    else if Gdb.writtenRegister b t 2 < 16 then none else some .assertion
  | _ => none

end

/-- The fault that a received event is, if it is one. -/
def faultOf (b : Build) (size : Nat) : ScannerEvent → Option Fault
  | .packet token beyond =>
    if IsRequest b (.packet token beyond) then
      (commandOf token beyond).bind (requestFault b size (textOf token beyond))
    else none
  | _ => none

/-- The event is a request for the handler. -/
def Requests (b : Build) (handler : GdbHandler) : ScannerEvent → Prop
  | .packet token beyond => SumAccepted b token beyond ∧ commandOf token beyond = some handler
  | _ => False

section
variable {b : Build} {turns : Nat} {g : GdbProtocolData} {t : Text} {handler : GdbHandler}

theorem run_of_fault {fault : Fault} (hfault : requestFault b g.arm.mem.size t handler = some fault) :
    handler.run b turns g t 2 = .error fault := by
  cases handler with
  | readMemory =>
    rw [requestFault] at hfault
    split at hfault
    · cases hfault
    · next hlong =>
      cases hfault
      exact (readMemory_overflow_iff b g t 2).mpr (Nat.lt_of_not_le hlong)
  | readRegister =>
    rw [requestFault] at hfault
    split at hfault
    · cases hfault
    · next hreg =>
      cases hfault
      rw [GdbHandler.run, Gdb.readRegister, if_pos hreg]
  | writeMemoryBinary =>
    rw [requestFault] at hfault
    split at hfault
    · cases hfault
    · next hnone =>
      cases hfault
      obtain ⟨hindex, hwrites⟩ := not_or.mp hnone
      obtain ⟨hsize, haddress⟩ := not_or.mp hwrites
      have hin : (Gdb.request b t 2).1.toNat < memoryGetSize g.arm.mem := Nat.lt_of_not_le haddress
      simp only [GdbHandler.run, Gdb.writeMemoryBinary, not_not.mp hindex, decide_eq_true hin]
      rw [if_neg fun h => h.elim hsize Bool.noConfusion]
      rfl
  | writeRegister =>
    rw [requestFault] at hfault
    split at hfault
    · next hindex =>
      cases hfault
      simp only [GdbHandler.run, Gdb.writeRegister, hindex]
    · next hindex =>
      split at hfault
      · cases hfault
      · next hreg =>
        cases hfault
        obtain ⟨equals, hequals⟩ := Option.ne_none_iff_exists'.mp hindex
        unfold Gdb.writtenRegister at hreg
        simp only [GdbHandler.run, Gdb.writeRegister, hequals, if_pos hreg]
  | _ => cases hfault

theorem answers_of_sound (hsound : requestFault b g.arm.mem.size t handler = none)
    (hstops : handler = .cont → (Gdb.contEnd b g turns).fin = true) :
    handler.Answers b turns g t 2 ∧ (handler.answer b turns g t 2).length ≤ 1019 := by
  cases handler with
  | cont => exact ⟨hstops rfl, length_stopReason _⟩
  | killRequest => exact ⟨trivial, Nat.zero_le _⟩
  | query =>
    refine ⟨trivial, ?_⟩
    rw [GdbHandler.answer, Gdb.queryAnswer]
    split
    · decide
    · split
      · decide
      · split <;> decide
  | readGeneralRegisters =>
    refine ⟨trivial, ?_⟩
    rw [GdbHandler.answer, length_generalRegisters]
    decide
  | readMemory =>
    rw [requestFault] at hsound
    refine ⟨trivial, ?_⟩
    rw [GdbHandler.answer, length_readMemory_reply]
    split at hsound
    · next hfits =>
      have hreplied : repliedBytes b g t 2 ≤ 509 := hfits
      omega
    · cases hsound
  | readRegister =>
    rw [requestFault] at hsound
    split at hsound
    · next hreg =>
      refine ⟨hreg, ?_⟩
      rw [GdbHandler.answer, length_writeUint32]
      decide
    · cases hsound
  | reason => exact ⟨trivial, length_stopReason _⟩
  | setThread =>
    refine ⟨trivial, ?_⟩
    rw [GdbHandler.answer, Gdb.threadAnswer]
    split <;> decide
  | step => exact ⟨trivial, length_stopReason _⟩
  | writeGeneralRegisters => exact ⟨trivial, (by decide : (ofString "OK").length ≤ 1019)⟩
  | writeMemoryBinary =>
    rw [requestFault] at hsound
    split at hsound
    · next hcontent =>
      refine ⟨hcontent, ?_⟩
      rw [GdbHandler.answer, Gdb.writeAnswer]
      split <;> decide
    · cases hsound
  | writeRegister =>
    rw [requestFault] at hsound
    split at hsound
    · cases hsound
    · next hindex =>
      split at hsound
      · next hreg => exact ⟨⟨hindex, hreg⟩, (by decide : (ofString "OK").length ≤ 1019)⟩
      · cases hsound

/-! ## The size of the memory -/

theorem size_stepTargets (h : Host) (target : ArmCoreData × Int) (k : Nat) :
    ((stepTarget h)^[k] target).1.mem.size = target.1.mem.size := by
  induction k with
  | zero => rfl
  | succ k ih =>
    rw [Function.iterate_succ_apply', ← ih]
    exact (frame_stepped h _).size

theorem size_writeMemoryLoop (h : Host) (t : Text) (n : Nat) (mem : MemoryData) (address : Word)
    (content : Nat) : (Gdb.writeMemoryLoop h t n mem address content).1.size = mem.size := by
  induction n generalizing mem address content with
  | zero => rfl
  | succ n ih =>
    simp only [Gdb.writeMemoryLoop]
    generalize (if t.get content = 0x7d then (content + 1, t.get (content + 1) ^^^ 0x20)
      else (content, t.get content)) = turn
    split
    · rw [ih]
      exact (frame_memoryWriteByte h mem address _).size
    · exact (frame_memoryWriteByte h mem address _).size

theorem size_core (handler : GdbHandler) (t : Text) :
    (handler.core b turns g t 2).mem.size = g.arm.mem.size := by
  cases handler with
  | cont =>
    obtain ⟨k, -, htarget⟩ := target_contTurns b.host (Gdb.contStart b g) turns
    have harm : (Gdb.contEnd b g turns).arm = _ := congrArg Prod.fst htarget
    rw [GdbHandler.core, harm]
    exact size_stepTargets b.host _ k
  | step => exact (frame_stepped b.host g.arm).size
  | writeGeneralRegisters =>
    rw [GdbHandler.core, mem_writtenGeneralRegisters]
  | writeMemoryBinary =>
    rw [GdbHandler.core, Gdb.writtenMemory]
    split
    · exact size_writeMemoryLoop ..
    · rfl
  | _ => rfl

end

/-! ## Requests -/

section
variable {b : Build} {turns : Nat} {g g' : GdbProtocolData} {token : Chars} {beyond : Nat → Byte}

theorem receive_fault (hsum : SumAccepted b token beyond) (hopen : g.fd.shut = false) {fault : Fault}
    (hfault : faultOf b g.arm.mem.size (.packet token beyond) = some fault) :
    receive b turns g token beyond = .error fault := by
  have hrequest : IsRequest b (.packet token beyond) := hsum
  rw [faultOf, if_pos hrequest, Option.bind_eq_some_iff] at hfault
  obtain ⟨handler, hcommand, hfault⟩ := hfault
  rw [receive_request hsum, gdbSendAck_of_open g hopen, hcommand]
  exact run_of_fault (g := acked g) hfault

theorem receive_sound (hsum : SumAccepted b token beyond) (hopen : g.fd.shut = false)
    (hsound : faultOf b g.arm.mem.size (.packet token beyond) = none)
    (hkill : commandOf token beyond ≠ some .killRequest)
    (hstops : commandOf token beyond = some .cont → (Gdb.contEnd b g turns).fin = true) :
    ∃ g', receive b turns g token beyond = .ok g' ∧ g'.fd.shut = false ∧
      g'.arm.mem.size = g.arm.mem.size := by
  have hrequest : IsRequest b (.packet token beyond) := hsum
  rw [faultOf, if_pos hrequest] at hsound
  have hanswered : ∀ {arm : ArmCoreData} {exception : Int} {payload : Chars},
      Effect b turns g token beyond arm exception payload → payload.length ≤ 1019 →
      arm.mem.size = g.arm.mem.size →
      ∃ g', receive b turns g token beyond = .ok g' ∧ g'.fd.shut = false ∧
        g'.arm.mem.size = g.arm.mem.size := by
    intro arm exception payload heffect hlength hsize
    obtain ⟨g', hok, hreplied⟩ := receive_of_effect hsum hopen heffect hlength
    have hsession := session_of_replied hreplied
    refine ⟨g', hok, (congrArg Session.shut hsession).trans hopen, ?_⟩
    exact (congrArg (fun s : Session => s.arm.mem.size) hsession).trans hsize
  cases hcommand : commandOf token beyond with
  | none => exact hanswered (.unsupported hcommand) (Nat.zero_le _) rfl
  | some handler =>
    rw [hcommand, Option.bind_some] at hsound
    obtain ⟨hanswers, hlength⟩ := answers_of_sound hsound fun hcont => hstops (hcont ▸ hcommand)
    refine hanswered (.handled handler hcommand ?_ hanswers) hlength (size_core handler _)
    rintro rfl
    exact hkill hcommand

end

/-! ## Sessions -/

/-- A session that goes on, over a memory of a size. -/
structure Serving (size : Nat) (data : ParserData) : Prop where
  shut : data.gdb.fd.shut = false
  size : data.gdb.arm.mem.size = size
  stored : Stored data.gdb

section
variable {b : Build} {turns size : Nat} {data : ParserData} {event : ScannerEvent}

theorem size_of_session {g k : GdbProtocolData} (hsame : g.session = k.session) :
    g.arm.mem.size = k.arm.mem.size := congrArg (fun s : Session => s.arm.mem.size) hsame

theorem faultOf_noise (hnoise : ¬ IsRequest b event) : faultOf b size event = none := by
  cases event with
  | packet token beyond => exact if_neg hnoise
  | _ => rfl

theorem Serving.of_session {data' : ParserData} (hserving : Serving size data)
    (hsame : data'.gdb.session = data.gdb.session) (hstored : Stored data'.gdb) :
    Serving size data' := by
  refine ⟨?_, ?_, hstored⟩
  · exact (shut_of_session hsame).trans hserving.shut
  · exact (size_of_session hsame).trans hserving.size

theorem Serving.fault (hserving : Serving size data) {fault : Fault}
    (hfault : faultOf b size event = some fault) :
    scannerAction b turns data event = .error fault := by
  by_cases hrequest : IsRequest b event
  · cases event with
    | packet token beyond =>
      obtain ⟨data1, herror⟩ := handleError_of_open hserving.shut
      have hserving1 := hserving.of_session (session_handleError herror)
        (stored_handleError hserving.stored herror)
      rw [← hserving1.size] at hfault
      rw [scannerAction, herror]
      show (receive b turns data1.gdb token beyond >>= _) = _
      rw [receive_fault hrequest hserving1.shut hfault]
      rfl
    | _ => exact hrequest.elim
  · rw [faultOf_noise hrequest] at hfault
    cases hfault

theorem Serving.sound (hserving : Serving size data) (hsound : faultOf b size event = none)
    (hkill : ¬ Requests b .killRequest event)
    (hstops : Requests b .cont event → (Gdb.contEnd b data.gdb turns).fin = true) :
    ∃ data', scannerAction b turns data event = .ok data' ∧ Serving size data' := by
  by_cases hrequest : IsRequest b event
  · cases event with
    | packet token beyond =>
      have hreceive : ∀ g, g.session = data.gdb.session →
          ∃ g', receive b turns g token beyond = .ok g' ∧ g'.fd.shut = false ∧
            g'.arm.mem.size = size := by
        intro g hsame
        have hsize : g.arm.mem.size = size := (size_of_session hsame).trans hserving.size
        rw [← hsize] at hsound ⊢
        refine receive_sound hrequest ((shut_of_session hsame).trans hserving.shut) hsound
          (fun hcommand => hkill ⟨hrequest, hcommand⟩) fun hcommand => ?_
        have htarget := target_of_session hsame
        exact ((GdbHandler.congr_target .cont (textOf token beyond) 2 htarget).1).mpr
          (hstops ⟨hrequest, hcommand⟩)
      obtain ⟨data', haction, hshut, hsize⟩ := action_of_open hserving.shut hreceive
      exact ⟨data', haction, hshut, hsize, stored_action hserving.stored haction⟩
    | _ => exact hrequest.elim
  · obtain ⟨data', haction⟩ := @noise_of_open b turns data event hserving.shut hrequest
    exact ⟨data', haction, hserving.of_session (session_noise hserving.stored hrequest haction)
      (stored_action hserving.stored haction)⟩

/-- From a session that goes on, the first fault is the end. -/
theorem Serving.run (hserving : Serving size data) {events : List ScannerEvent}
    (hkill : ∀ event ∈ events, ¬ Requests b .killRequest event)
    (hstops : ∀ before event data', before ++ [event] <+: events → Requests b .cont event →
      scannerRun b turns data before = .ok data' → (Gdb.contEnd b data'.gdb turns).fin = true)
    (fault : Fault) :
    scannerRun b turns data events = .error fault ↔
      events.findSome? (faultOf b size) = some fault := by
  induction events generalizing data with
  | nil => exact iff_of_false nofun nofun
  | cons event events ih =>
    rw [List.findSome?_cons]
    cases hfault : faultOf b size event with
    | some fault' =>
      rw [scannerRun, hserving.fault hfault]
      exact ⟨fun heq => congrArg some (Except.error.inj heq),
        fun heq => congrArg Except.error (Option.some.inj heq)⟩
    | none =>
      obtain ⟨data1, haction, hserving1⟩ := hserving.sound hfault
        (hkill event List.mem_cons_self) fun hcont =>
          hstops [] event data (by simp) hcont rfl
      rw [scannerRun_cons haction]
      refine ih hserving1 (fun e he => hkill e (List.mem_cons_of_mem event he)) ?_
      intro before e data' hin hcont hrun
      refine hstops (event :: before) e data' ?_ hcont ?_
      · exact (List.prefix_cons_inj event).mpr hin
      · rw [scannerRun_cons haction, hrun]

end

end Armator
