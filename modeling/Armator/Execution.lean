import Armator.Decode
import Armator.Session

/-!
# Running the target

`s` makes one step and `c` makes steps up to a breakpoint, in a loop of its own. What `c` leaves is
what some requests `s` in a row leave (`cont_steps`). Both store what `arm_step` returns, which is
no number of an abort or of an undefined instruction, so that a debugger is told the same about
every stop (`stop_reply`).
-/

namespace Armator

open CString Packet

/-! ## The exception reported -/

/-- The results of `arm_step`: nothing, or the reset of a failed condition. -/
def IsStepResult (result : Int) : Prop := result = 0 ∨ result = 1

theorem isStepResult_armStep (h : Host) (p : ArmCoreData) : IsStepResult (armStep h p).1 := by
  by_cases hpass : Passed h p
  · exact Or.inl (by rw [armStep_of_passed hpass, selectExecuteInstruction_result])
  · exact Or.inr (by rw [armStep_of_failed hpass])

theorem stopReason_stepResult {result : Int} (hresult : IsStepResult result) :
    stopReason result = ofString "S05" := by
  rcases hresult with rfl | rfl <;> rfl

/-! ## Turns as steps -/

section
variable {b : Build} {turns : Nat} {g : GdbProtocolData}

/-- What `s` makes of the core and of the exception stored. -/
def stepTarget (h : Host) (target : ArmCoreData × Int) : ArmCoreData × Int :=
  ((armStep h target.1).2, (armStep h target.1).1)

def Gdb.ContState.target (s : Gdb.ContState) : ArmCoreData × Int := (s.arm, s.targetException)

theorem target_contTurn (h : Host) (s : Gdb.ContState) :
    (Gdb.contTurn h s).target = s.target ∨ (Gdb.contTurn h s).target = stepTarget h s.target := by
  rw [Gdb.contTurn]
  split
  · exact Or.inl rfl
  · dsimp only
    split
    · exact Or.inl rfl
    · exact Or.inr rfl

theorem target_contTurns (h : Host) (s : Gdb.ContState) (n : Nat) :
    ∃ k ≤ n, ((Gdb.contTurn h)^[n] s).target = (stepTarget h)^[k] s.target := by
  induction n with
  | zero => exact ⟨0, Nat.le_refl 0, rfl⟩
  | succ n ih =>
    obtain ⟨k, hk, htarget⟩ := ih
    rw [Function.iterate_succ_apply']
    rcases target_contTurn h ((Gdb.contTurn h)^[n] s) with hsame | hstep
    · exact ⟨k, Nat.le_succ_of_le hk, hsame.trans htarget⟩
    · refine ⟨k + 1, Nat.succ_le_succ hk, ?_⟩
      rw [hstep, htarget, Function.iterate_succ_apply']

theorem isStepResult_stepTargets (h : Host) {target : ArmCoreData × Int}
    (hresult : IsStepResult target.2) (k : Nat) :
    IsStepResult ((stepTarget h)^[k] target).2 := by
  cases k with
  | zero => exact hresult
  | succ k =>
    rw [Function.iterate_succ_apply']
    exact isStepResult_armStep h _

variable {token : Chars} {beyond : Nat → Byte} {arm : ArmCoreData} {exception : Int}
  {payload : Chars}

theorem Effect.isStepResult (heffect : Effect b turns g token beyond arm exception payload)
    (hresult : IsStepResult g.targetException) : IsStepResult exception := by
  cases heffect with
  | unsupported => exact hresult
  | handled handler hcommand =>
    cases handler with
    | cont =>
      obtain ⟨k, -, htarget⟩ := target_contTurns b.host (Gdb.contStart b g) turns
      have hexception :=
        @isStepResult_stepTargets b.host (g.arm, g.targetException) hresult k
      rw [← show (Gdb.contStart b g).target = (g.arm, g.targetException) from rfl, ← htarget]
        at hexception
      exact hexception
    | step => exact isStepResult_armStep b.host g.arm
    | _ => exact hresult

/-- The commands that are answered by a stop reason. -/
def IsStopCommand (handler : GdbHandler) : Prop :=
  handler = .cont ∨ handler = .step ∨ handler = .reason

theorem Effect.stop {handler : GdbHandler} (hstop : IsStopCommand handler)
    (hcommand : commandOf token beyond = some handler)
    (heffect : Effect b turns g token beyond arm exception payload) :
    payload = stopReason exception := by
  cases heffect with
  | unsupported hnone => cases hcommand.symm.trans hnone
  | handled handler' hcommand' =>
    obtain rfl : handler = handler' := Option.some.inj (hcommand.symm.trans hcommand')
    rcases hstop with rfl | rfl | rfl <;> rfl

/-! ## Stops in a session -/

variable {data data' : ParserData} {event : ScannerEvent}

theorem isStepResult_action (hstored : Stored data.gdb)
    (hresult : IsStepResult data.gdb.targetException)
    (hok : scannerAction b turns data event = .ok data') :
    IsStepResult data'.gdb.targetException := by
  by_cases hrequest : IsRequest b event
  · cases event with
    | packet token beyond =>
      obtain ⟨g, hsame, hreceive⟩ := packet_ok hok
      have hexception : g.targetException = data.gdb.targetException :=
        congrArg Session.targetException hsame
      rw [← hexception] at hresult
      obtain ⟨-, ⟨-, hkilled⟩ | ⟨arm, exception, payload, heffect, -, hreplied⟩⟩ :=
        receive_ok hrequest hreceive
      · rw [hkilled]
        exact hresult
      · rw [hreplied.targetException]
        exact heffect.isStepResult hresult
    | _ => exact hrequest.elim
  · have hexception : data'.gdb.targetException = data.gdb.targetException :=
      congrArg Session.targetException (session_noise hstored hrequest hok)
    rwa [hexception]

theorem isStepResult_run (hstored : Stored data.gdb)
    (hresult : IsStepResult data.gdb.targetException) {events : List ScannerEvent}
    (hok : scannerRun b turns data events = .ok data') :
    IsStepResult data'.gdb.targetException := by
  induction events generalizing data with
  | nil =>
    cases hok
    exact hresult
  | cons event events ih =>
    obtain ⟨data1, haction, hok⟩ := ok_of_bind hok
    exact ih (stored_action hstored haction) (isStepResult_action hstored hresult haction) hok

theorem reply_ok (hsum : SumAccepted b token beyond)
    (hkill : commandOf token beyond ≠ some .killRequest)
    (hok : scannerAction b turns data (.packet token beyond) = .ok data') :
    ∃ arm exception payload, Effect b turns data.gdb token beyond arm exception payload ∧
      data'.gdb.session = ⟨arm, exception, false, frame payload⟩ := by
  obtain ⟨g, hsame, hreceive⟩ := packet_ok hok
  obtain ⟨hopen, hcase⟩ := receive_ok hsum hreceive
  rcases hcase with ⟨hcommand, -⟩ | ⟨arm, exception, payload, heffect, -, hreplied⟩
  · exact absurd hcommand hkill
  · refine ⟨arm, exception, payload, heffect.congr_target (target_of_session hsame), ?_⟩
    rw [session_of_replied hreplied, hopen]

end

/-- **Stops**: in every session the exception stored is 0 or 1, and a request to run the target or
for its stop reason is answered by `S05`. -/
theorem stop_reply (b : Build) (turns : Nat) (arm : ArmCoreData) (packet buffer : Nat → Byte)
    (events : List ScannerEvent) (data : ParserData)
    (hrun : scannerRun b turns (gdbScanner arm packet buffer) events = .ok data) :
    IsStepResult data.gdb.targetException ∧
    ∀ token beyond handler data', SumAccepted b token beyond →
      commandOf token beyond = some handler → IsStopCommand handler →
      scannerAction b turns data (.packet token beyond) = .ok data' →
      lastReply data'.gdb.fd.sent = frame (ofString "S05") := by
  have hstored : Stored (gdbScanner arm packet buffer).gdb := rfl
  have hresult := isStepResult_run hstored (Or.inl rfl) hrun
  refine ⟨hresult, fun token beyond handler data' hsum hcommand hstop hok => ?_⟩
  have hkill : commandOf token beyond ≠ some .killRequest := by
    rw [hcommand]
    rintro hkill
    cases hkill
    rcases hstop with hstop | hstop | hstop <;> cases hstop
  obtain ⟨arm', exception, payload, heffect, hsession⟩ := reply_ok hsum hkill hok
  have hreply : lastReply data'.gdb.fd.sent = frame payload := congrArg Session.reply hsession
  rw [hreply, heffect.stop hstop hcommand, stopReason_stepResult (heffect.isStepResult hresult)]

/-- After a step on an instruction that is skipped. -/
theorem stop_reply_step :
    ∃ data, scannerRun .x86 0 (gdbScanner (coreAt 0) (fun _ => 0) fun _ => 0)
      [.packet (frame (ofString "s")) fun _ => 0] = .ok data ∧
    IsStepResult data.gdb.targetException := by
  obtain ⟨data, hrun⟩ : ∃ data, scannerRun .x86 0 (gdbScanner (coreAt 0) (fun _ => 0) fun _ => 0)
      [.packet (frame (ofString "s")) fun _ => 0] = .ok data :=
    exists_ok (by decide)
  exact ⟨data, hrun, (stop_reply .x86 0 _ _ _ _ data hrun).1⟩

/-! ## Steps in a row -/

section
variable {b : Build} {turns : Nat} {data data' : ParserData} {token : Chars} {beyond : Nat → Byte}

theorem step_ok (hsum : SumAccepted b token beyond)
    (hcommand : commandOf token beyond = some .step) (hopen : data.gdb.fd.shut = false) :
    ∃ data', scannerAction b turns data (.packet token beyond) = .ok data' ∧
      data'.gdb.fd.shut = false ∧
      (data'.gdb.arm, data'.gdb.targetException) =
        stepTarget b.host (data.gdb.arm, data.gdb.targetException) ∧
      lastReply data'.gdb.fd.sent = frame (stopReason data'.gdb.targetException) := by
  have heffect : Effect b turns data.gdb token beyond (armStep b.host data.gdb.arm).2
      (armStep b.host data.gdb.arm).1 (stopReason (armStep b.host data.gdb.arm).1) :=
    .handled .step hcommand nofun trivial
  obtain ⟨data', haction, hsession⟩ :=
    action_of_effect hsum hopen heffect (length_stopReason _)
  simp only [GdbProtocolData.session, Session.mk.injEq] at hsession
  obtain ⟨harm, hexception, hshut, hreply⟩ := hsession
  refine ⟨data', haction, hshut, ?_, ?_⟩
  · rw [harm, hexception]
    rfl
  · rw [hreply, hexception]

theorem steps_ok (hsum : SumAccepted b token beyond)
    (hcommand : commandOf token beyond = some .step) (hopen : data.gdb.fd.shut = false) (k : Nat) :
    ∃ data', scannerRun b turns data (List.replicate k (.packet token beyond)) = .ok data' ∧
      (data'.gdb.arm, data'.gdb.targetException) =
        (stepTarget b.host)^[k] (data.gdb.arm, data.gdb.targetException) ∧
      (k ≠ 0 → lastReply data'.gdb.fd.sent = frame (stopReason data'.gdb.targetException)) := by
  induction k generalizing data with
  | zero => exact ⟨data, rfl, rfl, absurd rfl⟩
  | succ k ih =>
    obtain ⟨data1, haction, hopen1, htarget1, hreply1⟩ := @step_ok b turns data token beyond hsum
      hcommand hopen
    obtain ⟨data', hrun, htarget, hreply⟩ := ih hopen1
    refine ⟨data', ?_, ?_, fun _ => ?_⟩
    · rw [List.replicate_succ, scannerRun_cons haction, hrun]
    · rw [htarget, htarget1, Function.iterate_succ_apply]
    · by_cases hk : k = 0
      · subst hk
        cases hrun
        exact hreply1
      · exact hreply hk

end

/-- **`c` is `s` repeated**: what a request `c` leaves, if it comes to an end, some number of requests
`s` leave as well, with the same reply if there are any. -/
theorem cont_steps (b : Build) (turns : Nat) (data data' : ParserData) (token step : Chars)
    (beyond beyond' : Nat → Byte) (hsum : SumAccepted b token beyond)
    (hcont : commandOf token beyond = some .cont)
    (hok : scannerAction b turns data (.packet token beyond) = .ok data')
    (hsum' : SumAccepted b step beyond') (hstep : commandOf step beyond' = some .step) :
    ∃ k ≤ turns, ∃ data'',
      scannerRun b turns data (List.replicate k (.packet step beyond')) = .ok data'' ∧
      data''.gdb.arm = data'.gdb.arm ∧ data''.gdb.targetException = data'.gdb.targetException ∧
      (k ≠ 0 → lastReply data''.gdb.fd.sent = lastReply data'.gdb.fd.sent) := by
  have hkill : commandOf token beyond ≠ some .killRequest := by
    rw [hcont]
    nofun
  obtain ⟨arm, exception, payload, heffect, hsession⟩ := reply_ok hsum hkill hok
  have hpayload := heffect.stop (Or.inl rfl) hcont
  have hopen : data.gdb.fd.shut = false :=
    open_of_request (show IsRequest b (.packet token beyond) from hsum) hok
  obtain ⟨k, hk, htarget⟩ := target_contTurns b.host (Gdb.contStart b data.gdb) turns
  obtain ⟨data'', hrun, htarget'', hreply⟩ :=
    @steps_ok b turns data step beyond' hsum' hstep hopen k
  have hend : (arm, exception) = (data''.gdb.arm, data''.gdb.targetException) := by
    cases heffect with
    | unsupported hnone => cases hcont.symm.trans hnone
    | handled handler hcommand =>
      obtain rfl : GdbHandler.cont = handler := Option.some.inj (hcont.symm.trans hcommand)
      exact htarget.trans htarget''.symm
  obtain ⟨harm, hexception⟩ := Prod.mk.inj hend
  refine ⟨k, hk, data'', hrun, ?_, ?_, fun hne => ?_⟩
  · rw [← harm]
    exact (congrArg Session.arm hsession).symm
  · rw [← hexception]
    exact (congrArg Session.targetException hsession).symm
  · rw [hreply hne, ← hexception, ← hpayload]
    exact (congrArg Session.reply hsession).symm

/-- `MOV r0, #1` in front of a breakpoint. -/
def movBreakpoint : ParserData :=
  gdbScanner (coreOf 2 [0xE3A00001, 0xE7F000F0]) (fun _ => 0) fun _ => 0

theorem cont_steps_mov :
    ∃ data', scannerAction .x86 2 movBreakpoint (.packet (frame (ofString "c")) fun _ => 0) =
        .ok data' ∧
      ∃ k ≤ 2, ∃ data'',
        scannerRun .x86 2 movBreakpoint
          (List.replicate k (.packet (frame (ofString "s")) fun _ => 0)) = .ok data'' ∧
        data''.gdb.arm = data'.gdb.arm ∧
        data''.gdb.targetException = data'.gdb.targetException ∧
        (k ≠ 0 → lastReply data''.gdb.fd.sent = lastReply data'.gdb.fd.sent) := by
  obtain ⟨data', hok⟩ : ∃ data', scannerAction .x86 2 movBreakpoint
      (.packet (frame (ofString "c")) fun _ => 0) = .ok data' := exists_ok (by decide)
  exact ⟨data', hok, cont_steps .x86 2 movBreakpoint data' _ _ _ _ (sumAccepted_frame _ _ _)
    (by decide) hok (sumAccepted_frame _ _ _) (by decide)⟩

end Armator
