import Armator.Listeners

/-!
# Interrupts by name

`send_irq` looks for the name of an exception in the table of `arm_constants.c` and sends its number
to the listener of the simulator. The byte sent is the exception named (`sendIrq_iff`), and of all
that is sent the core notices one reset for each reset asked for (`interrupts_by_name`).
-/

namespace Armator

open CString
open Relation (ReflTransGen)

/-! ## `arm_constants.c` -/

def INTERRUPT : Byte := 6

def armExceptionNames : List (Option Chars) :=
  [none, some (ofString "reset"), some (ofString "undefined instruction"),
    some (ofString "software interrupt"), some (ofString "prefetch abort"),
    some (ofString "data abort"), some (ofString "interrupt"), some (ofString "fast interrupt")]

def armGetExceptionName (exception : Byte) : Option Chars :=
  if exception.toNat < 8 then armExceptionNames.getD exception.toNat none else none

theorem lt_of_name {exception : Byte} (hname : armGetExceptionName exception ≠ none) :
    exception.toNat < 8 := by
  by_contra hge
  exact hname (if_neg hge)

theorem name_ne_none_iff {exception : Byte} :
    armGetExceptionName exception ≠ none ↔ 1 ≤ exception.toNat ∧ exception.toNat < 8 := by
  have hall : ∀ n < 8, armExceptionNames.getD n none ≠ none ↔ 1 ≤ n := by decide
  rw [armGetExceptionName]
  split
  · next hlt => rw [hall _ hlt, and_iff_left hlt]
  · next hge => simp [hge]

theorem name_injective {exception exception' : Byte}
    (hname : armGetExceptionName exception ≠ none)
    (hsame : armGetExceptionName exception = armGetExceptionName exception') :
    exception = exception' := by
  have hinj : ∀ n < 8, ∀ m < 8, armExceptionNames.getD n none ≠ none →
      armExceptionNames.getD n none = armExceptionNames.getD m none → n = m := by decide
  have hlt := lt_of_name hname
  have hlt' := lt_of_name (hsame ▸ hname)
  rw [armGetExceptionName, if_pos hlt] at hname hsame
  rw [armGetExceptionName, if_pos hlt'] at hsame
  exact BitVec.eq_of_toNat_eq (hinj _ hlt _ hlt' hname hsame)

/-! ## `send_irq.c` -/

/-- The loop over the names, from an exception on. -/
def searchIrq (name : Chars) (irq : Byte) : Option Byte :=
  match hname : armGetExceptionName irq with
  | none => none
  | some irqName => if irqName ≠ name then searchIrq name (irq + 1) else some irq
termination_by 8 - irq.toNat
decreasing_by
  have hlt : irq.toNat < 8 := lt_of_name (by rw [hname]; exact Option.some_ne_none _)
  have hone : (1 : Byte).toNat = 1 := rfl
  rw [BitVec.toNat_add, hone]
  omega

/-- What is sent for the third argument, if there is one. An unknown name ends the process. -/
def sendIrq : Option Chars → Option Byte
  | none => some INTERRUPT
  | some name => searchIrq name RESET

section
variable {name : Chars} {irq r : Byte}

theorem searchIrq_of_none (hnone : armGetExceptionName irq = none) : searchIrq name irq = none := by
  rw [searchIrq]
  split
  · rfl
  · next hname => cases hnone.symm.trans hname

theorem searchIrq_of_some {irqName : Chars} (hsome : armGetExceptionName irq = some irqName) :
    searchIrq name irq = if irqName ≠ name then searchIrq name (irq + 1) else some irq := by
  rw [searchIrq]
  split
  · next hname => cases hsome.symm.trans hname
  · next hname =>
    cases hsome.symm.trans hname
    rfl

theorem searchIrq_iff (hpos : 1 ≤ irq.toNat) :
    searchIrq name irq = some r ↔ irq.toNat ≤ r.toNat ∧ armGetExceptionName r = some name := by
  induction irq using searchIrq.induct name with
  | case1 irq hnone =>
    rw [searchIrq_of_none hnone]
    refine iff_of_false nofun ?_
    rintro ⟨hle, hname⟩
    have hlt := lt_of_name (Option.ne_none_iff_exists'.mpr ⟨name, hname⟩)
    exact name_ne_none_iff.mpr ⟨hpos, by omega⟩ hnone
  | case2 irq irqName hname hne ih =>
    have hlt := lt_of_name (Option.ne_none_iff_exists'.mpr ⟨irqName, hname⟩)
    have hnext : (irq + 1).toNat = irq.toNat + 1 := by
      have hone : (1 : Byte).toNat = 1 := rfl
      rw [BitVec.toNat_add, hone]
      omega
    rw [searchIrq_of_some hname, if_pos hne, ih (by omega), hnext]
    refine and_congr_left fun hr => ⟨Nat.le_of_succ_le, fun hle => ?_⟩
    rcases Nat.lt_or_eq_of_le hle with hlt | heq
    · exact hlt
    · rw [← BitVec.eq_of_toNat_eq heq, hname] at hr
      exact absurd (Option.some.inj hr) hne
  | case3 irq irqName hname heq =>
    rw [not_not] at heq
    rw [heq] at hname
    rw [searchIrq_of_some hname, if_neg (not_not_intro rfl), Option.some.injEq]
    constructor
    · rintro rfl
      exact ⟨Nat.le_refl _, hname⟩
    · rintro ⟨-, hr⟩
      exact name_injective (hname ▸ Option.some_ne_none name) (hname.trans hr.symm)

theorem sendIrq_iff : sendIrq (some name) = some r ↔ armGetExceptionName r = some name := by
  rw [sendIrq, searchIrq_iff (by decide)]
  refine and_iff_right_of_imp fun hname => ?_
  exact (name_ne_none_iff.mp (Option.ne_none_iff_exists'.mpr ⟨name, hname⟩)).1

theorem sendIrq_reset_iff {argument : Option Chars} :
    sendIrq argument = some RESET ↔ argument = some (ofString "reset") := by
  cases argument with
  | none => exact iff_of_false (by decide) nofun
  | some name =>
    rw [sendIrq_iff, show armGetExceptionName RESET = some (ofString "reset") from rfl,
      Option.some.injEq, Option.some.injEq, eq_comm]

end

theorem filter_sendIrq (arguments : List (Option Chars)) :
    (arguments.filterMap sendIrq).filter (· = RESET) =
      (arguments.filter (· = some (ofString "reset"))).map fun _ => RESET := by
  induction arguments with
  | nil => rfl
  | cons argument arguments ih =>
    by_cases hreset : sendIrq argument = some RESET
    · have hname := sendIrq_reset_iff.mp hreset
      rw [List.filterMap_cons_some hreset, List.filter_cons_of_pos (by decide), ih,
        List.filter_cons_of_pos (by simpa using hname), List.map_cons]
    · have hname := mt sendIrq_reset_iff.mpr hreset
      rw [List.filter_cons_of_neg (by simpa using hname), ← ih]
      cases hsent : sendIrq argument with
      | none => rw [List.filterMap_cons_none hsent]
      | some irq =>
        have hirq : irq ≠ RESET := fun heq => hreset (hsent.trans (congrArg some heq))
        rw [List.filterMap_cons_some hsent, List.filter_cons_of_neg (by simpa using hirq)]

/-! ## What is noticed -/

/-- An event, or a reset. -/
def Input.matters : Input → Bool
  | event _ => true
  | irq i => i = RESET

section
variable {b : Build} {data data' : ParserData} {done : List Input}

theorem Runs.matters (hruns : Runs b data done data') :
    Runs b data (done.filter Input.matters) data' := by
  induction hruns with
  | nil => exact .nil
  | event turns hok _ ih => exact .event turns hok ih
  | @irq data data2 i inputs _ ih =>
    by_cases hi : i = RESET
    · rw [List.filter_cons_of_pos (by simpa [Input.matters] using hi)]
      exact .irq ih
    · rw [List.filter_cons_of_neg (by simpa [Input.matters] using hi)]
      rwa [withArm_armException hi] at ih

theorem events_matters (done : List Input) :
    (done.filter Input.matters).filterMap Input.event? = done.filterMap Input.event? := by
  induction done with
  | nil => rfl
  | cons input done ih =>
    cases input with
    | event e => exact congrArg (e :: ·) ih
    | irq i =>
      rw [List.filter_cons]
      split
      · exact ih
      · exact ih

theorem irqs_matters (done : List Input) :
    (done.filter Input.matters).filterMap Input.irq? =
      (done.filterMap Input.irq?).filter (· = RESET) := by
  induction done with
  | nil => rfl
  | cons input done ih =>
    cases input with
    | event e => exact ih
    | irq i =>
      by_cases hi : i = RESET
      · rw [List.filter_cons_of_pos (by simpa [Input.matters] using hi)]
        show i :: _ = (i :: _).filter _
        rw [ih, List.filter_cons_of_pos (by simpa using hi)]
      · rw [List.filter_cons_of_neg (by simpa [Input.matters] using hi)]
        show _ = (i :: _).filter _
        rw [ih, List.filter_cons_of_neg (by simpa using hi)]

end

/-- **Interrupts by name**: `send_irq` sends the exception with the name it is given, if there is one,
and however its bytes come in between the events of the debugger, an interleaving has done what the
events and the resets asked for do in some order, one reset for each, without those that have not
come through yet. -/
theorem interrupts_by_name (b : Build) (data : ParserData) (events : List ScannerEvent)
    (arguments : List (Option Chars)) :
    (∀ name irq, sendIrq (some name) = some irq ↔ armGetExceptionName irq = some name) ∧
    sendIrq none = some INTERRUPT ∧
    ∀ s data' left,
      ReflTransGen (Mutex.Step (listeners b))
        (listening data events (arguments.filterMap sendIrq)) s →
      s.holder = none → s.own .gdb = .scanning data' left →
      ∃ done, Runs b data done (data'.withArm s.shared) ∧
        done.filterMap Input.event? ++ left = events ∧
        done.filterMap Input.irq? ++ (s.own .irq : IrqListener).left.filter (· = RESET) =
          (arguments.filter (· = some (ofString "reset"))).map fun _ => RESET := by
  refine ⟨fun name irq => sendIrq_iff, rfl, fun s data' left hsteps hfree hscanning => ?_⟩
  obtain ⟨done, hruns, hevents, hbytes⟩ := runs_of_steps hsteps hfree hscanning
  refine ⟨done.filter Input.matters, hruns.matters, ?_, ?_⟩
  · rw [events_matters]
    exact hevents
  · rw [irqs_matters, ← List.filter_append, hbytes, filter_sendIrq]

/-- A reset, an abort, a name that no exception has and an interrupt without a name, around a single
step. -/
def askedIrqs : List (Option Chars) :=
  [some (ofString "reset"), some (ofString "data abort"), some (ofString "restart"), none]

theorem sent_askedIrqs : askedIrqs.filterMap sendIrq = [1, 5, 6] := by
  have hreset : sendIrq (some (ofString "reset")) = some 1 := sendIrq_iff.mpr rfl
  have habort : sendIrq (some (ofString "data abort")) = some 5 := sendIrq_iff.mpr rfl
  have hunknown : sendIrq (some (ofString "restart")) = none := by
    have hall : ∀ irq, armGetExceptionName irq ≠ some (ofString "restart") := by decide
    exact Option.eq_none_iff_forall_ne_some.mpr fun irq hirq => hall irq (sendIrq_iff.mp hirq)
  rw [askedIrqs, List.filterMap_cons_some hreset, List.filterMap_cons_some habort,
    List.filterMap_cons_none hunknown]
  rfl

theorem interrupts_by_name_asked :
    ∃ (data' : ParserData) (s : Mutex.State Party Listener ArmCoreData),
      ReflTransGen (Mutex.Step (listeners .x86))
        (listening (gdbScanner (coreAt 0xE3A01001) (fun _ => 0) fun _ => 0)
          [.packet (Packet.frame (ofString "s")) fun _ => 0] (askedIrqs.filterMap sendIrq)) s ∧
      (s.own .irq : IrqListener).left = [] ∧
      ∃ done, Runs .x86 (gdbScanner (coreAt 0xE3A01001) (fun _ => 0) fun _ => 0) done
          (data'.withArm s.shared) ∧
        done.filterMap Input.event? ++ [] = [.packet (Packet.frame (ofString "s")) fun _ => 0] ∧
        done.filterMap Input.irq? ++ [] = [RESET] := by
  obtain ⟨data1, haction⟩ : ∃ data1, scannerAction .x86 0
      ((gdbScanner (coreAt 0xE3A01001) (fun _ => 0) fun _ => 0).withArm
        (armException (coreAt 0xE3A01001) 1))
      (.packet (Packet.frame (ofString "s")) fun _ => 0) = .ok data1 := exists_ok (by decide)
  have hruns : Runs .x86 (gdbScanner (coreAt 0xE3A01001) (fun _ => 0) fun _ => 0)
      [.irq 1, .event (.packet (Packet.frame (ofString "s")) fun _ => 0), .irq 5, .irq 6] _ :=
    .irq (.event 0 haction (.irq (.irq .nil)))
  obtain ⟨d, -, hsteps⟩ := steps_of_runs hruns [] []
  change ReflTransGen _ (listening _ _ [1, 5, 6]) _ at hsteps
  rw [← sent_askedIrqs] at hsteps
  exact ⟨d, _, hsteps, rfl, (interrupts_by_name .x86 _ _ askedIrqs).2.2 _ d [] hsteps rfl rfl⟩

end Armator
