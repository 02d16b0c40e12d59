import Armator.Condition
import Armator.Session
import Armator.Lib.Mutex

/-!
# `arm_simulator.c`: the listeners

Two threads share the core and a lock. `gdb_listener` runs the scanner: it answers errors, checks
the sum of a packet and acknowledges it without the lock, and takes the lock for the handler, which
is the only part that looks at the core. `irq_listener` reads one byte after the other and raises an
exception under the lock. The loop of `cont` is a turn at a time.

Where the lock is free, every interleaving has done what some order of the events of the scanner and
of the interrupts does, each of them one after the other (`listeners_serial`). Interrupts other than
a reset are not noticed (`interrupts_unnoticed`), and none is raised in a loop of `cont` that meets
no breakpoint (`cont_uninterrupted`).
-/

namespace Armator

open CString Mutex Relation

/-! ## The threads -/

inductive Party where
  | gdb | irq
  deriving DecidableEq

/-- Where `gdb_listener` is. The core in its data is the one it left when it had the lock. -/
inductive GdbListener where
  | scanning (data : ParserData) (input : List ScannerEvent)
  /-- A packet is acknowledged, and its handler is found. -/
  | acknowledged (data : ParserData) (handler : GdbHandler) (t : Text) (input : List ScannerEvent)
  | handling (data : ParserData) (handler : GdbHandler) (t : Text) (input : List ScannerEvent)
  /-- In the loop of `cont`. -/
  | looping (data : ParserData) (s : Gdb.ContState) (input : List ScannerEvent)
  | handled (data : ParserData) (input : List ScannerEvent)

inductive IrqListener where
  | reading (input : List Byte)
  | received (irq : Byte) (input : List Byte)
  | raising (irq : Byte) (input : List Byte)
  | raised (input : List Byte)

abbrev Listener : Party → Type
  | .gdb => GdbListener
  | .irq => IrqListener

def ParserData.withArm (data : ParserData) (arm : ArmCoreData) : ParserData :=
  { data with gdb := { data.gdb with arm := arm } }

/-- What precedes the handler of a request. -/
def acknowledge (data : ParserData) : Except Fault ParserData := do
  let data ← handleError data
  let gdb ← gdbSendAck data.gdb
  .ok { data with gdb := gdb }

/-- The event is a request with a handler. -/
def TakesLock (b : Build) : ScannerEvent → Prop
  | .packet token beyond => SumAccepted b token beyond ∧ commandOf token beyond ≠ none
  | _ => False

section
variable (b : Build)

inductive GdbOutside : GdbListener → GdbListener → Prop where
  | action {data data' : ParserData} {event : ScannerEvent} {input : List ScannerEvent}
    (hevent : ¬ TakesLock b event) (hok : scannerAction b 0 data event = .ok data') :
    GdbOutside (.scanning data (event :: input)) (.scanning data' input)
  | acknowledge {data data' : ParserData} {token : Chars} {beyond : Nat → Byte}
    {handler : GdbHandler} {input : List ScannerEvent} (hsum : SumAccepted b token beyond)
    (hcommand : commandOf token beyond = some handler) (hok : acknowledge data = .ok data') :
    GdbOutside (.scanning data (.packet token beyond :: input))
      (.acknowledged data' handler (textOf token beyond) input)

inductive GdbAcquire : GdbListener → GdbListener → Prop where
  | lock {data : ParserData} {handler : GdbHandler} {t : Text} {input : List ScannerEvent} :
    GdbAcquire (.acknowledged data handler t input) (.handling data handler t input)

inductive GdbInside : GdbListener × ArmCoreData → GdbListener × ArmCoreData → Prop where
  | handle {data : ParserData} {handler : GdbHandler} {t : Text} {input : List ScannerEvent}
    {arm : ArmCoreData} {g : GdbProtocolData} (hcont : handler ≠ .cont)
    (hok : handler.run b 0 (data.withArm arm).gdb t 2 = .ok g) :
    GdbInside (.handling data handler t input, arm) (.handled { data with gdb := g } input, g.arm)
  | start {data : ParserData} {t : Text} {input : List ScannerEvent} {arm : ArmCoreData} :
    GdbInside (.handling data .cont t input, arm)
      (.looping data (Gdb.contStart b (data.withArm arm).gdb) input, arm)
  | turn {data : ParserData} {s s' : Gdb.ContState} {input : List ScannerEvent}
    {arm : ArmCoreData} (hfin : s.fin = false)
    (hturn : s' = Gdb.contTurn b.host { s with arm := arm }) :
    GdbInside (.looping data s input, arm) (.looping data s' input, s'.arm)
  | finish {data : ParserData} {s : Gdb.ContState} {input : List ScannerEvent}
    {arm : ArmCoreData} {g : GdbProtocolData} (hfin : s.fin = true)
    (hok : gdbSendStopReason
      { (data.withArm arm).gdb with targetException := s.targetException } = .ok g) :
    GdbInside (.looping data s input, arm) (.handled { data with gdb := g } input, g.arm)

inductive GdbRelease : GdbListener → GdbListener → Prop where
  | unlock {data : ParserData} {input : List ScannerEvent} :
    GdbRelease (.handled data input) (.scanning data input)

inductive IrqOutside : IrqListener → IrqListener → Prop where
  | read {irq : Byte} {input : List Byte} :
    IrqOutside (.reading (irq :: input)) (.received irq input)

inductive IrqAcquire : IrqListener → IrqListener → Prop where
  | lock {irq : Byte} {input : List Byte} : IrqAcquire (.received irq input) (.raising irq input)

inductive IrqInside : IrqListener × ArmCoreData → IrqListener × ArmCoreData → Prop where
  | raise {irq : Byte} {input : List Byte} {arm : ArmCoreData} :
    IrqInside (.raising irq input, arm) (.raised input, armException arm irq)

inductive IrqRelease : IrqListener → IrqListener → Prop where
  | unlock {input : List Byte} : IrqRelease (.raised input) (.reading input)

def listeners : Threads Party Listener ArmCoreData where
  outside
    | .gdb => GdbOutside b
    | .irq => IrqOutside
  acquire
    | .gdb => GdbAcquire
    | .irq => IrqAcquire
  inside
    | .gdb => GdbInside b
    | .irq => IrqInside
  release
    | .gdb => GdbRelease
    | .irq => IrqRelease

end

/-- The listeners with what they will receive. -/
def started (data : ParserData) (events : List ScannerEvent) (irqs : List Byte) :
    ∀ party, Listener party
  | .gdb => .scanning data events
  | .irq => .reading irqs

/-! ## One after the other -/

inductive Input where
  | event (event : ScannerEvent)
  | irq (irq : Byte)

def Input.event? : Input → Option ScannerEvent
  | event e => some e
  | irq _ => none

def Input.irq? : Input → Option Byte
  | event _ => none
  | irq i => some i

/-- What the simulator does with its inputs in some order. -/
inductive Runs (b : Build) : ParserData → List Input → ParserData → Prop where
  | nil {data : ParserData} : Runs b data [] data
  | event {data data1 data2 : ParserData} {e : ScannerEvent} {inputs : List Input} (turns : Nat)
    (hok : scannerAction b turns data e = .ok data1) (hruns : Runs b data1 inputs data2) :
    Runs b data (.event e :: inputs) data2
  | irq {data data2 : ParserData} {i : Byte} {inputs : List Input}
    (hruns : Runs b (data.withArm (armException data.gdb.arm i)) inputs data2) :
    Runs b data (.irq i :: inputs) data2

theorem Runs.append {b : Build} {data data1 data2 : ParserData} {xs ys : List Input}
    (hxs : Runs b data xs data1) (hys : Runs b data1 ys data2) : Runs b data (xs ++ ys) data2 := by
  induction hxs with
  | nil => exact hys
  | event turns hok _ ih => exact .event turns hok (ih hys)
  | irq _ ih => exact .irq (ih hys)

/-! ## What is done without the lock -/

def GdbProtocolData.withArm (g : GdbProtocolData) (arm : ArmCoreData) : GdbProtocolData :=
  { g with arm := arm }

section
variable (g : GdbProtocolData) (data : ParserData) (arm : ArmCoreData)

theorem gdbTransmitPacket_withArm :
    gdbTransmitPacket (g.withArm arm) = (gdbTransmitPacket g).map (·.withArm arm) := by
  show (rioWriten g.fd ((List.range g.len).map g.packet) >>= _) = (_ >>= _ : Except _ _).map _
  cases rioWriten g.fd ((List.range g.len).map g.packet) <;> rfl

theorem gdbSendAck_withArm :
    gdbSendAck (g.withArm arm) = (gdbSendAck g).map (·.withArm arm) := by
  show (rioWriten g.fd (ofString "+") >>= _) = (_ >>= _ : Except _ _).map _
  cases rioWriten g.fd (ofString "+") <;> rfl

theorem gdbRequireRetransmission_withArm :
    gdbRequireRetransmission (g.withArm arm) =
      (gdbRequireRetransmission g).map (·.withArm arm) := by
  show (rioWriten g.fd (ofString "-") >>= _) = (_ >>= _ : Except _ _).map _
  cases rioWriten g.fd (ofString "-") <;> rfl

theorem gdbSendBuffer_withArm :
    gdbSendBuffer (g.withArm arm) = (gdbSendBuffer g).map (·.withArm arm) := by
  have hpacket : (g.withArm arm).packet = g.packet := rfl
  rw [gdbSendBuffer, gdbSendBuffer, hpacket]
  dsimp only
  split
  · rfl
  · next i check _ =>
    cases store (Function.update (Function.update g.packet 0 (ascii '$')) i (ascii '#')) (i + 1)
        (twoDigits check) with
    | error fault => rfl
    | ok packet =>
      exact gdbTransmitPacket_withArm
        { g with packet := Function.update packet (i + 3) 0, len := i + 3 } arm

theorem gdbSendData_withArm (s : Chars) :
    gdbSendData (g.withArm arm) s = (gdbSendData g s).map (·.withArm arm) := by
  have hpacket : (g.withArm arm).packet = g.packet := rfl
  rw [gdbSendData, gdbSendData, hpacket]
  cases store g.packet buffer s with
  | error fault => rfl
  | ok packet => exact gdbSendBuffer_withArm { g with packet := packet } arm

theorem handleError_withArm :
    handleError (data.withArm arm) = (handleError data).map (·.withArm arm) := by
  have hgdb : (data.withArm arm).gdb = data.gdb.withArm arm := rfl
  have hlen : (data.withArm arm).len = data.len := rfl
  rw [handleError, handleError, hgdb, hlen, gdbRequireRetransmission_withArm]
  split
  · cases gdbRequireRetransmission data.gdb <;> rfl
  · rfl

theorem acknowledge_withArm :
    acknowledge (data.withArm arm) = (acknowledge data).map (·.withArm arm) := by
  rw [acknowledge, acknowledge, handleError_withArm]
  cases handleError data with
  | error fault => rfl
  | ok data1 =>
    show (gdbSendAck (data1.gdb.withArm arm) >>= _) = (gdbSendAck data1.gdb >>= _).map _
    rw [gdbSendAck_withArm]
    cases gdbSendAck data1.gdb <;> rfl

variable (b : Build) (turns : Nat) {token : Chars} {beyond : Nat → Byte}

theorem receive_withArm (hlock : ¬ TakesLock b (.packet token beyond)) :
    receive b turns (g.withArm arm) token beyond =
      (receive b 0 g token beyond).map (·.withArm arm) := by
  by_cases hsum : SumAccepted b token beyond
  · have hcommand : commandOf token beyond = none := by
      by_contra hsome
      exact hlock ⟨hsum, hsome⟩
    rw [receive_request hsum, receive_request hsum, hcommand, gdbSendAck_withArm]
    cases gdbSendAck g with
    | error fault => rfl
    | ok g1 => exact gdbSendData_withArm g1 arm (ofString "")
  · rw [receive_noise hsum, receive_noise hsum, gdbRequireRetransmission_withArm]

theorem scannerAction_withArm {event : ScannerEvent} (hlock : ¬ TakesLock b event) :
    scannerAction b turns (data.withArm arm) event =
      (scannerAction b 0 data event).map (·.withArm arm) := by
  cases event with
  | ack => exact handleError_withArm data arm
  | endOfFile => exact handleError_withArm data arm
  | newline => rfl
  | retransmission =>
    rw [scannerAction, scannerAction, handleError_withArm]
    cases handleError data with
    | error fault => rfl
    | ok data1 =>
      show (gdbTransmitPacket (data1.gdb.withArm arm) >>= _) =
        (gdbTransmitPacket data1.gdb >>= _).map _
      rw [gdbTransmitPacket_withArm]
      cases gdbTransmitPacket data1.gdb <;> rfl
  | packet token beyond =>
    rw [scannerAction, scannerAction, handleError_withArm]
    cases handleError data with
    | error fault => rfl
    | ok data1 =>
      show (receive b turns (data1.gdb.withArm arm) token beyond >>= _) =
        (receive b 0 data1.gdb token beyond >>= _).map _
      rw [receive_withArm data1.gdb arm b turns hlock]
      cases receive b 0 data1.gdb token beyond <;> rfl
  | character c =>
    have hlen : (data.withArm arm).len = data.len := rfl
    rw [scannerAction, scannerAction, addCharacterToError, addCharacterToError, hlen,
      handleError_withArm]
    split
    · cases handleError data <;> rfl
    · rfl

theorem scannerAction_request {handler : GdbHandler} (hsum : SumAccepted b token beyond)
    (hcommand : commandOf token beyond = some handler) :
    scannerAction b turns data (.packet token beyond) = (do
      let data ← acknowledge data
      let gdb ← handler.run b turns data.gdb (textOf token beyond) 2
      .ok { data with gdb := gdb }) := by
  rw [scannerAction, acknowledge]
  cases handleError data with
  | error fault => rfl
  | ok data1 =>
    show (receive b turns data1.gdb token beyond >>= _) = _
    rw [receive_request hsum, hcommand]
    show _ = ((gdbSendAck data1.gdb >>= fun gdb => Except.ok { data1 with gdb := gdb }) >>= _)
    cases gdbSendAck data1.gdb <;> rfl

end

/-! ## The critical sections of `gdb_listener` -/

section
variable {b : Build} {data : ParserData} {handler : GdbHandler} {t : Text}
  {input : List ScannerEvent} {arm : ArmCoreData}

theorem run_turns (hcont : handler ≠ .cont) (turns : Nat) (g : GdbProtocolData) (i : Nat) :
    handler.run b turns g t i = handler.run b 0 g t i := by
  cases handler with
  | cont => exact absurd rfl hcont
  | _ => rfl

/-- What holds in a critical section that a handler started in. -/
inductive Handling (b : Build) (data : ParserData) (handler : GdbHandler) (t : Text)
    (input : List ScannerEvent) (arm : ArmCoreData) : GdbListener × ArmCoreData → Prop where
  | handling : Handling b data handler t input arm (.handling data handler t input, arm)
  | looping {s : Gdb.ContState} {v : ArmCoreData} (hcont : handler = .cont) (n : Nat)
    (hs : { s with arm := v } = (Gdb.contTurn b.host)^[n] (Gdb.contStart b (data.withArm arm).gdb)) :
    Handling b data handler t input arm (.looping data s input, v)
  | handled {g : GdbProtocolData} (turns : Nat)
    (hok : handler.run b turns (data.withArm arm).gdb t 2 = .ok g) :
    Handling b data handler t input arm (.handled { data with gdb := g } input, g.arm)

theorem handling_inside {x y : GdbListener × ArmCoreData}
    (hx : Handling b data handler t input arm x) (hinside : GdbInside b x y) :
    Handling b data handler t input arm y := by
  cases hx with
  | handling =>
    cases hinside with
    | handle hcont hok => exact .handled 0 hok
    | start => exact .looping rfl 0 rfl
  | looping hcont n hs =>
    cases hinside with
    | @turn _ s s' _ v hfin hturn =>
      subst hturn
      apply Handling.looping hcont (n + 1)
      rw [Function.iterate_succ_apply', ← hs]
    | @finish _ s _ v g hfin hok =>
      subst hcont
      apply Handling.handled n
      rw [GdbHandler.run, Gdb.cont, ← hs]
      dsimp only
      rw [if_pos hfin]
      exact hok
  | handled turns hok => cases hinside

theorem gdb_critical {q r : GdbListener} {v : ArmCoreData}
    (hinside : ReflTransGen (GdbInside b) (.handling data handler t input, arm) (q, v))
    (hrelease : GdbRelease q r) :
    ∃ turns g, handler.run b turns (data.withArm arm).gdb t 2 = .ok g ∧
      r = .scanning { data with gdb := g } input ∧ v = g.arm := by
  have hall : ∀ x, ReflTransGen (GdbInside b) (.handling data handler t input, arm) x →
      Handling b data handler t input arm x := by
    intro x hx
    induction hx with
    | refl => exact .handling
    | tail _ hstep ih => exact handling_inside ih hstep
  have hlast := hall _ hinside
  cases hrelease with
  | unlock =>
    cases hlast with
    | handled turns hok => exact ⟨turns, _, hok, rfl, rfl⟩

theorem loop_turns (s : Gdb.ContState) (n : Nat) :
    ReflTransGen (GdbInside b) (.looping data s input, s.arm)
      (.looping data ((Gdb.contTurn b.host)^[n] s) input, ((Gdb.contTurn b.host)^[n] s).arm) := by
  induction n with
  | zero => exact .refl
  | succ n ih =>
    rw [Function.iterate_succ_apply']
    cases hfin : ((Gdb.contTurn b.host)^[n] s).fin with
    | true =>
      rw [contTurn_of_fin hfin]
      exact ih
    | false => exact ih.tail (.turn hfin rfl)

theorem inside_of_run {turns : Nat} {g : GdbProtocolData}
    (hok : handler.run b turns (data.withArm arm).gdb t 2 = .ok g) :
    ReflTransGen (GdbInside b) (.handling data handler t input, arm)
      (.handled { data with gdb := g } input, g.arm) := by
  by_cases hcont : handler = .cont
  · subst hcont
    have hfin : (Gdb.contEnd b (data.withArm arm).gdb turns).fin = true :=
      GdbHandler.answers_of_run hok
    rw [GdbHandler.run, Gdb.cont, ← Gdb.contEnd, if_pos hfin] at hok
    have hloop := @loop_turns b data input (Gdb.contStart b (data.withArm arm).gdb) turns
    exact (ReflTransGen.single .start).trans (hloop.tail (.finish hfin hok))
  · rw [run_turns hcont] at hok
    exact .single (.handle hcont hok)

end

/-! ## Interleavings as runs -/

/-- The bytes for which no exception has been raised yet. -/
def IrqListener.left : IrqListener → List Byte
  | reading input => input
  | received irq input => irq :: input
  | raising irq input => irq :: input
  | raised input => input

/-- `gdb_listener` has come as far as some data, with some events left. -/
inductive GdbProgress (b : Build) (data : ParserData) : GdbListener → List ScannerEvent → Prop where
  | scanning {data' : ParserData} {left : List ScannerEvent}
    (hsame : data'.withArm data.gdb.arm = data) : GdbProgress b data (.scanning data' left) left
  | acknowledged {data' : ParserData} {token : Chars} {beyond : Nat → Byte} {handler : GdbHandler}
    {left : List ScannerEvent} (hsum : SumAccepted b token beyond)
    (hcommand : commandOf token beyond = some handler)
    (hack : acknowledge data = .ok (data'.withArm data.gdb.arm)) :
    GdbProgress b data (.acknowledged data' handler (textOf token beyond) left)
      (.packet token beyond :: left)

/-- Some of the inputs have been dealt with. -/
structure Progress (b : Build) (data0 : ParserData) (events : List ScannerEvent)
    (irqs : List Byte) (s : (∀ party, Listener party) × ArmCoreData) (done : List Input)
    (data : ParserData) (left : List ScannerEvent) : Prop where
  runs : Runs b data0 done data
  arm : data.gdb.arm = s.2
  gdb : GdbProgress b data (s.1 .gdb) left
  events : done.filterMap Input.event? ++ left = events
  irqs : done.filterMap Input.irq? ++ (s.1 .irq : IrqListener).left = irqs

section
variable {b : Build} {data0 : ParserData} {events : List ScannerEvent} {irqs : List Byte}
  {s s' : (∀ party, Listener party) × ArmCoreData} {done : List Input} {data : ParserData}
  {left : List ScannerEvent}

theorem update_gdb_irq (own : ∀ party, Listener party) (x : Listener .gdb) :
    Function.update own .gdb x .irq = own .irq :=
  Function.update_of_ne (by decide) _ _

theorem update_irq_gdb (own : ∀ party, Listener party) (x : Listener .irq) :
    Function.update own .irq x .gdb = own .gdb :=
  Function.update_of_ne (by decide) _ _

theorem progress_outside (hprogress : Progress b data0 events irqs s done data left)
    {x : GdbListener} (hstep : GdbOutside b (s.1 .gdb) x) :
    ∃ done' data' left',
      Progress b data0 events irqs (Function.update s.1 .gdb x, s.2) done' data' left' := by
  obtain ⟨hruns, harm, hgdb, hevents, hirqs⟩ := hprogress
  rw [← update_gdb_irq s.1 x] at hirqs
  generalize s.1 .gdb = y at hgdb hstep
  cases hstep with
  | @action d d' event input hevent hok =>
    cases hgdb with
    | scanning hsame =>
      have hnext := scannerAction_withArm d data.gdb.arm b 0 hevent
      rw [hsame, hok] at hnext
      refine ⟨done ++ [.event event], d'.withArm data.gdb.arm, input,
        hruns.append (.event 0 hnext .nil), harm, ?_, ?_, ?_⟩
      · dsimp only
        rw [Function.update_self]
        exact .scanning rfl
      · simpa [List.filterMap_cons, Input.event?] using hevents
      · simpa [List.filterMap_cons, Input.irq?] using hirqs
  | @acknowledge d d' token beyond handler input hsum hcommand hok =>
    cases hgdb with
    | scanning hsame =>
      have hnext := acknowledge_withArm d data.gdb.arm
      rw [hsame, hok] at hnext
      refine ⟨done, data, .packet token beyond :: input, hruns, harm, ?_, hevents, hirqs⟩
      dsimp only
      rw [Function.update_self]
      exact .acknowledged hsum hcommand hnext

theorem progress_critical (hprogress : Progress b data0 events irqs s done data left)
    {p q r : GdbListener} {v : ArmCoreData} (hacquire : GdbAcquire (s.1 .gdb) p)
    (hinside : ReflTransGen (GdbInside b) (p, s.2) (q, v)) (hrelease : GdbRelease q r) :
    ∃ done' data' left',
      Progress b data0 events irqs (Function.update s.1 .gdb r, v) done' data' left' := by
  obtain ⟨hruns, harm, hgdb, hevents, hirqs⟩ := hprogress
  rw [← update_gdb_irq s.1 r] at hirqs
  generalize s.1 .gdb = y at hgdb hacquire
  cases hacquire with
  | @lock d handler t input =>
    cases hgdb with
    | @acknowledged _ token beyond _ _ hsum hcommand hack =>
      obtain ⟨turns, g, hok, rfl, rfl⟩ := gdb_critical hinside hrelease
      rw [← harm] at hok
      have haction : scannerAction b turns data (.packet token beyond) =
          .ok { d with gdb := g } := by
        rw [scannerAction_request data b turns hsum hcommand, hack]
        show (handler.run b turns (d.withArm data.gdb.arm).gdb (textOf token beyond) 2 >>= _) = _
        rw [hok]
        rfl
      refine ⟨done ++ [.event (.packet token beyond)], { d with gdb := g }, input,
        hruns.append (.event turns haction .nil), rfl, ?_, ?_, ?_⟩
      · dsimp only
        rw [Function.update_self]
        exact .scanning rfl
      · simpa [List.filterMap_cons, Input.event?] using hevents
      · simpa [List.filterMap_cons, Input.irq?] using hirqs

theorem GdbProgress.withArm {x : GdbListener} (hgdb : GdbProgress b data x left)
    (arm : ArmCoreData) : GdbProgress b (data.withArm arm) x left := by
  cases hgdb with
  | scanning hsame =>
    apply GdbProgress.scanning
    rw [← hsame]
    rfl
  | acknowledged hsum hcommand hack =>
    apply GdbProgress.acknowledged hsum hcommand
    rw [acknowledge_withArm, hack]
    rfl

/-- An interrupt that comes between the acknowledgement and the handler could have come before. -/
theorem progress_irq (hprogress : Progress b data0 events irqs s done data left)
    {p q r : IrqListener} {v : ArmCoreData} (hacquire : IrqAcquire (s.1 .irq) p)
    (hinside : ReflTransGen IrqInside (p, s.2) (q, v)) (hrelease : IrqRelease q r) :
    ∃ done' data' left',
      Progress b data0 events irqs (Function.update s.1 .irq r, v) done' data' left' := by
  obtain ⟨hruns, harm, hgdb, hevents, hirqs⟩ := hprogress
  rw [← update_irq_gdb s.1 r] at hgdb
  generalize s.1 .irq = y at hirqs hacquire
  cases hacquire with
  | @lock irq input =>
    have hall : ∀ x, ReflTransGen IrqInside (.raising irq input, s.2) x →
        x = (.raising irq input, s.2) ∨ x = (.raised input, armException s.2 irq) := by
      intro x hx
      induction hx with
      | refl => exact Or.inl rfl
      | tail _ hstep ih =>
        rcases ih with rfl | rfl
        · cases hstep with
          | raise => exact Or.inr rfl
        · cases hstep
    cases hrelease with
    | unlock =>
      rcases hall _ hinside with heq | heq
      · cases heq
      · cases heq
        refine ⟨done ++ [.irq irq], data.withArm (armException data.gdb.arm irq), left,
          hruns.append (.irq .nil), ?_, ?_, ?_, ?_⟩
        · rw [harm]
          rfl
        · exact hgdb.withArm _
        · simpa [List.filterMap_cons, Input.event?] using hevents
        · dsimp only
          rw [Function.update_self]
          simpa [List.filterMap_cons, Input.irq?, IrqListener.left] using hirqs

theorem progress_serial (hprogress : Progress b data0 events irqs s done data left)
    (hserial : Serial (listeners b) s s') :
    ∃ done' data' left', Progress b data0 events irqs s' done' data' left' := by
  cases hserial with
  | @outside party x hstep =>
    cases party with
    | gdb => exact progress_outside hprogress hstep
    | irq =>
      obtain ⟨hruns, harm, hgdb, hevents, hirqs⟩ := hprogress
      rw [← update_irq_gdb s.1 x] at hgdb
      refine ⟨done, data, left, hruns, harm, hgdb, hevents, ?_⟩
      dsimp only
      rw [← hirqs, Function.update_self]
      change IrqOutside (s.1 .irq) x at hstep
      generalize s.1 .irq = y at hstep
      cases hstep with
      | read => rfl
  | @critical party p q r v hacquire hinside hrelease =>
    cases party with
    | gdb => exact progress_critical hprogress hacquire hinside hrelease
    | irq => exact progress_irq hprogress hacquire hinside hrelease

theorem progress_serials
    (hserial : ReflTransGen (Serial (listeners b)) (started data0 events irqs, data0.gdb.arm) s) :
    ∃ done data left, Progress b data0 events irqs s done data left := by
  induction hserial with
  | refl => exact ⟨[], data0, events, .nil, rfl, .scanning rfl, rfl, rfl⟩
  | tail _ hstep ih =>
    obtain ⟨done, data, left, hprogress⟩ := ih
    exact progress_serial hprogress hstep

end

/-! ## Runs as interleavings -/

section
variable {b : Build} {data data' d : ParserData} {events : List ScannerEvent} {irqs : List Byte}
  {event : ScannerEvent} {turns : Nat}

theorem map_ok {ε α β : Type} {x : Except ε α} {f : α → β} {y : β} (hok : x.map f = .ok y) :
    ∃ a, x = .ok a ∧ f a = y := by
  cases x with
  | error fault => cases hok
  | ok a => exact ⟨a, rfl, Except.ok.inj hok⟩

theorem update_gdb (own : ∀ party, Listener party) {x : GdbListener}
    (hirq : own .irq = .reading irqs) (hx : x = .scanning data events) :
    Function.update own .gdb x = started data events irqs := by
  funext party
  cases party with
  | gdb => rw [Function.update_self, hx]; rfl
  | irq => rw [update_gdb_irq, hirq]; rfl

theorem serial_event (hsame : d.withArm data.gdb.arm = data)
    (hok : scannerAction b turns data event = .ok data') :
    ∃ d', ReflTransGen (Serial (listeners b)) (started d (event :: events) irqs, data.gdb.arm)
        (started d' events irqs, data'.gdb.arm) ∧ d'.withArm data'.gdb.arm = data' := by
  by_cases hlock : TakesLock b event
  · cases event with
    | packet token beyond =>
      obtain ⟨hsum, hne⟩ := hlock
      obtain ⟨handler, hcommand⟩ := Option.ne_none_iff_exists'.mp hne
      rw [scannerAction_request data b turns hsum hcommand, ← hsame, acknowledge_withArm] at hok
      obtain ⟨dack, hack, hok⟩ := ok_of_bind hok
      obtain ⟨d1, hack', rfl⟩ := map_ok hack
      obtain ⟨g, hrun, hok⟩ := ok_of_bind hok
      cases hok
      have houtside : Serial (listeners b)
          (started d (.packet token beyond :: events) irqs, data.gdb.arm)
          (Function.update (started d (.packet token beyond :: events) irqs) .gdb
            (.acknowledged d1 handler (textOf token beyond) events), data.gdb.arm) :=
        .outside (i := Party.gdb) (GdbOutside.acknowledge hsum hcommand hack')
      have hcritical : Serial (listeners b)
          (Function.update (started d (.packet token beyond :: events) irqs) .gdb
            (.acknowledged d1 handler (textOf token beyond) events), data.gdb.arm)
          (Function.update (Function.update (started d (.packet token beyond :: events) irqs) .gdb
            (.acknowledged d1 handler (textOf token beyond) events)) .gdb
            (.scanning { d1 with gdb := g } events), g.arm) := by
        apply Serial.critical (i := Party.gdb) _ (inside_of_run hrun) GdbRelease.unlock
        dsimp only
        rw [Function.update_self]
        exact GdbAcquire.lock
      rw [Function.update_idem, update_gdb _ rfl rfl] at hcritical
      exact ⟨{ d1 with gdb := g }, (ReflTransGen.single houtside).tail hcritical, rfl⟩
    | _ => exact hlock.elim
  · have hnext := scannerAction_withArm d data.gdb.arm b turns hlock
    rw [hsame, hok] at hnext
    obtain ⟨d', hok', rfl⟩ := map_ok hnext.symm
    have houtside : Serial (listeners b) (started d (event :: events) irqs, data.gdb.arm)
        (Function.update (started d (event :: events) irqs) .gdb (.scanning d' events),
          data.gdb.arm) :=
      .outside (i := Party.gdb) (GdbOutside.action hlock hok')
    rw [update_gdb _ rfl rfl] at houtside
    exact ⟨d', .single houtside, rfl⟩

theorem serial_irq (irq : Byte) :
    ReflTransGen (Serial (listeners b)) (started d events (irq :: irqs), data.gdb.arm)
      (started d events irqs, armException data.gdb.arm irq) := by
  have hupdate : ∀ x : IrqListener, Function.update (started d events (irq :: irqs)) .irq x =
      fun | .gdb => .scanning d events | .irq => x := by
    intro x
    funext party
    cases party with
    | gdb => rw [update_irq_gdb]; rfl
    | irq => rw [Function.update_self]
  have houtside : Serial (listeners b) (started d events (irq :: irqs), data.gdb.arm)
      (Function.update (started d events (irq :: irqs)) .irq (.received irq irqs), data.gdb.arm) :=
    .outside (i := Party.irq) IrqOutside.read
  have hcritical : Serial (listeners b)
      (Function.update (started d events (irq :: irqs)) .irq (.received irq irqs), data.gdb.arm)
      (Function.update (Function.update (started d events (irq :: irqs)) .irq
        (.received irq irqs)) .irq (.reading irqs), armException data.gdb.arm irq) := by
    apply Serial.critical (i := Party.irq) _ (.single IrqInside.raise) IrqRelease.unlock
    dsimp only
    rw [Function.update_self]
    exact IrqAcquire.lock
  rw [Function.update_idem, hupdate (.reading irqs)] at hcritical
  have hlast : started d events irqs =
      fun | .gdb => .scanning d events | .irq => .reading irqs := by
    funext party
    cases party <;> rfl
  rw [hlast]
  exact (ReflTransGen.single houtside).tail hcritical

theorem serials_of_runs {done : List Input} (hruns : Runs b data done data')
    (hsame : d.withArm data.gdb.arm = data) :
    ∃ d', ReflTransGen (Serial (listeners b))
        (started d (done.filterMap Input.event? ++ events) (done.filterMap Input.irq? ++ irqs),
          data.gdb.arm)
        (started d' events irqs, data'.gdb.arm) ∧ d'.withArm data'.gdb.arm = data' := by
  induction hruns generalizing d with
  | nil => exact ⟨d, .refl, hsame⟩
  | @event data data1 data2 e inputs turns hok _ ih =>
    obtain ⟨d1, hevent, hsame1⟩ := @serial_event b data data1 d
      (inputs.filterMap Input.event? ++ events) (inputs.filterMap Input.irq? ++ irqs) _ _ hsame hok
    obtain ⟨d', hserial, hsame'⟩ := ih hsame1
    exact ⟨d', hevent.trans hserial, hsame'⟩
  | @irq data data2 i inputs _ ih =>
    have hirq := @serial_irq b data d (inputs.filterMap Input.event? ++ events)
      (inputs.filterMap Input.irq? ++ irqs) i
    have hsame1 : d.withArm (data.withArm (armException data.gdb.arm i)).gdb.arm =
        data.withArm (armException data.gdb.arm i) := by
      rw [← hsame]
      rfl
    obtain ⟨d', hserial, hsame'⟩ := ih hsame1
    exact ⟨d', hirq.trans hserial, hsame'⟩

end

/-- The two listeners before they have received anything. -/
def listening (data : ParserData) (events : List ScannerEvent) (irqs : List Byte) :
    Mutex.State Party Listener ArmCoreData where
  own := started data events irqs
  shared := data.gdb.arm
  holder := none

/-- What an interleaving has done when the scanner is between two events and the lock is free. -/
theorem runs_of_steps {b : Build} {data data' : ParserData} {events left : List ScannerEvent}
    {irqs : List Byte} {s : Mutex.State Party Listener ArmCoreData}
    (hsteps : ReflTransGen (Mutex.Step (listeners b)) (listening data events irqs) s)
    (hfree : s.holder = none) (hscanning : s.own .gdb = .scanning data' left) :
    ∃ done, Runs b data done (data'.withArm s.shared) ∧
      done.filterMap Input.event? ++ left = events ∧
      done.filterMap Input.irq? ++ (s.own .irq : IrqListener).left = irqs := by
  obtain ⟨done, data1, left1, hprogress⟩ := progress_serials (serial_of_steps rfl hfree hsteps)
  obtain ⟨hruns, harm, hgdb, hevents, hirqs⟩ := hprogress
  dsimp only at harm hgdb hirqs
  rw [hscanning] at hgdb
  cases hgdb with
  | scanning hsame =>
    rw [harm] at hsame
    rw [hsame]
    exact ⟨done, hruns, hevents, hirqs⟩

/-- What some order of inputs does is done by an interleaving. -/
theorem steps_of_runs {b : Build} {data data' : ParserData} {done : List Input}
    (hruns : Runs b data done data') (left : List ScannerEvent) (irqsLeft : List Byte) :
    ∃ d, d.withArm data'.gdb.arm = data' ∧
      ReflTransGen (Mutex.Step (listeners b))
        (listening data (done.filterMap Input.event? ++ left) (done.filterMap Input.irq? ++ irqsLeft))
        { own := started d left irqsLeft, shared := data'.gdb.arm, holder := none } := by
  obtain ⟨d, hserial, hsame⟩ := @serials_of_runs b data data' data left irqsLeft done hruns rfl
  exact ⟨d, hsame, steps_iff_serial.mpr hserial⟩

/-- **The listeners are serial**: where the lock is free and the scanner is between two events, an
interleaving of the two threads has done what the events and the interrupts so far do in some order,
one after the other, and what they do in any order is done by an interleaving. -/
theorem listeners_serial (b : Build) (data : ParserData) (events : List ScannerEvent)
    (irqs : List Byte) :
    (∀ s data' left,
      ReflTransGen (Mutex.Step (listeners b)) (listening data events irqs) s →
      s.holder = none → s.own .gdb = .scanning data' left →
      ∃ done, Runs b data done (data'.withArm s.shared) ∧
        done.filterMap Input.event? ++ left = events ∧
        done.filterMap Input.irq? ++ (s.own .irq : IrqListener).left = irqs) ∧
    ∀ done data' left irqsLeft, Runs b data done data' →
      done.filterMap Input.event? ++ left = events →
      done.filterMap Input.irq? ++ irqsLeft = irqs →
      ∃ d, d.withArm data'.gdb.arm = data' ∧
        ReflTransGen (Mutex.Step (listeners b)) (listening data events irqs)
          { own := started d left irqsLeft, shared := data'.gdb.arm, holder := none } := by
  refine ⟨fun s data' left hsteps hfree hscanning => runs_of_steps hsteps hfree hscanning, ?_⟩
  rintro done data' left irqsLeft hruns rfl rfl
  exact steps_of_runs hruns left irqsLeft

/-! ## Interrupts -/

section
variable {b : Build} {turns n : Nat}

theorem contEnd_mono {g : GdbProtocolData} (hfin : (Gdb.contEnd b g turns).fin = true)
    (hn : turns ≤ n) : Gdb.contEnd b g n = Gdb.contEnd b g turns := by
  obtain ⟨k, rfl⟩ := Nat.exists_eq_add_of_le' hn
  rw [Gdb.contEnd, Function.iterate_add_apply]
  exact Function.iterate_fixed (contTurn_of_fin hfin) k

theorem run_mono {handler : GdbHandler} {g g' : GdbProtocolData} {t : Text} {i : Nat}
    (hok : handler.run b turns g t i = .ok g') (hn : turns ≤ n) :
    handler.run b n g t i = .ok g' := by
  by_cases hcont : handler = .cont
  · subst hcont
    have hfin : (Gdb.contEnd b g turns).fin = true := GdbHandler.answers_of_run hok
    rw [GdbHandler.run, Gdb.cont, ← Gdb.contEnd] at hok ⊢
    rwa [contEnd_mono hfin hn]
  · rw [run_turns hcont] at hok ⊢
    exact hok

theorem scannerAction_mono {data data' : ParserData} {event : ScannerEvent}
    (hok : scannerAction b turns data event = .ok data') (hn : turns ≤ n) :
    scannerAction b n data event = .ok data' := by
  by_cases hlock : TakesLock b event
  · cases event with
    | packet token beyond =>
      obtain ⟨hsum, hne⟩ := hlock
      obtain ⟨handler, hcommand⟩ := Option.ne_none_iff_exists'.mp hne
      rw [scannerAction_request data b _ hsum hcommand] at hok ⊢
      obtain ⟨data1, hack, hok⟩ := ok_of_bind hok
      obtain ⟨g, hrun, hok⟩ := ok_of_bind hok
      rw [hack]
      show (handler.run b n data1.gdb (textOf token beyond) 2 >>= _) = _
      rw [run_mono hrun hn]
      exact hok
    | _ => exact hlock.elim
  · have hsame := scannerAction_withArm data data.gdb.arm b turns hlock
    have hsame' := scannerAction_withArm data data.gdb.arm b n hlock
    exact hsame'.trans (hsame.symm.trans hok)

theorem withArm_armException {data : ParserData} {i : Byte} (hi : i ≠ RESET) :
    data.withArm (armException data.gdb.arm i) = data := by
  rw [armException, if_neg hi]
  rfl

theorem scannerRun_of_runs {data data' : ParserData} {done : List Input}
    (hruns : Runs b data done data') (hirqs : ∀ irq ∈ done.filterMap Input.irq?, irq ≠ RESET) :
    ∃ turns, ∀ n, turns ≤ n →
      scannerRun b n data (done.filterMap Input.event?) = .ok data' := by
  induction hruns with
  | nil => exact ⟨0, fun n _ => rfl⟩
  | @event data data1 data2 e inputs turns hok _ ih =>
    obtain ⟨turns', hrun⟩ := ih hirqs
    refine ⟨max turns turns', fun n hn => ?_⟩
    have haction := scannerAction_mono hok (le_trans (le_max_left _ _) hn)
    have hrest := hrun n (le_trans (le_max_right _ _) hn)
    rw [List.filterMap_cons]
    exact (scannerRun_cons haction).trans hrest
  | @irq data data2 i inputs _ ih =>
    have hi : i ≠ RESET := hirqs i (by simp [Input.irq?])
    rw [withArm_armException hi] at ih
    exact ih fun irq hirq => hirqs irq (by simp [Input.irq?, hirq])

end

/-- **Only a reset is noticed**: with other interrupts an interleaving has done what the scanner does
without any. -/
theorem interrupts_unnoticed (b : Build) (data data' : ParserData) (events left : List ScannerEvent)
    (irqs : List Byte) (s : Mutex.State Party Listener ArmCoreData)
    (hirqs : ∀ irq ∈ irqs, irq ≠ RESET)
    (hsteps : ReflTransGen (Mutex.Step (listeners b)) (listening data events irqs) s)
    (hfree : s.holder = none) (hscanning : s.own .gdb = .scanning data' left) :
    ∃ received turns, received ++ left = events ∧
      ∀ n, turns ≤ n → scannerRun b n data received = .ok (data'.withArm s.shared) := by
  obtain ⟨done, hruns, hevents, hbytes⟩ := runs_of_steps hsteps hfree hscanning
  obtain ⟨turns, hrun⟩ := scannerRun_of_runs hruns fun irq hirq =>
    hirqs irq (by rw [← hbytes]; exact List.mem_append_left _ hirq)
  exact ⟨_, turns, hevents, hrun⟩

/-- An interrupt after a single step. -/
theorem interrupts_unnoticed_interrupt :
    ∃ (data' : ParserData) (s : Mutex.State Party Listener ArmCoreData),
      ReflTransGen (Mutex.Step (listeners .x86))
        (listening (gdbScanner (coreAt 0xE3A01001) (fun _ => 0) fun _ => 0)
          [.packet (Packet.frame (ofString "s")) fun _ => 0] [6]) s ∧
      (s.own .irq : IrqListener).left = [] ∧
      ∃ received turns, received ++ [] = [.packet (Packet.frame (ofString "s")) fun _ => 0] ∧
        ∀ n, turns ≤ n →
          scannerRun .x86 n (gdbScanner (coreAt 0xE3A01001) (fun _ => 0) fun _ => 0) received =
            .ok (data'.withArm s.shared) := by
  obtain ⟨data1, haction⟩ : ∃ data1, scannerAction .x86 0
      (gdbScanner (coreAt 0xE3A01001) (fun _ => 0) fun _ => 0)
      (.packet (Packet.frame (ofString "s")) fun _ => 0) = .ok data1 := exists_ok (by decide)
  obtain ⟨d, -, hsteps⟩ := steps_of_runs (.event 0 haction (.irq (i := 6) .nil)) [] []
  exact ⟨d, _, hsteps, rfl,
    interrupts_unnoticed .x86 _ d _ [] [6] _ (by decide) hsteps rfl rfl⟩

/-! ## The loop of `cont` -/

/-- The loop of `cont` has made some turns. -/
def Looping (b : Build) (data : ParserData) (first : Gdb.ContState) (input : List ScannerEvent)
    (x : GdbListener × ArmCoreData) : Prop :=
  ∃ s n, x.1 = .looping data s input ∧ { s with arm := x.2 } = (Gdb.contTurn b.host)^[n] first

/-- **`cont` is not interrupted**: while the loop of `cont` meets no breakpoint, the core is changed
by its turns only, and no exception is raised, whatever has been received. -/
theorem cont_uninterrupted (b : Build) (data : ParserData) (first : Gdb.ContState)
    (input : List ScannerEvent) (s s' : Mutex.State Party Listener ArmCoreData)
    (hheld : s.holder = some .gdb) (hlooping : s.own .gdb = .looping data first input)
    (hshared : first.arm = s.shared)
    (hnever : ∀ n, ((Gdb.contTurn b.host)^[n] first).fin = false)
    (hsteps : ReflTransGen (Mutex.Step (listeners b)) s s') :
    s'.holder = some .gdb ∧ (∃ n, s'.shared = ((Gdb.contTurn b.host)^[n] first).arm) ∧
      (s'.own .irq : IrqListener).left = (s.own .irq : IrqListener).left := by
  have hinside : ∀ x y, Looping b data first input x → (listeners b).inside .gdb x y →
      Looping b data first input y := by
    rintro ⟨own, v⟩ y ⟨cs, n, hown, hcs⟩ hstep
    change GdbInside b (own, v) y at hstep
    dsimp only at hown hcs
    subst hown
    cases hstep with
    | @turn _ _ cs' _ _ hfin hturn =>
      refine ⟨cs', n + 1, rfl, ?_⟩
      rw [Function.iterate_succ_apply', ← hcs]
      exact hturn
    | finish hfin hok =>
      have hopen := hnever n
      rw [← hcs] at hopen
      cases hfin.symm.trans hopen
  have hrelease : ∀ x p, Looping b data first input x → ¬ (listeners b).release .gdb x.1 p := by
    rintro ⟨own, v⟩ p ⟨cs, n, hown, -⟩ hstep
    change GdbRelease own p at hstep
    dsimp only at hown
    subst hown
    cases hstep
  have hfirst : Looping b data first input (s.own .gdb, s.shared) := by
    refine ⟨first, 0, hlooping, ?_⟩
    rw [← hshared]
    rfl
  obtain ⟨hheld', ⟨cs, n, -, hcs⟩, hother⟩ :=
    kept (T := listeners b) (i := Party.gdb) (Q := Looping b data first input) hinside hrelease hheld
      hfirst hsteps
  refine ⟨hheld', ⟨n, congrArg Gdb.ContState.arm hcs⟩, ?_⟩
  have hleft : ∀ x y : IrqListener, ReflTransGen IrqOutside x y → y.left = x.left := by
    intro x y hxy
    induction hxy with
    | refl => rfl
    | tail _ hstep ih =>
      rw [← ih]
      cases hstep
      rfl
  exact hleft _ _ (hother .irq (by decide))

/-- The word 0 is skipped by a reset, so that a core in front of it turns on the spot. -/
def Spinning (s : Gdb.ContState) : Prop :=
  s.fin = false ∧ s.arm.mem = (coreAt 0).mem ∧ s.arm.word 15 = 0

theorem spinning_turn {s : Gdb.ContState} (hspin : Spinning s) :
    Spinning (Gdb.contTurn Host.x86 s) := by
  obtain ⟨hfin, hmem, hword⟩ := hspin
  have haddress : fetchAddress s.arm = 0 := by
    rw [fetchAddress_eq, hword]
    rfl
  have hlook : (Gdb.lookAhead Host.x86 s.arm s.instruction).2 = 0 := by
    show (memoryReadWord Host.x86 s.arm.mem (fetchAddress s.arm) s.instruction).2 = 0
    rw [hmem, haddress]
    rfl
  have hfetched : fetchedWord Host.x86 s.arm = 0 := by
    show (memoryReadWord Host.x86 s.arm.mem (fetchAddress s.arm) (armReadCpsr s.arm)).2 = 0
    rw [hmem, haddress]
    rfl
  have hfail : ¬ Passed Host.x86 s.arm := by
    rw [passed_iff, haddress, Holds, hfetched]
    decide
  have hstep : ¬ Gdb.IsBreakpoint (Gdb.lookAhead Host.x86 s.arm s.instruction).2 := by
    rw [hlook]
    decide
  rw [Gdb.contTurn, if_neg (by simp [hfin])]
  dsimp only
  rw [if_neg hstep, armStep_of_failed hfail]
  exact ⟨hfin, (mem_armException _ _).trans hmem, word_armException_reset _⟩

def spinning : Gdb.ContState where
  arm := coreAt 0
  targetException := 0
  instruction := 0
  fin := false

theorem fin_spinning (n : Nat) : ((Gdb.contTurn Host.x86)^[n] spinning).fin = false := by
  have hall : Spinning ((Gdb.contTurn Host.x86)^[n] spinning) := by
    induction n with
    | zero => exact ⟨rfl, rfl, rfl⟩
    | succ n ih =>
      rw [Function.iterate_succ_apply']
      exact spinning_turn ih
  exact hall.1

/-- A reset has been received, and is not raised. -/
def spinningListeners : Mutex.State Party Listener ArmCoreData where
  own
    | .gdb => .looping (gdbScanner (coreAt 0) (fun _ => 0) fun _ => 0) spinning []
    | .irq => .received RESET []
  shared := coreAt 0
  holder := some .gdb

theorem cont_uninterrupted_spinning :
    ∃ s' : Mutex.State Party Listener ArmCoreData,
      ReflTransGen (Mutex.Step (listeners .x86)) spinningListeners s' ∧
      s'.own .gdb = .looping (gdbScanner (coreAt 0) (fun _ => 0) fun _ => 0)
        (Gdb.contTurn Host.x86 spinning) [] ∧
      s'.holder = some .gdb ∧ (∃ n, s'.shared = ((Gdb.contTurn Host.x86)^[n] spinning).arm) ∧
      (s'.own .irq : IrqListener).left = [RESET] := by
  have hturn : (listeners .x86).inside .gdb (spinningListeners.own .gdb, spinningListeners.shared)
      (.looping (gdbScanner (coreAt 0) (fun _ => 0) fun _ => 0) (Gdb.contTurn Host.x86 spinning) [],
        (Gdb.contTurn Host.x86 spinning).arm) := GdbInside.turn rfl rfl
  have hsteps := ReflTransGen.single (Mutex.Step.inside (s := spinningListeners) rfl hturn)
  refine ⟨_, hsteps, ?_, cont_uninterrupted .x86 _ spinning [] spinningListeners _
    rfl rfl rfl fin_spinning hsteps⟩
  exact Function.update_self Party.gdb _ spinningListeners.own

end Armator
