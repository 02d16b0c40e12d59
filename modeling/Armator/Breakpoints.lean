import Armator.Branches
import Armator.Continue
import Armator.Execution
import Armator.GdbMemory
import Armator.Persistence

/-!
# Soft breakpoints

A debugger puts a breakpoint over a word of the program, lets the target run up to it with `c`, and
puts the word back. A step that neither fetches nor accesses the word does the same with the
breakpoint there as without it (`stepped_exchange`), so that afterwards the target is where the
program would be (`soft_breakpoints`).
-/

namespace Armator

open CString Packet
open ByteStore (span mem_span)

/-! ## A word exchanged -/

instance (a : Word) : DecidablePred (· ∈ group a) :=
  fun i => inferInstanceAs (Decidable (i.toNat / 4 = a.toNat / 4))

/-- The memory with other bytes in the word of an address. -/
def MemoryData.exchange (mem : MemoryData) (a : Word) (bytes : Word → Byte) : MemoryData :=
  mem.withMemo ((group a).piecewise bytes mem.memo)

def ArmCoreData.exchange (p : ArmCoreData) (a : Word) (bytes : Word → Byte) : ArmCoreData :=
  { p with mem := p.mem.exchange a bytes }

section
variable {mem : MemoryData} {a i : Word} {bytes : Word → Byte}

theorem memo_exchange (haway : i ∉ group a) : (mem.exchange a bytes).memo i = mem.memo i :=
  Set.piecewise_eq_of_notMem _ _ _ haway

theorem exchange_self : mem.exchange a mem.memo = mem := by
  unfold MemoryData.exchange MemoryData.withMemo
  rw [Set.piecewise_same]

theorem Answer.eq_of {x y : Answer} (hresult : x.result = y.result) (houtput : x.output = y.output) :
    x = y := by
  obtain ⟨result, output⟩ := x
  obtain rfl : result = y.result := hresult
  obtain rfl : output = y.output := houtput
  rfl

theorem perform_exchange (h : Host) (c : Call) (haway : c.address.toNat / 4 ≠ a.toNat / 4) :
    c.perform h (mem.exchange a bytes) =
      ((c.perform h mem).1, (c.perform h mem).2.exchange a bytes) := by
  by_cases hacc : c.Accepted mem.size
  · have hplace : ∀ k < c.width, c.place k ∉ group a := by
      intro k hk hmem
      have hgroup : c.place k ∈ group c.address :=
        mem_group_add (lt_of_lt_of_le (Nat.add_lt_add_left hk _) hacc.2.offset)
      exact haway (hgroup.symm.trans hmem)
    have hresult := Call.result_accepted h mem c hacc
    have hresult' := Call.result_accepted h (mem.exchange a bytes) c hacc
    by_cases hc : c.output = none
    · have hwrites : ∀ w ∈ ByteStore.writes mem.isBigEndian c.place c.width
          (if c.Kept h mem.isBigEndian then c.number else 0), w.1 ∉ group a := by
        intro w hw
        obtain ⟨k, hk, hplace'⟩ := ByteStore.place_of_mem_writes hw
        rw [hplace']
        exact hplace k hk
      have hanswer : (c.perform h (mem.exchange a bytes)).1 = (c.perform h mem).1 := by
        cases c <;> first | exact absurd hc (Option.some_ne_none _) | skip
        all_goals exact congrArg (Answer.mk · none) (hresult'.trans hresult.symm)
      refine Prod.ext hanswer ?_
      rw [Call.perform_write h hc hacc]
      refine (Call.perform_write h hc (show c.Accepted (mem.exchange a bytes).size from hacc)).trans ?_
      exact congrArg mem.withMemo (LastWrite.writeAll_piecewise bytes mem.memo hwrites)
    · have houtput := Call.output_perform h hc hacc
      have houtput' := Call.output_perform h hc
        (show c.Accepted (mem.exchange a bytes).size from hacc)
      have hread : ByteStore.read mem.isBigEndian (mem.exchange a bytes).memo c.place c.width =
          ByteStore.read mem.isBigEndian mem.memo c.place c.width := by
        rw [ByteStore.read, ByteStore.read]
        congr 1
        refine List.map_congr_left fun k hk => memo_exchange (hplace k (List.mem_range.mp hk))
      have hanswer : (c.perform h (mem.exchange a bytes)).1 = (c.perform h mem).1 := by
        refine Answer.eq_of (hresult'.trans hresult.symm) (houtput'.trans (Eq.trans ?_ houtput.symm))
        exact congrArg (fun n => some (if c.Kept h mem.isBigEndian then n else 0)) hread
      refine Prod.ext hanswer ?_
      rw [Call.perform_read h hc, Call.perform_read h hc]
  · rw [Call.perform_rejected h mem c hacc]
    exact Call.perform_rejected h (mem.exchange a bytes) c hacc

end

/-! ## A step away from the word -/

section
variable {h : Host} {p : ArmCoreData} {a : Word} {bytes : Word → Byte} {ins : Word}

theorem loadedWord_exchange (hload : ins.getLsbD 20 = true)
    (haway : (transferCall h p ins).address.toNat / 4 ≠ a.toNat / 4) :
    loadedWord h (p.exchange a bytes) ins = loadedWord h p ins := by
  have hperform := @perform_exchange p.mem a bytes h (transferCall h p ins) haway
  exact loadedWord_of_output hload (congrArg (fun r => r.1.output) hperform)

theorem transfer_exchange (haway : (transferCall h p ins).address.toNat / 4 ≠ a.toNat / 4) :
    (transfer h (p.exchange a bytes) ins).2 = (transfer h p ins).2.exchange a bytes := by
  have haccessed : accessed h (p.exchange a bytes) ins = (accessed h p ins).exchange a bytes := by
    rw [accessed, accessed]
    split
    · next hload =>
      rw [loadedWord_exchange hload haway]
      rfl
    · have hperform := @perform_exchange p.mem a bytes h (transferCall h p ins) haway
      exact congrArg (fun mem => { p with mem := mem }) (congrArg Prod.snd hperform)
  rw [transfer_eq, transfer_eq, haccessed]
  split
  · rfl
  · rfl

theorem selectExecuteInstruction_exchange (flagC : Byte)
    (haway : IsLoadStore ins → (transferCall h p ins).address.toNat / 4 ≠ a.toNat / 4) :
    (selectExecuteInstruction h (p.exchange a bytes) ins flagC).2 =
      (selectExecuteInstruction h p ins flagC).2.exchange a bytes := by
  rw [selectExecuteInstruction, selectExecuteInstruction, selectInstruction_eq, selectInstruction_eq]
  split
  · next htype =>
    have hne : ¬ ins.extractLsb' 26 2 = 1 := by
      rw [htype]
      decide
    split
    · next hbits =>
      have htransfer := @transfer_exchange h p a bytes ins (haway (.inr ⟨htype, hbits⟩))
      rwa [transfer, transfer, if_neg hne, if_neg hne] at htransfer
    · rw [traitementAR_eq, traitementAR_eq, instr_eq, instr_eq]
      split
      · rfl
      · rfl
  · next htype =>
    have htype : ins.extractLsb' 26 2 = 1 := htype
    have htransfer := @transfer_exchange h p a bytes ins (haway (.inl htype))
    rwa [transfer, transfer, if_pos htype, if_pos htype] at htransfer
  · rw [traitementBR_eq, traitementBR_eq]
    split
    · rw [bBlInstr_snd, bBlInstr_snd]
      split
      · rfl
      · rfl
    · rfl
  · rfl

theorem fetchedWord_exchange (haway : (fetchAddress p).toNat / 4 ≠ a.toNat / 4) :
    fetchedWord h (p.exchange a bytes) = fetchedWord h p := by
  have hread := @perform_exchange p.mem a bytes h
    (.readWord (fetchAddress p) (armReadCpsr p)) haway
  have houtput := Option.some.inj (congrArg (fun x => x.1.output) hread)
  exact BitVec.eq_of_toNat_eq houtput

theorem stepped_exchange (hfetch : (fetchAddress p).toNat / 4 ≠ a.toNat / 4)
    (haccess : Passed h p → IsLoadStore (fetchedWord h p) →
      (stepCall h p).address.toNat / 4 ≠ a.toNat / 4) :
    stepped h (p.exchange a bytes) = (stepped h p).exchange a bytes := by
  have hword := @fetchedWord_exchange h p a bytes hfetch
  have hcore : fetchedCore h (p.exchange a bytes) = (fetchedCore h p).exchange a bytes := rfl
  have hpassed : Passed h (p.exchange a bytes) ↔ Passed h p := by
    rw [Passed, Passed, hword]
    rfl
  by_cases hpass : Passed h p
  · rw [stepped, stepped, armStep_of_passed hpass, armStep_of_passed (hpassed.mpr hpass), hword, hcore]
    exact selectExecuteInstruction_exchange _ (haccess hpass)
  · rw [stepped, stepped, armStep_of_failed hpass, armStep_of_failed (mt hpassed.mp hpass)]
    rfl

end

/-! ## A run away from the word -/

/-- The step fetches a word that is no breakpoint, and neither this word nor the one it accesses is
the word of `a`. -/
structure StaysAway (h : Host) (a : Word) (p : ArmCoreData) : Prop where
  readable : ¬ FetchFails h p
  plain : ¬ Gdb.IsBreakpoint (fetchedWord h p)
  fetch : (fetchAddress p).toNat / 4 ≠ a.toNat / 4
  access : Passed h p → IsLoadStore (fetchedWord h p) →
    (stepCall h p).address.toNat / 4 ≠ a.toNat / 4

section
variable {h : Host} {p : ArmCoreData} {a : Word} {bytes : Word → Byte} {n : Nat}

theorem run_exchange (haway : ∀ k < n, StaysAway h a ((stepped h)^[k] p)) :
    (stepped h)^[n] (p.exchange a bytes) = ((stepped h)^[n] p).exchange a bytes := by
  induction n with
  | zero => rfl
  | succ n ih =>
    have hlast := haway n (Nat.lt_succ_self n)
    rw [Function.iterate_succ_apply', ih fun k hk => haway k (Nat.lt_succ_of_lt hk),
      stepped_exchange hlast.fetch hlast.access, Function.iterate_succ_apply']

theorem memo_run (haway : ∀ k < n, StaysAway h a ((stepped h)^[k] p)) {i : Word} (hi : i ∈ group a) :
    ((stepped h)^[n] p).mem.memo i = p.mem.memo i := by
  have hself : p.exchange a p.mem.memo = p := by
    rw [ArmCoreData.exchange, exchange_self]
  have hrun := @run_exchange h p a p.mem.memo n haway
  rw [hself] at hrun
  rw [hrun]
  exact Set.piecewise_eq_of_mem _ _ _ hi

theorem staysAway_exchange (haway : StaysAway h a p) :
    ¬ FetchFails h (p.exchange a bytes) ∧ ¬ Gdb.IsBreakpoint (fetchedWord h (p.exchange a bytes)) := by
  constructor
  · have hread := @perform_exchange p.mem a bytes h (.readWord (fetchAddress p) (armReadCpsr p))
      haway.fetch
    have hresult := congrArg (fun x => x.1.result) hread
    exact fun hfails => haway.readable (hresult.symm.trans hfails)
  · rw [fetchedWord_exchange haway.fetch]
    exact haway.plain

/-! ### The loop of `cont` -/

theorem readable_of_fetch {s : Gdb.ContState} (hfetch : ¬ FetchFails h s.arm) : Readable h s := by
  rw [FetchFails, armFetch_result, memoryReadWord] at hfetch
  show (memoryReadWord h s.arm.mem (fetchAddress s.arm) s.instruction).1 = 0
  rw [memoryReadWord]
  split
  · next hbad => exact absurd (congrArg Prod.fst (if_pos hbad)) hfetch
  · split <;> rfl

variable {s : Gdb.ContState} (hfin : s.fin = false)
  (hfetch : ∀ k ≤ n, ¬ FetchFails h ((stepped h)^[k] s.arm))
  (hbreak : Gdb.IsBreakpoint (fetchedWord h ((stepped h)^[n] s.arm)))
include hfin hfetch hbreak

theorem contInv_of_breakpoint (i : Nat) : ContInv h s.arm i ((Gdb.contTurn h)^[i] s) := by
  induction i with
  | zero => exact Or.inl ⟨hfin, rfl, fun j hj => absurd hj (Nat.not_lt_zero j)⟩
  | succ i ih =>
    rw [Function.iterate_succ_apply']
    refine contInv_turn ih (readable_of_fetch ?_)
    rcases ih with ⟨-, harm, hnone⟩ | ⟨-, k, -, harm, hstop⟩
    · rw [harm]
      exact hfetch i (Nat.le_of_not_lt fun hlt => hnone n hlt hbreak)
    · rw [harm]
      exact hfetch k (Nat.le_of_not_lt fun hlt => hstop.2 n hlt hbreak)

theorem contTurns_stop (hnone : ∀ k < n, ¬ Gdb.IsBreakpoint (fetchedWord h ((stepped h)^[k] s.arm)))
    {turns : Nat} (hturns : n < turns) :
    ((Gdb.contTurn h)^[turns] s).fin = true ∧
      ((Gdb.contTurn h)^[turns] s).arm = (stepped h)^[n] s.arm := by
  rcases contInv_of_breakpoint hfin hfetch hbreak turns with ⟨-, -, hpassed⟩ | ⟨hend, k, -, harm, hstop⟩
  · exact absurd hbreak (hpassed n hturns)
  · refine ⟨hend, ?_⟩
    rcases Nat.lt_trichotomy k n with hlt | rfl | hlt
    · exact absurd hstop.1 (hnone k hlt)
    · exact harm
    · exact absurd hbreak (hstop.2 n hlt)

end

/-! ## The word as an `X` request writes it -/

section
variable {h : Host} {mem : MemoryData} {a i : Word}

theorem mem_span_four (haligned : a.toNat % 4 = 0) : i ∈ span a 4 ↔ i ∈ group a := by
  constructor
  · intro hi
    obtain ⟨k, hk, rfl⟩ := (mem_span a).mp hi
    exact mem_group_add (by omega)
  · intro hi
    have hgroup : i.toNat / 4 = a.toNat / 4 := hi
    have hlt := i.isLt
    refine (mem_span a).mpr ⟨i.toNat - a.toNat, by omega, ?_⟩
    apply BitVec.eq_of_toNat_eq
    rw [BitVec.toNat_add, BitVec.toNat_ofNat]
    omega

theorem written_exchange (haligned : a.toNat % 4 = 0) (hquarter : a.toNat < mem.size)
    (hhost : h.bigEndian = false ∨ mem.isBigEndian = true) {d : List Byte} (hlength : d.length = 4) :
    ∃ bytes, (span a 4).map bytes = d ∧ written h mem a d = (mem.exchange a bytes, true) := by
  have hn : d.length ≤ 2 ^ 32 := by omega
  have hacc : AcceptsSpan mem.size a d.length :=
    (acceptsSpan_iff (by omega) hn).mpr (Or.inl (by omega))
  obtain ⟨hbytes, hothers⟩ := memo_writeBytes h hn hacc
  obtain ⟨hsize, hbe⟩ := @size_writeBytes h mem a d
  have hd : d.map (storedByte h mem.isBigEndian) = d := by
    refine (map_storedByte_eq_iff h mem.isBigEndian d).mpr ?_
    exact hhost.imp_right Or.inl
  rw [hd, hlength] at hbytes
  refine ⟨(writeBytes h mem a d).1.memo, hbytes, ?_⟩
  have hmemo : (group a).piecewise (writeBytes h mem a d).1.memo mem.memo =
      (writeBytes h mem a d).1.memo := by
    funext i
    by_cases hi : i ∈ group a
    · exact Set.piecewise_eq_of_mem _ _ _ hi
    · rw [Set.piecewise_eq_of_notMem _ _ _ hi, hothers i]
      rw [hlength, mem_span_four haligned]
      exact hi
  rw [written, memoryGetSize, if_pos hquarter]
  refine Prod.ext ?_ ((writeBytes_ok_iff h d).mpr hacc)
  rw [MemoryData.exchange, hmemo, MemoryData.withMemo, ← hsize, ← hbe]

theorem exchange_exchange {bytes bytes' : Word → Byte} (hback : ∀ i ∈ group a, bytes' i = mem.memo i) :
    (mem.exchange a bytes).exchange a bytes' = mem := by
  have hmemo : (group a).piecewise bytes' ((group a).piecewise bytes mem.memo) = mem.memo := by
    funext i
    by_cases hi : i ∈ group a
    · rw [Set.piecewise_eq_of_mem _ _ _ hi, hback i hi]
    · rw [Set.piecewise_eq_of_notMem _ _ _ hi, Set.piecewise_eq_of_notMem _ _ _ hi]
  exact congrArg mem.withMemo hmemo

end

/-! ## The requests of a debugger -/

section
variable {b : Build} {turns : Nat} {data : ParserData} {a : Word} {d : List Byte}
  {token : Chars} {beyond : Nat → Byte}

theorem exchange_ok (hopen : data.gdb.fd.shut = false) (hrequest : WriteRequest a d token)
    (hlength : d.length = 4) (haligned : a.toNat % 4 = 0)
    (hquarter : a.toNat < data.gdb.arm.mem.size)
    (hhost : b.host.bigEndian = false ∨ data.gdb.arm.mem.isBigEndian = true) :
    ∃ data' bytes, scannerAction b turns data (.packet token beyond) = .ok data' ∧
      (span a 4).map bytes = d ∧ data'.gdb.arm = data.gdb.arm.exchange a bytes ∧
      data'.gdb.fd.shut = false ∧ lastReply data'.gdb.fd.sent = frame (ofString "OK") := by
  obtain ⟨bytes, hbytes, hwritten⟩ := written_exchange haligned hquarter hhost hlength
  have hreceive : ∀ g, g.session = data.gdb.session → ∃ g', receive b turns g token beyond = .ok g' ∧
      (g'.arm = data.gdb.arm.exchange a bytes ∧ g'.fd.shut = false ∧
        lastReply g'.fd.sent = frame (ofString "OK")) := by
    intro g hsame
    have harm : g.arm = data.gdb.arm := congrArg Session.arm hsame
    have hopen' : g.fd.shut = false := (shut_of_session hsame).trans hopen
    obtain ⟨g', hok, hanswered⟩ := receive_write b turns beyond hrequest (by omega) hopen'
    rw [harm, hwritten] at hanswered
    exact ⟨g', hok, hanswered.arm, hanswered.shut.trans hopen', hanswered.lastReply⟩
  obtain ⟨data', haction, harm, hshut, hreply⟩ := action_of_open hopen hreceive
  exact ⟨data', bytes, haction, hbytes, harm, hshut, hreply⟩

theorem cont_ok (hopen : data.gdb.fd.shut = false) (hsum : SumAccepted b token beyond)
    (hcommand : commandOf token beyond = some .cont) {n : Nat}
    (hbefore : ∀ k < n, ¬ FetchFails b.host ((stepped b.host)^[k] data.gdb.arm) ∧
      ¬ Gdb.IsBreakpoint (fetchedWord b.host ((stepped b.host)^[k] data.gdb.arm)))
    (hstop : ¬ FetchFails b.host ((stepped b.host)^[n] data.gdb.arm) ∧
      Gdb.IsBreakpoint (fetchedWord b.host ((stepped b.host)^[n] data.gdb.arm)))
    (hturns : n < turns) :
    ∃ data', scannerAction b turns data (.packet token beyond) = .ok data' ∧
      data'.gdb.arm = (stepped b.host)^[n] data.gdb.arm ∧ data'.gdb.fd.shut = false ∧
      lastReply data'.gdb.fd.sent = frame (stopReason data'.gdb.targetException) := by
  have hfetch : ∀ k ≤ n, ¬ FetchFails b.host ((stepped b.host)^[k] data.gdb.arm) := by
    intro k hk
    rcases Nat.lt_or_eq_of_le hk with hlt | rfl
    · exact (hbefore k hlt).1
    · exact hstop.1
  obtain ⟨hfin, harm⟩ := contTurns_stop (s := Gdb.contStart b data.gdb) rfl hfetch hstop.2
    (fun k hk => (hbefore k hk).2) hturns
  have heffect : Effect b turns data.gdb token beyond _ _ _ :=
    .handled .cont hcommand nofun hfin
  obtain ⟨data', haction, hsession⟩ :=
    action_of_effect hsum hopen heffect (length_stopReason _)
  simp only [GdbProtocolData.session, Session.mk.injEq] at hsession
  obtain ⟨harm', hexception, hshut, hreply⟩ := hsession
  refine ⟨data', haction, harm'.trans harm, hshut, ?_⟩
  rw [hreply, hexception]
  rfl

end

/-- The packets that run a core up to the word of an address: a breakpoint is written over it with
`X`, the target is run with `c`, and the old word is written back. -/
structure StopPackets (b : Build) (p : ArmCoreData) (a : Word) (set cont restore : Chars)
    (beyond : Nat → Byte) : Prop where
  aligned : a.toNat % 4 = 0
  quarter : a.toNat < p.mem.size
  set : ∃ d, d.length = 4 ∧ WriteRequest a d set ∧
    Gdb.IsBreakpoint (BitVec.ofNat 32 (ByteStore.value p.mem.isBigEndian d))
  sum : SumAccepted b cont beyond
  command : commandOf cont beyond = some .cont
  restore : WriteRequest a ((span a 4).map p.mem.memo) restore

/-- The program comes to the word, and leaves it alone until then. -/
structure StopsAt (b : Build) (turns : Nat) (p : ArmCoreData) (a : Word) (n : Nat) : Prop where
  reach : fetchAddress ((stepped b.host)^[n] p) = a
  away : ∀ k < n, StaysAway b.host a ((stepped b.host)^[k] p)
  turns : n < turns

theorem stopsAt_ok {b : Build} {turns n : Nat} {data : ParserData} {a : Word}
    {set cont restore : Chars} {beyond : Nat → Byte} (beyond' beyond'' : Nat → Byte)
    (hopen : data.gdb.fd.shut = false)
    (hhost : b.host.bigEndian = false ∨ data.gdb.arm.mem.isBigEndian = true)
    (hpackets : StopPackets b data.gdb.arm a set cont restore beyond)
    (hstop : StopsAt b turns data.gdb.arm a n) :
    ∃ data', scannerRun b turns data
        [.packet set beyond', .packet cont beyond, .packet restore beyond''] = .ok data' ∧
      data'.gdb.arm = (stepped b.host)^[n] data.gdb.arm ∧ data'.gdb.fd.shut = false := by
  obtain ⟨haligned, hquarter, ⟨d, hlength, hset, hbreak⟩, hsum, hcont, hrestore⟩ := hpackets
  obtain ⟨hreach, haway, hturns⟩ := hstop
  obtain ⟨data1, bytes, hset1, hbytes, harm1, hopen1, -⟩ :=
    exchange_ok hopen hset hlength haligned hquarter hhost
  have hrun : ∀ k ≤ n, (stepped b.host)^[k] data1.gdb.arm =
      ((stepped b.host)^[k] data.gdb.arm).exchange a bytes := by
    intro k hk
    rw [harm1]
    exact run_exchange fun j hj => haway j (Nat.lt_of_lt_of_le hj hk)
  have hbefore : ∀ k < n, ¬ FetchFails b.host ((stepped b.host)^[k] data1.gdb.arm) ∧
      ¬ Gdb.IsBreakpoint (fetchedWord b.host ((stepped b.host)^[k] data1.gdb.arm)) := by
    intro k hk
    rw [hrun k (Nat.le_of_lt hk)]
    exact staysAway_exchange (haway k hk)
  -- the word the run comes to is the breakpoint
  have hframe := frame_run b.host data1.gdb.arm n
  have hsize : ((stepped b.host)^[n] data1.gdb.arm).mem.size = data.gdb.arm.mem.size := by
    rw [hframe.size, harm1]
    rfl
  have hbe : ((stepped b.host)^[n] data1.gdb.arm).mem.isBigEndian = data.gdb.arm.mem.isBigEndian := by
    rw [hframe.isBigEndian, harm1]
    rfl
  have hword : ¬ FetchFails b.host ((stepped b.host)^[n] data1.gdb.arm) ∧
      Gdb.IsBreakpoint (fetchedWord b.host ((stepped b.host)^[n] data1.gdb.arm)) := by
    have haddress : fetchAddress ((stepped b.host)^[n] data1.gdb.arm) = a := by
      rw [hrun n (Nat.le_refl n)]
      exact hreach
    have hmemo : (span a 4).map ((stepped b.host)^[n] data1.gdb.arm).mem.memo = d := by
      rw [← hbytes, hrun n (Nat.le_refl n)]
      refine List.map_congr_left fun i hi => ?_
      exact Set.piecewise_eq_of_mem _ _ _ ((mem_span_four haligned).mp hi)
    obtain ⟨hfetch, hvalue⟩ := @fetch_inside b.host ((stepped b.host)^[n] data1.gdb.arm)
      (by rwa [haddress]) (by rw [haddress, hsize]; omega)
    rw [haddress, hmemo, hbe] at hvalue
    rw [← hvalue, BitVec.ofNat_toNat, BitVec.setWidth_eq] at hbreak
    exact ⟨hfetch, hbreak⟩
  obtain ⟨data2, hcont2, harm2, hopen2, -⟩ :=
    cont_ok hopen1 hsum hcont hbefore hword hturns
  -- the old word is put back into the memory of the run
  rw [← harm2] at hsize hbe
  obtain ⟨data3, bytes', hrestore3, hbytes', harm3, hopen3, -⟩ :=
    exchange_ok hopen2 hrestore (by rw [List.length_map, ByteStore.length_span]) haligned
      (by rwa [hsize]) (by rwa [hbe])
  refine ⟨data3, ?_, ?_, hopen3⟩
  · rw [scannerRun_cons hset1, scannerRun_cons hcont2, scannerRun_cons hrestore3]
    rfl
  · have hback : ∀ i ∈ group a, bytes' i = ((stepped b.host)^[n] data.gdb.arm).mem.memo i := by
      intro i hi
      rw [memo_run haway hi]
      exact List.map_inj_left.mp hbytes' i ((mem_span_four haligned).mpr hi)
    rw [harm3, harm2, hrun n (Nat.le_refl n)]
    exact congrArg (fun mem => { (stepped b.host)^[n] data.gdb.arm with mem := mem })
      (exchange_exchange hback)

/-- The packets of a debugger that stops a core here and there, or makes single steps, and the steps
of the program up to its end. -/
inductive Debugs (b : Build) (turns : Nat) : ArmCoreData → Nat → List ScannerEvent → Prop where
  | done (p : ArmCoreData) : Debugs b turns p 0 []
  | stop {p : ArmCoreData} {a : Word} {n m : Nat} {set cont restore : Chars}
    {beyond : Nat → Byte} {events : List ScannerEvent} (beyond' beyond'' : Nat → Byte)
    (hpackets : StopPackets b p a set cont restore beyond) (hstop : StopsAt b turns p a n)
    (hrest : Debugs b turns ((stepped b.host)^[n] p) m events) :
    Debugs b turns p (n + m)
      (.packet set beyond' :: .packet cont beyond :: .packet restore beyond'' :: events)
  | step {p : ArmCoreData} {m : Nat} {token : Chars} {beyond : Nat → Byte}
    {events : List ScannerEvent} (hsum : SumAccepted b token beyond)
    (hcommand : commandOf token beyond = some .step)
    (hrest : Debugs b turns (stepped b.host p) m events) :
    Debugs b turns p (1 + m) (.packet token beyond :: events)

/-- **Soft breakpoints**: a debugger may put breakpoints over the program and take them back, run to
them and make single steps, as often as it likes: the core and its memory are in the end those of
the program alone. -/
theorem soft_breakpoints (b : Build) (turns n : Nat) (data : ParserData)
    (events : List ScannerEvent) (hopen : data.gdb.fd.shut = false)
    (hhost : b.host.bigEndian = false ∨ data.gdb.arm.mem.isBigEndian = true)
    (hdebugs : Debugs b turns data.gdb.arm n events) :
    ∃ data', scannerRun b turns data events = .ok data' ∧
      data'.gdb.arm = (stepped b.host)^[n] data.gdb.arm ∧ data'.gdb.fd.shut = false := by
  generalize hp : data.gdb.arm = p at hdebugs
  induction hdebugs generalizing data with
  | done p => exact ⟨data, rfl, hp, hopen⟩
  | @stop p a n m set cont restore beyond events beyond' beyond'' hpackets hstop hrest ih =>
    subst hp
    obtain ⟨data1, hrun1, harm1, hopen1⟩ := stopsAt_ok beyond' beyond'' hopen hhost hpackets
      hstop
    have hhost1 : b.host.bigEndian = false ∨ data1.gdb.arm.mem.isBigEndian = true := by
      rwa [harm1, (frame_run b.host data.gdb.arm n).isBigEndian]
    obtain ⟨data2, hrun2, harm2, hopen2⟩ := ih data1 hopen1 hhost1 harm1
    refine ⟨data2, ?_, ?_, hopen2⟩
    · show scannerRun b turns data
        ([.packet set beyond', .packet cont beyond, .packet restore beyond''] ++ events) = _
      rw [scannerRun_append, hrun1]
      exact hrun2
    · rw [harm2, ← Function.iterate_add_apply, Nat.add_comm]
  | @step p m token beyond events hsum hcommand hrest ih =>
    subst hp
    obtain ⟨data1, haction1, hopen1, htarget1, -⟩ := @step_ok b turns data token beyond hsum hcommand
      hopen
    have harm1 : data1.gdb.arm = stepped b.host data.gdb.arm := congrArg Prod.fst htarget1
    have hhost1 : b.host.bigEndian = false ∨ data1.gdb.arm.mem.isBigEndian = true := by
      rwa [harm1, (frame_stepped b.host data.gdb.arm).isBigEndian]
    obtain ⟨data2, hrun2, harm2, hopen2⟩ := ih data1 hopen1 hhost1 harm1
    refine ⟨data2, ?_, ?_, hopen2⟩
    · rw [scannerRun_cons haction1, hrun2]
    · rw [harm2, Nat.add_comm, Function.iterate_succ_apply]

/-- `MOV r0, #5` in front of `MOV r1, #6`. -/
def movTwice : ParserData :=
  gdbScanner (coreOf 32 [0xE3A00005, 0xE3A01006]) (fun _ => 0) fun _ => 0

theorem writeRequest_word (d : List Byte) (hlength : d.length = 4) :
    WriteRequest 4 d (frame (ascii 'X' :: (ofString "4,4" ++ ascii ':' :: d.flatMap escaped))) :=
  writeRequest_digits 4 d (ascii '4') (ascii '4') (by decide) (by decide) (by rw [hlength]; decide)

/-- A breakpoint over the second instruction, and a step behind it. -/
theorem soft_breakpoints_mov :
    ∃ events data', Debugs .x86 2 movTwice.gdb.arm 2 events ∧
      scannerRun .x86 2 movTwice events = .ok data' ∧
      data'.gdb.arm = (stepped Host.x86)^[2] movTwice.gdb.arm ∧ data'.gdb.fd.shut = false := by
  have haway : ∀ k < 1, StaysAway Host.x86 4 ((stepped Host.x86)^[k] movTwice.gdb.arm) := by
    intro k hk
    obtain rfl : k = 0 := by omega
    have hload : ¬ IsLoadStore (fetchedWord Host.x86 movTwice.gdb.arm) := by
      unfold IsLoadStore
      decide
    exact ⟨by unfold FetchFails; decide, by decide, by decide, fun _ hls => absurd hls hload⟩
  have hpackets : StopPackets .x86 movTwice.gdb.arm 4 _ (frame (ofString "c")) _ fun _ => 0 :=
    ⟨by decide, by decide, ⟨[0xE7, 0xF0, 0x01, 0xF0], rfl, writeRequest_word _ rfl, by decide⟩,
      sumAccepted_frame _ _ _, by decide, writeRequest_word _ rfl⟩
  have hstop : StopsAt .x86 2 movTwice.gdb.arm 4 1 := ⟨by decide, haway, by decide⟩
  have hstep := @Debugs.step .x86 2 ((stepped Host.x86)^[1] movTwice.gdb.arm) 0
    (frame (ofString "s")) (fun _ => 0) [] (sumAccepted_frame _ _ _) (by decide) (.done _)
  have hdebugs := Debugs.stop (fun _ => 0) (fun _ => 0) hpackets hstop hstep
  obtain ⟨data', hrun⟩ := soft_breakpoints .x86 2 2 movTwice _ rfl (.inl rfl) hdebugs
  exact ⟨_, data', hdebugs, hrun⟩

end Armator
