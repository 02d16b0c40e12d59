import Armator.GdbMemory
import Armator.Lib.Logged

/-!
# The bounds of packets

The size in a request for memory is the client's alone. `read_memory` writes two digits for each byte
the memory has, whatever the size of `packet` is (`readMemory_fits_iff`), and `write_memory_binary`
takes each byte from the packet, whatever the length of its data is (`usesData_iff`).
-/

namespace Armator

open CString Packet Logged

/-! ## What the memory accepts -/

/-- How many of `n` bytes from an address on the access functions take one after the other: they stop
at the end of the word behind the buffer, if that is an address. -/
def acceptedBytes (size : Nat) (address : Word) (n : Nat) : Nat :=
  if 2 ^ 32 ≤ 4 * size + 4 then n else min n (4 * size + 4 - address.toNat)

section
variable (size : Nat) (address : Word) (n : Nat)

theorem acceptedBytes_zero : acceptedBytes size address 0 = 0 := by
  rw [acceptedBytes, Nat.zero_min, ite_self]

theorem acceptedBytes_succ :
    acceptedBytes size address (n + 1) =
      if address.toNat / 4 ≤ size then acceptedBytes size (address + 1) n + 1 else 0 := by
  have hlt := address.isLt
  have hnext : (address + 1).toNat = (address.toNat + 1) % 2 ^ 32 := BitVec.toNat_add address 1
  unfold acceptedBytes
  by_cases hall : 2 ^ 32 ≤ 4 * size + 4
  · rw [if_pos hall, if_pos hall, if_pos (by omega)]
  · rw [if_neg hall, if_neg hall]
    by_cases hacc : address.toNat / 4 ≤ size
    · rw [if_pos hacc, hnext]
      omega
    · rw [if_neg hacc]
      omega

end

/-! ## Replies -/

section
variable (b : Build) (g : GdbProtocolData) (t : Text) (data : Nat)

theorem length_readBytes (h : Host) (mem : MemoryData) (n : Nat) (address : Word) (value : Byte) :
    (Gdb.readBytes h mem n address value).length = acceptedBytes mem.size address n := by
  induction n generalizing address value with
  | zero => exact (acceptedBytes_zero _ _).symm
  | succ n ih =>
    rw [acceptedBytes_succ, Gdb.readBytes, memoryReadByte_eq]
    by_cases hacc : address.toNat / 4 ≤ mem.size
    · rw [if_pos hacc, if_pos hacc]
      exact congrArg (· + 1) (ih _ _)
    · rw [if_neg hacc, if_neg hacc]
      rfl

/-- The number of bytes in the reply to a request. -/
def repliedBytes : Nat :=
  acceptedBytes (memoryGetSize g.arm.mem) (Gdb.request b t data).1 (Gdb.request b t data).2.toNat

theorem length_readMemory_reply :
    ((Gdb.requestedBytes b g t data).map twoDigits).flatten.length = 2 * repliedBytes b g t data := by
  rw [← List.flatMap_def, length_fields length_twoDigits, Gdb.requestedBytes, length_readBytes]
  rfl

theorem readMemory_overflow_iff :
    Gdb.readMemory b g t data = .error .overflow ↔ 509 < repliedBytes b g t data := by
  have hsends := Gdb.sends_readMemory b g t data
  rw [hsends.overflow_iff, length_readMemory_reply, maxPacketSize]
  omega

/-- **Memory reads**: the reply stays in `packet` exactly if it is of at most 509 bytes. -/
theorem readMemory_fits_iff :
    Gdb.readMemory b g t data ≠ .error .overflow ↔ repliedBytes b g t data ≤ 509 := by
  rw [ne_eq, readMemory_overflow_iff, Nat.not_lt]

end

/-- 510 bytes of a memory of 128 words do not fit. -/
theorem readMemory_fits_iff_long :
    Gdb.readMemory .x86 (gdbInitData (coreOf 128 []) fun _ => 0)
      (dispatched (ofString "m0,1fe") (ascii 'c') (ascii '5') fun _ => 0) 2 = .error .overflow := by
  rw [readMemory_overflow_iff]
  decide

/-! ## Written data -/

/-- What the loop of `write_memory_binary` does. -/
inductive Access where
  /-- `*content` is read at a position of the packet. -/
  | read (position : Nat)
  /-- A byte is passed to `memory_write_byte`. -/
  | write (value : Byte)
deriving DecidableEq

abbrev Accesses (α : Type) := Writer (List Access) α

namespace Accesses

section
variable (h : Host) (t : Text)

def get (content : Nat) : Accesses Byte := do
  tell [.read content]
  return t.get content

def memoryWriteByte (mem : MemoryData) (address : Word) (value : Byte) :
    Accesses (Int × MemoryData) := do
  tell [.write value]
  return Armator.memoryWriteByte h mem address value

/-- The byte at `content`, and the position of its last character. -/
def nextByte (content : Nat) : Accesses (Nat × Byte) := do
  if (← get t content) = 0x7d then return (content + 1, (← get t (content + 1)) ^^^ 0x20)
  else return (content, ← get t content)

def writeMemoryLoop : Nat → MemoryData → Word → Nat → Accesses (MemoryData × Bool)
  | 0, mem, _, _ => return (mem, true)
  | size + 1, mem, address, content => do
    let (content, value) ← nextByte t content
    let (result, mem) ← memoryWriteByte h mem address value
    if result = 0 then writeMemoryLoop size mem (address + 1) (content + 1)
    else return (mem, false)

end

section
variable (b : Build) (g : GdbProtocolData) (t : Text) (data : Nat)

/-- The loop behind its tests. -/
def writtenContent : Accesses (Except Fault (MemoryData × Bool)) := do
  let (address, size) := Gdb.request b t data
  let writeOk := decide (address.toNat < memoryGetSize g.arm.mem)
  if size = 0 ∨ writeOk = false then return .ok (g.arm.mem, writeOk)
  else
    match t.index data (ascii ':') with
    | none => return .error .nullPointer
    | some colon =>
      return .ok (← writeMemoryLoop b.host t size.toNat g.arm.mem address (colon + 1))

def writeMemoryBinary : Accesses (Except Fault GdbProtocolData) := do
  let written ← writtenContent b g t data
  return do
    let (mem, writeOk) ← written
    let g := { g with arm := { g.arm with mem := mem } }
    if writeOk then gdbSendData g (ofString "OK") else gdbSendData g (ofString "E02")

/-! ### Values -/

theorem value_nextByte (content : Nat) :
    value (nextByte t content) =
      if t.get content = 0x7d then (content + 1, t.get (content + 1) ^^^ 0x20)
      else (content, t.get content) := by
  rw [nextByte, value_bind, value_ite]
  rfl

theorem value_writeMemoryLoop (h : Host) (n : Nat) (mem : MemoryData) (address : Word)
    (content : Nat) :
    value (writeMemoryLoop h t n mem address content) =
      Gdb.writeMemoryLoop h t n mem address content := by
  induction n generalizing mem address content with
  | zero => rfl
  | succ n ih =>
    simp only [writeMemoryLoop, Gdb.writeMemoryLoop, value_bind, value_ite, value_nextByte, ih]
    rfl

theorem value_writeMemoryBinary :
    value (writeMemoryBinary b g t data) = Gdb.writeMemoryBinary b g t data := by
  simp only [writeMemoryBinary, writtenContent, Gdb.writeMemoryBinary, value_bind, value_pure,
    value_ite]
  split
  · rfl
  · cases t.index data (ascii ':') with
    | none => rfl
    | some colon => simp only [value_bind, value_writeMemoryLoop, value_pure]

end

end Accesses

/-- The bytes a text of data stands for. -/
def unescape : Chars → List Byte
  | [] => []
  | [c] => if c = 0x7d then [] else [c]
  | c :: d :: s => if c = 0x7d then (d ^^^ 0x20) :: unescape s else c :: unescape (d :: s)

theorem unescape_escape (d : Byte) (s : Chars) :
    unescape (0x7d :: d :: s) = (d ^^^ 0x20) :: unescape s := if_pos rfl

theorem unescape_plain {c : Byte} (hc : c ≠ 0x7d) (s : Chars) :
    unescape (c :: s) = c :: unescape s := by
  cases s with
  | nil => exact if_neg hc
  | cons d s => exact if_neg hc

/-- The turns of the loop for `n` bytes: it goes on as long as the memory takes them. -/
def loopTurns (size : Nat) (address : Word) (n : Nat) : Nat :=
  min n (acceptedBytes size address n + 1)

def writtenValues (log : List Access) : List Byte :=
  log.filterMap fun
    | .read _ => none
    | .write value => some value

/-- Only the bytes of `s`, which end at `stop`, are read, and only values they stand for written. -/
structure UsesData {α : Type} (s : Chars) (stop : Nat) (x : Accesses (Except Fault α)) : Prop where
  pointer : value x ≠ .error .nullPointer
  reads : ∀ i, .read i ∈ log x → i < stop
  writes : writtenValues (log x) <+: unescape s

section
variable {h : Host} {t : Text} {mem : MemoryData} {address : Word} {content : Nat}

theorem loopTurns_succ (size : Nat) (address : Word) (n : Nat) :
    loopTurns size address (n + 1) =
      if address.toNat / 4 ≤ size then loopTurns size (address + 1) n + 1 else 1 := by
  rw [loopTurns, acceptedBytes_succ, loopTurns]
  split <;> omega

theorem log_nextByte :
    log (Accesses.nextByte t content) =
      [.read content, .read (if t.get content = 0x7d then content + 1 else content)] := by
  have hget : value (Accesses.get t content) = t.get content := rfl
  rw [Accesses.nextByte, log_bind, hget, log_ite]
  split <;> rfl

theorem nextByte_of_drop {s more : Chars} (ht : t.bytes.drop content = s ++ 0 :: more) :
    (unescape s = [] ∧ .read (content + s.length) ∈ log (Accesses.nextByte t content)) ∨
    ∃ s', unescape s = (value (Accesses.nextByte t content)).2 :: unescape s' ∧
      t.bytes.drop ((value (Accesses.nextByte t content)).1 + 1) = s' ++ 0 :: more ∧
      (value (Accesses.nextByte t content)).1 + 1 + s'.length = content + s.length ∧
      ∀ i, .read i ∈ log (Accesses.nextByte t content) → i < content + s.length := by
  rw [log_nextByte, Accesses.value_nextByte]
  rcases s with _ | ⟨c, s⟩
  · exact Or.inl ⟨rfl, List.mem_cons_self⟩
  · obtain ⟨hc, hs⟩ := Text.get_of_drop ht
    rw [hc]
    by_cases hescape : c = 0x7d
    · rw [if_pos hescape, if_pos hescape]
      rcases s with _ | ⟨d, s⟩
      · left
        rw [unescape, if_pos hescape]
        exact ⟨rfl, List.mem_cons_of_mem _ List.mem_cons_self⟩
      · obtain ⟨hd, hs⟩ := Text.get_of_drop hs
        right
        rw [hescape, unescape_escape]
        refine ⟨s, by rw [hd], hs, by simp; omega, ?_⟩
        intro i hi
        simp at hi ⊢
        omega
    · rw [if_neg hescape, if_neg hescape]
      right
      refine ⟨s, unescape_plain hescape s, hs, by simp; omega, ?_⟩
      intro i hi
      simp at hi ⊢
      omega

theorem log_writeMemoryLoop_succ (n : Nat) :
    log (Accesses.writeMemoryLoop h t (n + 1) mem address content) =
      log (Accesses.nextByte t content) ++ .write (value (Accesses.nextByte t content)).2 ::
        if address.toNat / 4 ≤ mem.size then
          log (Accesses.writeMemoryLoop h t n (mem.set address
            (storedByte h mem.isBigEndian (value (Accesses.nextByte t content)).2)) (address + 1)
            ((value (Accesses.nextByte t content)).1 + 1))
        else [] := by
  rw [Accesses.writeMemoryLoop, log_bind]
  generalize value (Accesses.nextByte t content) = turn
  obtain ⟨next, v⟩ := turn
  have hresult : value (Accesses.memoryWriteByte h mem address v) =
      if address.toNat / 4 ≤ mem.size then (0, mem.set address (storedByte h mem.isBigEndian v))
      else (-1, mem) := memoryWriteByte_eq h mem address v
  dsimp only
  rw [log_bind, hresult]
  by_cases hacc : address.toNat / 4 ≤ mem.size
  · rw [if_pos hacc, if_pos hacc]
    rfl
  · rw [if_neg hacc, if_neg hacc]
    rfl

theorem writtenValues_append (l l' : List Access) :
    writtenValues (l ++ l') = writtenValues l ++ writtenValues l' := List.filterMap_append

theorem writtenValues_nextByte : writtenValues (log (Accesses.nextByte t content)) = [] := by
  rw [log_nextByte]
  rfl

theorem writeMemoryLoop_within {s more : Chars} (ht : t.bytes.drop content = s ++ 0 :: more) {n : Nat}
    (hn : loopTurns mem.size address n ≤ (unescape s).length) :
    (∀ i, .read i ∈ log (Accesses.writeMemoryLoop h t n mem address content) →
      i < content + s.length) ∧
    writtenValues (log (Accesses.writeMemoryLoop h t n mem address content)) <+: unescape s := by
  induction n generalizing s mem address content with
  | zero => exact ⟨fun i hi => absurd hi List.not_mem_nil, List.nil_prefix⟩
  | succ n ih =>
    rw [loopTurns_succ] at hn
    rw [log_writeMemoryLoop_succ, writtenValues_append, writtenValues_nextByte]
    rcases nextByte_of_drop ht with ⟨hnone, -⟩ | ⟨s', hs, ht', hstop, hreads⟩
    · rw [hnone, List.length_nil] at hn
      split at hn <;> omega
    · rw [hs, List.length_cons] at hn
      rw [hs]
      by_cases hacc : address.toNat / 4 ≤ mem.size
      · rw [if_pos hacc] at hn ⊢
        have hless : loopTurns (mem.set address (storedByte h mem.isBigEndian
            (value (Accesses.nextByte t content)).2)).size (address + 1) n ≤ (unescape s').length :=
          Nat.le_of_succ_le_succ hn
        obtain ⟨hmore, hwrites⟩ := ih ht' hless
        refine ⟨?_, (List.prefix_cons_inj _).mpr hwrites⟩
        intro i hi
        rcases List.mem_append.mp hi with hi | hi
        · exact hreads i hi
        · rcases List.mem_cons.mp hi with heq | hi
          · cases heq
          · rw [← hstop]
            exact hmore i hi
      · rw [if_neg hacc]
        refine ⟨?_, (List.prefix_cons_inj _).mpr List.nil_prefix⟩
        intro i hi
        rcases List.mem_append.mp hi with hi | hi
        · exact hreads i hi
        · cases List.mem_singleton.mp hi

theorem writeMemoryLoop_beyond {s more : Chars} (ht : t.bytes.drop content = s ++ 0 :: more) {n : Nat}
    (hn : (unescape s).length < loopTurns mem.size address n) :
    .read (content + s.length) ∈ log (Accesses.writeMemoryLoop h t n mem address content) := by
  induction n generalizing s mem address content with
  | zero => exact absurd hn (by simp [loopTurns])
  | succ n ih =>
    rw [loopTurns_succ] at hn
    rw [log_writeMemoryLoop_succ]
    rcases nextByte_of_drop ht with ⟨-, hstop⟩ | ⟨s', hs, ht', hstop, -⟩
    · exact List.mem_append_left _ hstop
    · rw [hs, List.length_cons] at hn
      by_cases hacc : address.toNat / 4 ≤ mem.size
      · rw [if_pos hacc] at hn
        rw [if_pos hacc, ← hstop]
        have hless : (unescape s').length < loopTurns (mem.set address (storedByte h
            mem.isBigEndian (value (Accesses.nextByte t content)).2)).size (address + 1) n :=
          Nat.lt_of_succ_lt_succ hn
        exact List.mem_append_right _ (List.mem_cons_of_mem _ (ih ht' hless))
      · rw [if_neg hacc] at hn
        omega

end

/-- The data of the arguments of an `X` request. -/
def dataOf (args : Chars) : Chars := (args.dropWhile (· ≠ ascii ':')).tail

theorem dataOf_append {s : Chars} (hs : ∀ c ∈ s, c ≠ ascii ':') (rest : Chars) :
    dataOf (s ++ ascii ':' :: rest) = rest := by
  rw [dataOf, List.dropWhile_append_of_pos fun c hc => by simpa using hs c hc,
    List.dropWhile_cons_of_neg (by simp), List.tail_cons]

section
variable (b : Build) (g : GdbProtocolData) (t : Text) (data : Nat)

/-- The loop is not entered, or it has a separator to start behind and data for all its turns. -/
def DataSuffice (s : Chars) : Prop :=
  Gdb.WritesNothing b g t data ∨ t.index data (ascii ':') ≠ none ∧
    loopTurns (memoryGetSize g.arm.mem) (Gdb.request b t data).1 (Gdb.request b t data).2.toNat ≤
      (unescape s).length

theorem writeMemoryBinary_nullPointer_iff :
    Gdb.writeMemoryBinary b g t data = .error .nullPointer ↔
      t.index data (ascii ':') = none ∧ ¬ Gdb.WritesNothing b g t data := by
  by_cases hcontent : t.index data (ascii ':') ≠ none ∨ Gdb.WritesNothing b g t data
  · exact iff_of_false (Gdb.sends_writeMemoryBinary b g t data hcontent).no_abort.2 (by tauto)
  · obtain ⟨hindex, hwrites⟩ := not_or.mp hcontent
    obtain ⟨hsize, haddress⟩ := not_or.mp hwrites
    refine iff_of_true ?_ ⟨not_not.mp hindex, hwrites⟩
    simp only [Gdb.writeMemoryBinary, not_not.mp hindex,
      decide_eq_true (Nat.lt_of_not_le haddress)]
    rw [if_neg fun h => h.elim hsize Bool.noConfusion]
    rfl

theorem log_writeMemoryBinary :
    log (Accesses.writeMemoryBinary b g t data) = log (Accesses.writtenContent b g t data) := by
  rw [Accesses.writeMemoryBinary, log_bind, log_pure, List.append_nil]

variable {b g t data}

theorem log_writtenContent_nothing (hnothing : Gdb.WritesNothing b g t data) :
    log (Accesses.writtenContent b g t data) = [] := by
  have hskip : (Gdb.request b t data).2 = 0 ∨
      decide ((Gdb.request b t data).1.toNat < memoryGetSize g.arm.mem) = false :=
    hnothing.imp id fun hle => decide_eq_false (Nat.not_lt.mpr hle)
  rw [Accesses.writtenContent]
  dsimp only
  rw [if_pos hskip, log_pure]

theorem log_writtenContent_some (hwrites : ¬ Gdb.WritesNothing b g t data) {colon : Nat}
    (hcolon : t.index data (ascii ':') = some colon) :
    log (Accesses.writtenContent b g t data) =
      log (Accesses.writeMemoryLoop b.host t (Gdb.request b t data).2.toNat g.arm.mem
        (Gdb.request b t data).1 (colon + 1)) := by
  have henter : ¬ ((Gdb.request b t data).2 = 0 ∨
      decide ((Gdb.request b t data).1.toNat < memoryGetSize g.arm.mem) = false) := by
    rintro (hsize | haddress)
    · exact hwrites (Or.inl hsize)
    · exact hwrites (Or.inr (Nat.not_lt.mp (of_decide_eq_false haddress)))
  rw [Accesses.writtenContent]
  dsimp only
  rw [if_neg henter, hcolon]
  dsimp only
  rw [log_bind, log_pure, List.append_nil]

end

section
variable (b : Build) (g : GdbProtocolData) (args : Chars) (x y : Byte) (beyond : Nat → Byte)

/-- **Memory writes**: only the data of a packet are used exactly if they suffice. -/
theorem usesData_iff :
    UsesData (dataOf args) (args.length + 2)
        (Accesses.writeMemoryBinary b g (dispatched (ascii 'X' :: args) x y beyond) 2) ↔
      DataSuffice b g (dispatched (ascii 'X' :: args) x y beyond) 2 (dataOf args) := by
  have ht := drop_dispatched args x y beyond (ascii 'X')
  generalize dispatched (ascii 'X' :: args) x y beyond = t at ht ⊢
  by_cases hnothing : Gdb.WritesNothing b g t 2
  · refine iff_of_true ?_ (Or.inl hnothing)
    constructor
    · rw [Accesses.value_writeMemoryBinary, ne_eq, writeMemoryBinary_nullPointer_iff]
      tauto
    · rw [log_writeMemoryBinary, log_writtenContent_nothing hnothing]
      exact fun i hi => absurd hi List.not_mem_nil
    · rw [log_writeMemoryBinary, log_writtenContent_nothing hnothing]
      exact List.nil_prefix
  · rw [DataSuffice, or_iff_right hnothing]
    rcases Text.index_cases ht (show ascii ':' ≠ 0 by decide) with
      hnone | ⟨s, rest, rfl, hs, hsome⟩
    · refine iff_of_false ?_ (by tauto)
      intro huses
      refine huses.pointer ?_
      rw [Accesses.value_writeMemoryBinary, writeMemoryBinary_nullPointer_iff]
      exact ⟨hnone, hnothing⟩
    · have hdata := dataOf_append (fun c hc => (hs c hc).2) rest
      have hcontent : t.bytes.drop (2 + s.length + 1) = rest ++ 0 :: [x, y, 0] := by
        rw [Nat.add_assoc, ← List.drop_drop, ht, List.append_assoc, ← List.drop_drop,
          List.drop_left]
        rfl
      have hstop : 2 + s.length + 1 + rest.length = (s ++ ascii ':' :: rest).length + 2 := by
        rw [List.length_append, List.length_cons]
        omega
      have hsome' : t.index 2 (ascii ':') ≠ none := by
        rw [hsome]
        exact Option.some_ne_none _
      rw [hdata, and_iff_right hsome', ← hstop, memoryGetSize]
      constructor
      · intro huses
        by_contra hshort
        have hread := writeMemoryLoop_beyond (h := b.host) hcontent (Nat.lt_of_not_le hshort)
        rw [← log_writtenContent_some hnothing hsome, ← log_writeMemoryBinary] at hread
        exact absurd (huses.reads _ hread) (Nat.lt_irrefl _)
      · intro hdata
        obtain ⟨hreads, hwrites⟩ := writeMemoryLoop_within (h := b.host) hcontent hdata
        rw [← log_writtenContent_some hnothing hsome, ← log_writeMemoryBinary] at hreads hwrites
        refine ⟨?_, hreads, hwrites⟩
        rw [Accesses.value_writeMemoryBinary, ne_eq, writeMemoryBinary_nullPointer_iff]
        tauto

end

/-- `X0,1:}` stores a blank, made of the terminator behind its escape. -/
theorem usesData_iff_escape :
    writtenValues (log (Accesses.writeMemoryBinary .x86 (gdbAt 0)
      (dispatched (ofString "X0,1:\x7d") (ascii '9') (ascii 'c') fun _ => 0) 2)) = [0x20] ∧
    ¬ UsesData (dataOf (ofString "0,1:\x7d")) 7 (Accesses.writeMemoryBinary .x86 (gdbAt 0)
      (dispatched (ofString "X0,1:\x7d") (ascii '9') (ascii 'c') fun _ => 0) 2) := by
  have hread : Access.read 7 ∈ log (Accesses.writeMemoryBinary .x86 (gdbAt 0)
      (dispatched (ofString "X0,1:\x7d") (ascii '9') (ascii 'c') fun _ => 0) 2) := by decide
  exact ⟨by decide, fun huses => absurd (huses.reads 7 hread) (Nat.lt_irrefl 7)⟩

end Armator
