import Armator.MemoryCalls
import Armator.GdbPackets

/-!
# The memory of the debugger

`read_memory` and `write_memory_binary` get an address and a size as text (`request_of_text`) and go
through the memory byte by byte (`readBytes_eq`, `writeMemoryLoop_eq`, `writeBytes_eq`). The writer
first compares the address with the number of words of the memory, so it refuses the upper three
quarters, and byte by byte it has the bound of the access functions, which is one word too far.
`memory_round_trip_iff` is what is left.
-/

namespace Armator

open CString Packet LastWrite ByteStore

/-! ## Requests -/

/-- An address and a size in the arguments of a request. -/
def RequestText (address : Word) (size : Nat) (text : Chars) : Prop :=
  ∃ s s', IsHex s ∧ s ≠ [] ∧ IsHex s' ∧ s' ≠ [] ∧ hexNumber s = address.toNat ∧
    hexNumber s' = size ∧ text = s ++ ascii ',' :: s'

section
variable {address : Word} {size : Nat} {text : Chars}

theorem RequestText.ne (htext : RequestText address size text) :
    ∀ c ∈ text, c ≠ 0 ∧ c ≠ ascii ':' := by
  obtain ⟨s, s', hs, -, hs', -, -, -, rfl⟩ := htext
  have hhex : ∀ c : Byte, hexValue c ≠ none → c ≠ 0 ∧ c ≠ ascii ':' := by
    intro c hc
    revert c
    decide
  intro c hc
  rcases List.mem_append.mp hc with hc | hc
  · exact hhex c (hs c hc)
  · rcases List.mem_cons.mp hc with rfl | hc
    · decide
    · exact hhex c (hs' c hc)

theorem scanPair_of_text (b : Build) (htext : RequestText address size text) (hsize : size < 2 ^ 32)
    {rest : Chars} (hrest : EndsNumber rest) (first second : Word) :
    b.scanPair (text ++ rest) first second = (address, BitVec.ofNat 32 size) := by
  obtain ⟨s, s', hs, hne, hs', hne', haddress, rfl, rfl⟩ := htext
  have hcomma : EndsNumber (ascii ',' :: (s' ++ rest)) := by
    intro c hc
    obtain rfl : ascii ',' = c := Option.some.inj hc
    decide
  have hscan : ∀ {s : Chars} (_ : IsHex s) (_ : s ≠ []) {rest : Chars} (_ : EndsNumber rest),
      scanHex (s ++ rest).length (s ++ rest) = some ((hexNumber s : Int), rest) := by
    intro s hs hne rest hrest
    exact scanHex_digits hs hne rest (by rw [List.length_append]; omega) (Or.inr hrest)
  have hfirst := hscan hs hne hcomma
  have hsecond := hscan hs' hne' hrest
  rw [List.append_assoc, List.cons_append]
  simp only [Build.scanPair, hfirst, Build.scanWord, hsecond, if_true]
  rw [haddress, b.stored_natCast address.isLt, b.stored_natCast hsize, BitVec.ofNat_toNat,
    BitVec.setWidth_eq]

theorem request_of_text (b : Build) {t : Text} {data : Nat} {rest : Chars}
    (htext : RequestText address size text) (hsize : size < 2 ^ 32)
    (ht : t.bytes.drop data = text ++ rest) (hrest : EndsNumber (rest.takeWhile (· ≠ 0))) :
    Gdb.request b t data = (address, BitVec.ofNat 32 size) := by
  have hstr : t.str data = text ++ rest.takeWhile (· ≠ 0) := by
    rw [Text.str, ht, List.takeWhile_append_of_pos fun c hc => decide_eq_true (htext.ne c hc).1]
  rw [Gdb.request, hstr, scanPair_of_text b htext hsize hrest]

theorem Text.index_eq {t : Text} {offset : Nat} {s rest : Chars} {c : Byte}
    (ht : t.bytes.drop offset = s ++ c :: rest) (hs : ∀ d ∈ s, d ≠ 0 ∧ d ≠ c) (hc : c ≠ 0) :
    t.index offset c = some (offset + s.length) := by
  have hstr : t.str offset = s ++ c :: rest.takeWhile (· ≠ 0) := by
    rw [Text.str, ht, List.takeWhile_append_of_pos fun d hd => decide_eq_true (hs d hd).1,
      List.takeWhile_cons_of_pos (by simpa using hc)]
  have hnone : s.findIdx? (· = c) = none := by
    rw [List.findIdx?_eq_none_iff]
    exact fun d hd => decide_eq_false (hs d hd).2
  rw [Text.index, hstr, List.findIdx?_append, hnone, List.findIdx?_cons, decide_eq_true rfl,
    if_pos rfl, Option.none_or, Option.map_some, Option.map_some, Nat.zero_add]

theorem takeWhile_append_nul (s more : Chars) :
    (s ++ 0 :: more).takeWhile (· ≠ 0) = s.takeWhile (· ≠ 0) := by
  induction s with
  | nil => rfl
  | cons c s ih =>
    by_cases hc : c = 0
    · rw [List.cons_append, List.takeWhile_cons_of_neg (by simpa using hc),
        List.takeWhile_cons_of_neg (by simpa using hc)]
    · rw [List.cons_append, List.takeWhile_cons_of_pos (by simpa using hc),
        List.takeWhile_cons_of_pos (by simpa using hc), ih]

section
variable {t : Text} {offset : Nat} {args more : Chars} {c : Byte}

theorem Text.str_of_drop (ht : t.bytes.drop offset = args ++ 0 :: more) :
    t.str offset = args.takeWhile (· ≠ 0) := by
  rw [Text.str, ht, takeWhile_append_nul]

theorem Text.index_ne_none_iff (ht : t.bytes.drop offset = args ++ 0 :: more) :
    t.index offset c ≠ none ↔ c ∈ args.takeWhile (· ≠ 0) := by
  rw [Text.index, Text.str_of_drop ht, ne_eq, Option.map_eq_none_iff, List.findIdx?_eq_none_iff]
  simp

theorem Text.index_cases (ht : t.bytes.drop offset = args ++ 0 :: more) (hc : c ≠ 0) :
    t.index offset c = none ∨ ∃ s rest, args = s ++ c :: rest ∧ (∀ d ∈ s, d ≠ 0 ∧ d ≠ c) ∧
      t.index offset c = some (offset + s.length) := by
  by_cases hmem : c ∈ args.takeWhile (· ≠ 0)
  · obtain ⟨s, rest, hsplit, hnot⟩ := List.eq_append_cons_of_mem hmem
    right
    have hargs : args = s ++ c :: (rest ++ args.dropWhile (· ≠ 0)) := by
      conv_lhs => rw [← List.takeWhile_append_dropWhile (p := (· ≠ 0)) (l := args), hsplit]
      simp
    have hs : ∀ d ∈ s, d ≠ 0 ∧ d ≠ c := by
      intro d hd
      refine ⟨?_, fun heq => hnot (heq ▸ hd)⟩
      have hin : d ∈ args.takeWhile (· ≠ 0) := by
        rw [hsplit]
        exact List.mem_append_left _ hd
      simpa using List.mem_takeWhile_imp hin
    have hdrop : t.bytes.drop offset =
        s ++ c :: (rest ++ args.dropWhile (· ≠ 0) ++ 0 :: more) := by
      rw [ht]
      conv_lhs => rw [hargs]
      simp
    exact ⟨s, _, hargs, hs, Text.index_eq hdrop hs hc⟩
  · left
    by_contra hsome
    exact hmem ((Text.index_ne_none_iff ht).mp hsome)

end

end

/-! ## The content of a write -/

/-- A byte of the content, escaped if it is a delimiter or the escape character. -/
def escaped (c : Byte) : Chars :=
  if c = ascii '#' ∨ c = ascii '$' ∨ c = ascii '}' then [0x7d, c ^^^ 0x20] else [c]

/-- Bytes written one after the other, as long as the memory takes them. -/
def writeBytes (h : Host) : MemoryData → Word → List Byte → MemoryData × Bool
  | mem, _, [] => (mem, true)
  | mem, address, c :: d =>
    let (result, mem) := memoryWriteByte h mem address c
    if result = 0 then writeBytes h mem (address + 1) d else (mem, false)

theorem Text.get_of_drop {t : Text} {i : Nat} {c : Byte} {rest : Chars}
    (ht : t.bytes.drop i = c :: rest) : t.get i = c ∧ t.bytes.drop (i + 1) = rest := by
  have hin : i < t.bytes.length := by
    rw [← Nat.not_le, ← List.drop_eq_nil_iff, ht]
    exact List.cons_ne_nil c rest
  rw [List.drop_eq_getElem_cons hin] at ht
  obtain ⟨hc, hrest⟩ := List.cons.inj ht
  exact ⟨by rw [Text.get, List.getD_eq_getElem _ _ hin, hc], hrest⟩

/-- The loop of `write_memory_binary` undoes the escapes. -/
theorem writeMemoryLoop_eq (h : Host) {t : Text} {content : Nat} {d : List Byte} {rest : Chars}
    (ht : t.bytes.drop content = d.flatMap escaped ++ rest) (mem : MemoryData) (address : Word) :
    Gdb.writeMemoryLoop h t d.length mem address content = writeBytes h mem address d := by
  induction d generalizing content mem address with
  | nil => rfl
  | cons c d ih =>
    rw [List.flatMap_cons, List.append_assoc] at ht
    rw [List.length_cons, Gdb.writeMemoryLoop, writeBytes]
    by_cases hc : c = ascii '#' ∨ c = ascii '$' ∨ c = ascii '}'
    · rw [escaped, if_pos hc] at ht
      obtain ⟨hfirst, ht⟩ := Text.get_of_drop ht
      obtain ⟨hsecond, ht⟩ := Text.get_of_drop ht
      have hback : (c ^^^ 0x20) ^^^ 0x20 = c := by
        rw [BitVec.xor_assoc, BitVec.xor_self, BitVec.xor_zero]
      simp only [hfirst, if_true, hsecond, hback, ih ht]
    · rw [escaped, if_neg hc] at ht
      obtain ⟨hfirst, ht⟩ := Text.get_of_drop ht
      have hplain : c ≠ 0x7d := fun heq => hc (Or.inr (Or.inr heq))
      simp only [hfirst, if_neg hplain, ih ht]

/-! ## Bytes on any host -/

/-- The byte a memory keeps for a byte, and gives back for one it keeps. -/
def storedByte (h : Host) (be : Bool) (c : Byte) : Byte :=
  if !be then u8 (reverseEndianess h (u32 c) 8) else c

section
variable (h : Host) (mem : MemoryData) (address : Word)

theorem storedByte_of {be : Bool} (hhost : h.bigEndian = false ∨ be = true) (c : Byte) :
    storedByte h be c = c := by
  rcases hhost with hle | rfl
  · rw [storedByte, reverseEndianess_byte h hle, ite_self]
  · rfl

theorem storedByte_lost (hbe : h.bigEndian = true) (c : Byte) : storedByte h false c = 0 :=
  reverseEndianess_byte_lost h hbe c

theorem memoryWriteByte_eq (c : Byte) :
    memoryWriteByte h mem address c =
      if address.toNat / 4 ≤ mem.size then (0, mem.set address (storedByte h mem.isBigEndian c))
      else (-1, mem) := by
  rw [memoryWriteByte]
  by_cases hacc : address.toNat / 4 ≤ mem.size
  · rw [if_neg (by omega), if_pos hacc]
    rfl
  · rw [if_pos (by omega), if_neg hacc]

theorem memoryReadByte_eq (value : Byte) :
    memoryReadByte h mem address value =
      if address.toNat / 4 ≤ mem.size then
        (0, storedByte h mem.isBigEndian (mem.memo address))
      else (-1, value) := by
  rw [memoryReadByte]
  by_cases hacc : address.toNat / 4 ≤ mem.size
  · rw [if_neg (by omega), if_pos hacc]
    rfl
  · rw [if_pos (by omega), if_neg hacc]

end

/-- The test of the access functions for all of `n` addresses. -/
def AcceptsSpan (size : Nat) (address : Word) (n : Nat) : Prop :=
  ∀ i ∈ span address n, i.toNat / 4 ≤ size

section
variable (h : Host) {mem : MemoryData} {address : Word}

theorem acceptsSpan_succ {size n : Nat} :
    AcceptsSpan size address (n + 1) ↔
      address.toNat / 4 ≤ size ∧ AcceptsSpan size (address + 1) n := by
  rw [AcceptsSpan, span_succ, List.forall_mem_cons]
  rfl

theorem writeBytes_accepted (c : Byte) (d : List Byte) (hacc : address.toNat / 4 ≤ mem.size) :
    writeBytes h mem address (c :: d) =
      writeBytes h (mem.set address (storedByte h mem.isBigEndian c)) (address + 1) d := by
  rw [writeBytes, memoryWriteByte_eq, if_pos hacc]
  rfl

theorem writeBytes_refused (c : Byte) (d : List Byte) (hacc : ¬ address.toNat / 4 ≤ mem.size) :
    writeBytes h mem address (c :: d) = (mem, false) := by
  rw [writeBytes, memoryWriteByte_eq, if_neg hacc]
  rfl

theorem writeBytes_ok_iff (d : List Byte) :
    (writeBytes h mem address d).2 = true ↔ AcceptsSpan mem.size address d.length := by
  induction d generalizing mem address with
  | nil =>
    refine iff_of_true rfl ?_
    intro i hi
    exact absurd hi List.not_mem_nil
  | cons c d ih =>
    rw [List.length_cons, acceptsSpan_succ]
    by_cases hacc : address.toNat / 4 ≤ mem.size
    · rw [writeBytes_accepted h c d hacc, ih, and_iff_right hacc]
      rfl
    · rw [writeBytes_refused h c d hacc]
      refine iff_of_false Bool.false_ne_true ?_
      intro hall
      exact hacc hall.1

theorem writeBytes_eq (d : List Byte) (hall : AcceptsSpan mem.size address d.length) :
    (writeBytes h mem address d).1 = mem.withMemo (writeAll mem.memo
      ((span address d.length).zip (d.map (storedByte h mem.isBigEndian)))) := by
  induction d generalizing mem address with
  | nil => rfl
  | cons c d ih =>
    obtain ⟨hacc, hrest⟩ := acceptsSpan_succ.mp hall
    have hsame : (mem.set address (storedByte h mem.isBigEndian c)).size = mem.size := rfl
    rw [← hsame] at hrest
    rw [writeBytes_accepted h c d hacc, ih hrest, List.length_cons, span_succ]
    rfl

theorem memo_writeBytes {d : List Byte} (hn : d.length ≤ 2 ^ 32)
    (hacc : AcceptsSpan mem.size address d.length) :
    (span address d.length).map (writeBytes h mem address d).1.memo =
        d.map (storedByte h mem.isBigEndian) ∧
      ∀ i ∉ span address d.length, (writeBytes h mem address d).1.memo i = mem.memo i := by
  rw [writeBytes_eq h d hacc]
  constructor
  · apply map_writeAll_zip (nodup_span address hn)
    simp
  · intro i hi
    refine (writeAll_apply _ _ i).trans ?_
    rw [lastWrite_eq_none.mpr, Option.getD_none]
    rintro w hw rfl
    exact hi (List.of_mem_zip hw).1

theorem size_writeBytes (d : List Byte) :
    (writeBytes h mem address d).1.size = mem.size ∧
      (writeBytes h mem address d).1.isBigEndian = mem.isBigEndian := by
  induction d generalizing mem address with
  | nil => exact ⟨rfl, rfl⟩
  | cons c d ih =>
    by_cases hacc : address.toNat / 4 ≤ mem.size
    · rw [writeBytes_accepted h c d hacc]
      exact ih
    · rw [writeBytes_refused h c d hacc]
      exact ⟨rfl, rfl⟩

theorem readBytes_eq {n : Nat} (hacc : AcceptsSpan mem.size address n) (value : Byte) :
    Gdb.readBytes h mem n address value =
      (span address n).map fun i => storedByte h mem.isBigEndian (mem.memo i) := by
  induction n generalizing address value with
  | zero => rfl
  | succ n ih =>
    obtain ⟨hfirst, hrest⟩ := acceptsSpan_succ.mp hacc
    rw [Gdb.readBytes, memoryReadByte_eq, if_pos hfirst, span_succ, List.map_cons]
    simp only [ih hrest]
    rfl

/-- The last address the access functions take is the last byte of the word behind the buffer. -/
theorem acceptsSpan_iff {size n : Nat} (hpos : 0 < n) (hn : n ≤ 2 ^ 32) :
    AcceptsSpan size address n ↔
      address.toNat + n ≤ 4 * size + 4 ∨ 2 ^ 32 ≤ 4 * size + 4 := by
  have hlt := address.isLt
  have hplace : ∀ k < n, (address + BitVec.ofNat 32 k).toNat = (address.toNat + k) % 2 ^ 32 := by
    intro k hk
    rw [BitVec.toNat_add, BitVec.toNat_ofNat, Nat.add_mod_mod]
  have hall : AcceptsSpan size address n ↔ ∀ k < n, (address.toNat + k) % 2 ^ 32 / 4 ≤ size := by
    constructor
    · intro hacc k hk
      rw [← hplace k hk]
      exact hacc _ ((mem_span address).mpr ⟨k, hk, rfl⟩)
    · intro hacc i hi
      obtain ⟨k, hk, rfl⟩ := (mem_span address).mp hi
      rw [hplace k hk]
      exact hacc k hk
  rw [hall]
  constructor
  · intro hacc
    by_contra hnot
    -- the first address that is refused, or the start of the span
    by_cases hstart : address.toNat ≤ 4 * size + 4
    · have hlast := hacc (4 * size + 4 - address.toNat) (by omega)
      omega
    · have hfirst := hacc 0 hpos
      omega
  · intro hbound k hk
    rcases hbound with hbound | hbound
    · omega
    · omega

end

theorem map_storedByte_memo (h : Host) (be : Bool) (memo : Word → Byte) (l : List Word) :
    (l.map fun i => storedByte h be (memo i)) = (l.map memo).map (storedByte h be) := by
  rw [List.map_map]
  rfl

theorem map_storedByte_eq_iff (h : Host) (be : Bool) (d : List Byte) :
    d.map (storedByte h be) = d ↔ h.bigEndian = false ∨ be = true ∨ ∀ c ∈ d, c = 0 := by
  constructor
  · intro heq
    cases hbe : h.bigEndian with
    | false => exact Or.inl rfl
    | true =>
      cases be with
      | true => exact Or.inr (Or.inl rfl)
      | false =>
        refine Or.inr (Or.inr fun c hc => ?_)
        rw [← heq] at hc
        obtain ⟨c', -, rfl⟩ := List.mem_map.mp hc
        exact storedByte_lost h hbe c'
  · intro hhost
    rw [← or_assoc] at hhost
    rcases hhost with hhost | hzero
    · rw [List.map_congr_left fun c _ => storedByte_of h hhost c, List.map_id']
    · have hstored : storedByte h be 0 = 0 := by
        cases hbe : h.bigEndian with
        | false => exact storedByte_of h (Or.inl hbe) 0
        | true =>
          cases be with
          | true => rfl
          | false => exact storedByte_lost h hbe 0
      refine (List.map_congr_left fun c hc => ?_).trans (List.map_id' d)
      rw [hzero c hc, hstored]

/-! ## The packets -/

/-- The packet of an `X` request. -/
def WriteRequest (address : Word) (d : List Byte) (token : Chars) : Prop :=
  ∃ text, RequestText address d.length text ∧
    Carries token (ascii 'X' :: (text ++ ascii ':' :: d.flatMap escaped))

/-- The packet of an `m` request. -/
def ReadRequest (address : Word) (size : Nat) (token : Chars) : Prop :=
  ∃ text, RequestText address size text ∧ Carries token (ascii 'm' :: text)

/-- The memory after an `X` request, and whether the answer is `OK`. -/
def written (h : Host) (mem : MemoryData) (address : Word) (d : List Byte) : MemoryData × Bool :=
  if address.toNat < memoryGetSize mem then writeBytes h mem address d else (mem, false)

theorem length_le_escaped (d : List Byte) : d.length ≤ (d.flatMap escaped).length := by
  induction d with
  | nil => exact Nat.le_refl 0
  | cons c d ih =>
    have hc : 1 ≤ (escaped c).length := by
      rw [escaped]
      split <;> simp
    rw [List.flatMap_cons, List.length_append, List.length_cons]
    omega

theorem length_writeAnswer (writeOk : Bool) : (Gdb.writeAnswer writeOk).length ≤ 1019 := by
  cases writeOk <;> decide

section
variable (b : Build) (turns : Nat) {g : GdbProtocolData} {address : Word} {d : List Byte}
  {token : Chars} (beyond : Nat → Byte)

theorem WriteRequest.length_lt (hrequest : WriteRequest address d token)
    (hlength : token.length < 2 ^ 31) : d.length < 2 ^ 31 := by
  obtain ⟨text, -, x, y, -, -, -, rfl⟩ := hrequest
  have hle := length_le_escaped d
  simp only [length_packetToken, List.length_cons, List.length_append] at hlength
  omega

theorem receive_write (hrequest : WriteRequest address d token) (hsize : d.length < 2 ^ 32)
    (hopen : g.fd.shut = false) :
    ∃ g', receive b turns g token beyond = .ok g' ∧
      Answered g g' { g.arm with mem := (written b.host g.arm.mem address d).1 }
        (Gdb.writeAnswer (written b.host g.arm.mem address d).2) := by
  obtain ⟨text, htext, htoken⟩ := hrequest
  obtain ⟨t, more, ht, hreceive⟩ := receive_carried htoken beyond
  rw [List.append_assoc, List.cons_append] at ht
  have hindex := Text.index_eq ht htext.ne (by decide)
  have hcontent : t.bytes.drop (Gdb.content t 2) = d.flatMap escaped ++ 0 :: more := by
    rw [Gdb.content, hindex, Option.getD_some, Nat.add_assoc, ← List.drop_drop, ht,
      ← List.drop_drop, List.drop_left]
    rfl
  have hends : EndsNumber ((ascii ':' :: (d.flatMap escaped ++ 0 :: more)).takeWhile (· ≠ 0)) := by
    intro c hc
    rw [List.takeWhile_cons_of_pos (by decide)] at hc
    obtain rfl : ascii ':' = c := Option.some.inj hc
    decide
  have hrequest := request_of_text b htext hsize ht hends
  have hwritten : Gdb.writtenMemory b g t 2 = written b.host g.arm.mem address d := by
    rw [Gdb.writtenMemory, hrequest, written]
    dsimp only
    rw [BitVec.toNat_ofNat, Nat.mod_eq_of_lt hsize, writeMemoryLoop_eq b.host hcontent]
  have hanswers : GdbHandler.Answers b turns g t 2 .writeMemoryBinary := by
    refine Or.inl ?_
    rw [hindex]
    exact Option.some_ne_none _
  obtain ⟨g', hok, hanswered⟩ := hreceive b turns g .writeMemoryBinary hopen (by decide) (by decide)
    hanswers (length_writeAnswer _)
  refine ⟨g', hok, ?_⟩
  rw [← hwritten]
  exact hanswered

theorem receive_read {size : Nat} (hrequest : ReadRequest address size token)
    (hfits : 2 * size ≤ 1019) (hacc : AcceptsSpan g.arm.mem.size address size)
    (hopen : g.fd.shut = false) :
    ∃ g', receive b turns g token beyond = .ok g' ∧
      Answered g g' g.arm (((span address size).map fun i =>
        storedByte b.host g.arm.mem.isBigEndian (g.arm.mem.memo i)).flatMap twoDigits) := by
  obtain ⟨text, htext, htoken⟩ := hrequest
  obtain ⟨t, more, ht, hreceive⟩ := receive_carried htoken beyond
  have hends : EndsNumber ((0 :: more).takeWhile (· ≠ 0)) := by
    rw [List.takeWhile_cons_of_neg (by decide)]
    exact endsNumber_nil
  have hrequest := request_of_text b htext (by omega) ht hends
  have hbytes : Gdb.requestedBytes b g t 2 = (span address size).map fun i =>
      storedByte b.host g.arm.mem.isBigEndian (g.arm.mem.memo i) := by
    rw [Gdb.requestedBytes, hrequest]
    dsimp only
    rw [BitVec.toNat_ofNat, Nat.mod_eq_of_lt (by omega), readBytes_eq b.host hacc]
  have hanswer : GdbHandler.answer b turns g t 2 .readMemory = ((span address size).map fun i =>
      storedByte b.host g.arm.mem.isBigEndian (g.arm.mem.memo i)).flatMap twoDigits := by
    rw [GdbHandler.answer, hbytes, List.flatMap_def]
  have hlength : (GdbHandler.answer b turns g t 2 .readMemory).length ≤ 1019 := by
    rw [hanswer, length_fields length_twoDigits, List.length_map, length_span]
    exact hfits
  obtain ⟨g', hok, hanswered⟩ := hreceive b turns g .readMemory hopen (by decide) (by decide)
    trivial hlength
  refine ⟨g', hok, ?_⟩
  rw [← hanswer]
  exact hanswered

end

/-! ## The round trip -/

/-- The bytes at some address, which has 32 bits. -/
def KeepsBytes (mem : MemoryData) (address : Word) (d : List Byte) : Prop :=
  address.toNat + d.length ≤ 2 ^ 32 ∧ (span address d.length).map mem.memo = d

/-- The last packet was answered by a text. -/
def Replies (g g' : GdbProtocolData) (answer : Chars) : Prop :=
  g'.fd.sent = g.fd.sent ++ [ofString "+", frame answer]

theorem Answered.replies {g g' : GdbProtocolData} {arm : ArmCoreData} {answer : Chars}
    (hanswered : Answered g g' arm answer) : Replies g g' answer := by
  rw [Replies, hanswered.fd]

theorem Replies.unique {g g' : GdbProtocolData} {answer answer' : Chars}
    (hreplies : Replies g g' answer) (hreplies' : Replies g g' answer') : answer = answer' := by
  have hsent := List.append_cancel_left (hreplies.symm.trans hreplies')
  simp only [List.cons.injEq, and_true, true_and] at hsent
  exact frame_injective hsent

/-- An `X` request is answered by `OK` exactly if its bytes lie in the memory, where they are found
then, also by an `m` request, with the other bytes as they were. -/
def MemoryRoundTrip (b : Build) (turns : Nat) (g : GdbProtocolData) (address : Word) (d : List Byte)
    (write : Chars) (beyond : Nat → Byte) : Prop :=
  ∃ g', receive b turns g write beyond = .ok g' ∧
    if address.toNat + d.length ≤ 4 * g.arm.mem.size then
      Replies g g' (ofString "OK") ∧ KeepsBytes g'.arm.mem address d ∧
      (∀ i ∉ span address d.length, g'.arm.mem.memo i = g.arm.mem.memo i) ∧
      (2 * d.length ≤ 1019 → ∀ read beyond', ReadRequest address d.length read →
        ∃ g'', receive b turns g' read beyond' = .ok g'' ∧ Replies g' g'' (d.flatMap twoDigits))
    else Replies g g' (ofString "E02")

/-- The bytes lie in the memory, start in its first quarter and are not lost, or they lie outside and
the writer notices. -/
def Writable (h : Host) (mem : MemoryData) (address : Word) (d : List Byte) : Prop :=
  if address.toNat < mem.size then
    (address.toNat + d.length ≤ 4 * mem.size ∧ address.toNat + d.length ≤ 2 ^ 32 ∧
      (h.bigEndian = false ∨ mem.isBigEndian = true ∨ ∀ c ∈ d, c = 0)) ∨
    (4 * mem.size + 4 < address.toNat + d.length ∧ 4 * mem.size + 4 < 2 ^ 32)
  else 4 * mem.size < address.toNat + d.length

section
variable (b : Build) (turns : Nat) {g : GdbProtocolData} {address : Word} {d : List Byte}
  {write : Chars} (beyond : Nat → Byte)

theorem exists_ok_iff {ε α : Type} {r : Except ε α} {x : α} (hok : r = .ok x) {P : α → Prop} :
    (∃ y, r = .ok y ∧ P y) ↔ P x := by
  rw [hok]
  constructor
  · rintro ⟨y, heq, hP⟩
    rwa [Except.ok.inj heq]
  · exact fun hP => ⟨x, rfl, hP⟩

theorem replies_written {g' : GdbProtocolData}
    (hanswered : Answered g g' { g.arm with mem := (written b.host g.arm.mem address d).1 }
      (Gdb.writeAnswer (written b.host g.arm.mem address d).2)) :
    (Replies g g' (ofString "OK") ↔
      address.toNat < g.arm.mem.size ∧ AcceptsSpan g.arm.mem.size address d.length) ∧
    (Replies g g' (ofString "E02") ↔
      ¬ (address.toNat < g.arm.mem.size ∧ AcceptsSpan g.arm.mem.size address d.length)) := by
  have hok : (written b.host g.arm.mem address d).2 = true ↔
      address.toNat < g.arm.mem.size ∧ AcceptsSpan g.arm.mem.size address d.length := by
    rw [written, memoryGetSize]
    by_cases hquarter : address.toNat < g.arm.mem.size
    · rw [if_pos hquarter, writeBytes_ok_iff, and_iff_right hquarter]
    · rw [if_neg hquarter]
      refine iff_of_false Bool.false_ne_true ?_
      intro hboth
      exact hquarter hboth.1
  have hreplies := hanswered.replies
  rw [← hok]
  cases hresult : (written b.host g.arm.mem address d).2 with
  | true =>
    rw [hresult] at hreplies
    refine ⟨iff_of_true hreplies rfl, iff_of_false ?_ (not_not_intro rfl)⟩
    intro herror
    exact absurd (hreplies.unique herror) (by decide)
  | false =>
    rw [hresult] at hreplies
    refine ⟨iff_of_false ?_ Bool.false_ne_true, iff_of_true hreplies Bool.false_ne_true⟩
    intro hfine
    exact absurd (hreplies.unique hfine) (by decide)

theorem roundTrip_inside (hopen : g.fd.shut = false) {g' : GdbProtocolData}
    (hanswered : Answered g g' { g.arm with mem := (written b.host g.arm.mem address d).1 }
      (Gdb.writeAnswer (written b.host g.arm.mem address d).2))
    (hquarter : address.toNat < g.arm.mem.size) (hpos : 0 < d.length) (hn : d.length ≤ 2 ^ 32)
    (hinside : address.toNat + d.length ≤ 4 * g.arm.mem.size) :
    (Replies g g' (ofString "OK") ∧ KeepsBytes g'.arm.mem address d ∧
      (∀ i ∉ span address d.length, g'.arm.mem.memo i = g.arm.mem.memo i) ∧
      (2 * d.length ≤ 1019 → ∀ read beyond', ReadRequest address d.length read →
        ∃ g'', receive b turns g' read beyond' = .ok g'' ∧ Replies g' g'' (d.flatMap twoDigits))) ↔
    address.toNat + d.length ≤ 2 ^ 32 ∧
      (b.host.bigEndian = false ∨ g.arm.mem.isBigEndian = true ∨ ∀ c ∈ d, c = 0) := by
  have hacc : AcceptsSpan g.arm.mem.size address d.length :=
    (acceptsSpan_iff hpos hn).mpr (Or.inl (by omega))
  have hwritten : written b.host g.arm.mem address d =
      ((writeBytes b.host g.arm.mem address d).1, true) := by
    rw [written, memoryGetSize, if_pos hquarter]
    exact Prod.ext rfl ((writeBytes_ok_iff b.host d).mpr hacc)
  rw [hwritten] at hanswered
  obtain ⟨hbytes, hothers⟩ := memo_writeBytes b.host hn hacc
  obtain ⟨hsize, hbe⟩ := @size_writeBytes b.host g.arm.mem address d
  have hmem : g'.arm.mem = (writeBytes b.host g.arm.mem address d).1 := by
    rw [hanswered.arm]
  rw [← map_storedByte_eq_iff]
  constructor
  · rintro ⟨-, ⟨hbound, hkeeps⟩, -⟩
    rw [hmem, hbytes] at hkeeps
    exact ⟨hbound, hkeeps⟩
  · rintro ⟨hbound, hstored⟩
    have hkeeps : (span address d.length).map g'.arm.mem.memo = d := by
      rw [hmem, hbytes, hstored]
    refine ⟨hanswered.replies, ⟨hbound, hkeeps⟩, ?_, ?_⟩
    · rw [hmem]
      exact hothers
    · intro hfits read beyond' hread
      have hopen' : g'.fd.shut = false := by
        rw [hanswered.fd]
        exact hopen
      have hacc' : AcceptsSpan g'.arm.mem.size address d.length := by
        rwa [hmem, hsize]
      obtain ⟨g'', hok, hanswered'⟩ := receive_read b turns beyond' hread hfits hacc' hopen'
      refine ⟨g'', hok, ?_⟩
      rw [map_storedByte_memo, hkeeps, hmem, hbe, hstored] at hanswered'
      exact hanswered'.replies

/-- **Memory**: an `X` request makes the round trip exactly if its bytes lie in the memory and start
in the first quarter, or lie outside by more than the word behind the memory. -/
theorem memory_round_trip_iff (b : Build) (turns : Nat) (g : GdbProtocolData) (address : Word)
    (d : List Byte) (write : Chars) (beyond : Nat → Byte) (hpos : 0 < d.length)
    (hrequest : WriteRequest address d write) (hlength : write.length < 2 ^ 31)
    (hopen : g.fd.shut = false) :
    MemoryRoundTrip b turns g address d write beyond ↔ Writable b.host g.arm.mem address d := by
  have hn := hrequest.length_lt hlength
  obtain ⟨g', hok, hanswered⟩ := receive_write b turns beyond hrequest (by omega) hopen
  obtain ⟨hfine, herror⟩ := replies_written b hanswered
  have hbound : AcceptsSpan g.arm.mem.size address d.length ↔ _ := acceptsSpan_iff hpos (by omega)
  rw [MemoryRoundTrip, exists_ok_iff hok, Writable]
  by_cases hinside : address.toNat + d.length ≤ 4 * g.arm.mem.size
  · rw [if_pos hinside]
    by_cases hquarter : address.toNat < g.arm.mem.size
    · have hnear : ¬ (4 * g.arm.mem.size + 4 < address.toNat + d.length ∧
          4 * g.arm.mem.size + 4 < 2 ^ 32) := by omega
      rw [if_pos hquarter, or_iff_left hnear, and_iff_right hinside]
      exact roundTrip_inside b turns hopen hanswered hquarter hpos (by omega) hinside
    · -- the bytes are in the memory, and the writer refuses their address
      rw [if_neg hquarter]
      refine iff_of_false ?_ (by omega)
      intro hround
      exact hquarter (hfine.mp hround.1).1
  · rw [if_neg hinside, herror, hbound]
    by_cases hquarter : address.toNat < g.arm.mem.size
    · rw [if_pos hquarter]
      omega
    · rw [if_neg hquarter]
      refine iff_of_true ?_ (by omega)
      intro hboth
      exact hquarter hboth.1

end

theorem requestText_digits (address : Word) (n : Nat) (digit count : Byte)
    (hhex : hexValue digit ≠ none ∧ hexValue count ≠ none)
    (haddress : hexNumber [digit] = address.toNat) (hn : hexNumber [count] = n) :
    RequestText address n [digit, ascii ',', count] :=
  ⟨[digit], [count], List.forall_mem_singleton.mpr hhex.1, List.cons_ne_nil _ _,
    List.forall_mem_singleton.mpr hhex.2, List.cons_ne_nil _ _, haddress, hn, rfl⟩

theorem writeRequest_digits (address : Word) (d : List Byte) (digit count : Byte)
    (hhex : hexValue digit ≠ none ∧ hexValue count ≠ none)
    (haddress : hexNumber [digit] = address.toNat) (hlength : hexNumber [count] = d.length) :
    WriteRequest address d
      (frame (ascii 'X' :: ([digit, ascii ',', count] ++ ascii ':' :: d.flatMap escaped))) :=
  ⟨_, requestText_digits address d.length digit count hhex haddress hlength, carries_frame _⟩

/-- `a`, `#` and `}` are written to the start of a memory of one word, the last two escaped. -/
theorem memory_round_trip_iff_escaped :
    MemoryRoundTrip .x86 0 (gdbAt 0) 0 [0x61, 0x23, 0x7d]
      (frame (ofString "X0,3:a\x7d\x03\x7d]")) fun _ => 0 :=
  (memory_round_trip_iff .x86 0 (gdbAt 0) 0 [0x61, 0x23, 0x7d] _ _ (by decide)
    (writeRequest_digits 0 _ (ascii '0') (ascii '3') (by decide) (by decide) (by decide))
    (by decide) rfl).mpr (by unfold Writable; decide)

/-- Byte 1 of a memory of one word cannot be written. -/
theorem memory_round_trip_iff_second :
    ¬ MemoryRoundTrip .x86 0 (gdbAt 0) 1 [0x61] (frame (ofString "X1,1:a")) fun _ => 0 := by
  rintro ⟨g', hok, hanswer⟩
  obtain ⟨g1, hok1, hanswered⟩ := receive_write .x86 0 (fun _ => 0) (g := gdbAt 0)
    (writeRequest_digits 1 [0x61] (ascii '1') (ascii '1') (by decide) (by decide) (by decide))
    (by decide) rfl
  obtain rfl : g1 = g' := Except.ok.inj (hok1.symm.trans hok)
  rw [if_pos (by decide)] at hanswer
  exact absurd ((replies_written .x86 hanswered).1.mp hanswer.1).1 (by decide)

end Armator
