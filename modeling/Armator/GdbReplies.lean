import Armator.GdbProtocol
import Armator.Lib.Packet

/-!
# Replies

Every handler but `kill_request` builds one text in `packet` and sends it as one frame. `Spells` is
a text in a buffer, `store` and `storeAll` write texts (`spells_store`, `spells_storeAll`), and
`gdbSendBuffer_of_spells` is what becomes of the text: a reply (`Replied`) if it fits the buffer.
-/

namespace Armator

open CString Packet

/-! ## Texts in a buffer -/

/-- The bytes from `i` on are a text. -/
def Spells (packet : Nat → Byte) : Nat → Chars → Prop
  | _, [] => True
  | i, c :: s => packet i = c ∧ Spells packet (i + 1) s

section
variable {packet packet' : Nat → Byte} {i : Nat} {s s' : Chars}

theorem Spells.append :
    Spells packet i (s ++ s') ↔ Spells packet i s ∧ Spells packet (i + s.length) s' := by
  induction s generalizing i with
  | nil => exact ⟨fun h => ⟨trivial, h⟩, fun h => h.2⟩
  | cons c s ih =>
    have hshift : i + 1 + s.length = i + (c :: s).length := by
      rw [List.length_cons]
      omega
    rw [List.cons_append, Spells, Spells, ih, hshift, and_assoc]

theorem Spells.congr (hs : Spells packet i s)
    (hsame : ∀ j, i ≤ j → j < i + s.length → packet' j = packet j) : Spells packet' i s := by
  induction s generalizing i with
  | nil => trivial
  | cons c s ih =>
    rw [List.length_cons] at hsame
    obtain ⟨hc, hrest⟩ := hs
    refine ⟨?_, ih hrest fun j hj hlt => hsame j (by omega) (by omega)⟩
    rw [hsame i (le_refl i) (by omega), hc]

theorem Spells.of_getD (hs : ∀ j < s.length, packet (i + j) = s.getD j 0) : Spells packet i s := by
  induction s generalizing i with
  | nil => trivial
  | cons c s ih =>
    refine ⟨hs 0 (Nat.succ_pos _), ih fun j hj => ?_⟩
    have hnext := hs (j + 1) (Nat.succ_lt_succ hj)
    rwa [List.getD_cons_succ, Nat.add_comm j 1, ← Nat.add_assoc] at hnext

theorem Spells.map_range' (hs : Spells packet i s) :
    (List.range' i s.length).map packet = s := by
  induction s generalizing i with
  | nil => rfl
  | cons c s ih =>
    rw [List.length_cons, List.range'_succ, List.map_cons, hs.1, ih hs.2]

theorem sumPacket_of_spells (hs : Spells packet i (s ++ [0])) (hnul : ∀ c ∈ s, c ≠ 0) (check : Byte)
    {n : Nat} (hn : s.length < n) :
    sumPacket packet n i check = some (i + s.length, check + checksum s) := by
  induction s generalizing i n check with
  | nil =>
    obtain ⟨n, rfl⟩ := Nat.exists_eq_add_of_lt hn
    have hend : ¬ packet i ≠ 0 := not_not_intro hs.1
    have hzero : check + 0 = check := BitVec.add_zero check
    rw [sumPacket, if_neg hend, checksum_nil, hzero]
    rfl
  | cons c s ih =>
    obtain ⟨m, rfl⟩ : ∃ m, n = m + 1 := ⟨n - 1, by omega⟩
    obtain ⟨hc, hrest⟩ := hs
    have hne : packet i ≠ 0 := by
      rw [hc]
      exact hnul c List.mem_cons_self
    rw [List.length_cons] at hn
    rw [sumPacket, if_pos hne, ih hrest (fun c' hc' => hnul c' (List.mem_cons_of_mem c hc')) _
      (by omega), hc, checksum_cons, List.length_cons, BitVec.add_assoc]
    congr 2
    omega

theorem sumPacket_of_long (hs : Spells packet i s) (hnul : ∀ c ∈ s, c ≠ 0) (check : Byte)
    {n : Nat} (hn : n ≤ s.length) : sumPacket packet n i check = none := by
  induction s generalizing i n check with
  | nil =>
    rw [Nat.le_zero.mp hn]
    rfl
  | cons c s ih =>
    cases n with
    | zero => rfl
    | succ n =>
      obtain ⟨hc, hrest⟩ := hs
      have hne : packet i ≠ 0 := by
        rw [hc]
        exact hnul c List.mem_cons_self
      rw [sumPacket, if_pos hne]
      exact ih hrest (fun c' hc' => hnul c' (List.mem_cons_of_mem c hc')) _
        (Nat.le_of_succ_le_succ hn)

end

/-! ## Storing -/

section
variable (packet : Nat → Byte) (position : Nat)

theorem store_of_fits {s : Chars} (hfits : position + s.length < maxPacketSize) :
    ∃ packet', store packet position s = .ok packet' ∧ Spells packet' position (s ++ [0]) ∧
      ∀ j, j < position ∨ position + s.length < j → packet' j = packet j := by
  rw [store, if_neg (by omega)]
  refine ⟨_, rfl, Spells.append.mpr ⟨Spells.of_getD fun j hj => ?_, ?_, trivial⟩, fun j hj => ?_⟩
  · rw [if_pos (by omega), Nat.add_sub_cancel_left]
  · dsimp only
    rw [if_neg (by omega), if_pos rfl]
  · rw [if_neg (by omega), if_neg (by omega)]

theorem store_of_not_fits {s : Chars} (hlong : maxPacketSize ≤ position + s.length) :
    store packet position s = .error .overflow := by
  rw [store, if_pos hlong]

theorem storeAll_of_fits {texts : List Chars} (hne : texts ≠ [])
    (hfits : position + texts.flatten.length < maxPacketSize) :
    ∃ packet', storeAll packet position texts = .ok packet' ∧
      Spells packet' position (texts.flatten ++ [0]) ∧ ∀ j < position, packet' j = packet j := by
  induction texts generalizing packet position with
  | nil => exact absurd rfl hne
  | cons s texts ih =>
    rw [List.flatten_cons, List.length_append] at hfits
    obtain ⟨packet1, hok, hspells, hsame⟩ :=
      store_of_fits packet position (s := s) (by omega)
    rw [storeAll, hok]
    by_cases hlast : texts = []
    · subst hlast
      exact ⟨packet1, rfl, by rwa [List.flatten_singleton], fun j hj => hsame j (Or.inl hj)⟩
    · obtain ⟨packet2, hok2, hspells2, hsame2⟩ := ih packet1 (position + s.length) hlast (by omega)
      refine ⟨packet2, hok2, ?_, fun j hj => ?_⟩
      · rw [List.flatten_cons, List.append_assoc]
        refine Spells.append.mpr ⟨(Spells.append.mp hspells).1.congr fun j _ hj => ?_, hspells2⟩
        exact hsame2 j hj
      · rw [hsame2 j (by omega), hsame j (Or.inl hj)]

theorem storeAll_of_not_fits {texts : List Chars} (hne : texts ≠ [])
    (hlong : maxPacketSize ≤ position + texts.flatten.length) :
    storeAll packet position texts = .error .overflow := by
  induction texts generalizing packet position with
  | nil => exact absurd rfl hne
  | cons s texts ih =>
    rw [List.flatten_cons, List.length_append] at hlong
    by_cases hs : maxPacketSize ≤ position + s.length
    · rw [storeAll, store_of_not_fits packet position hs]
      rfl
    · obtain ⟨packet1, hok, -, -⟩ := store_of_fits packet position (s := s) (by omega)
      rw [storeAll, hok]
      refine ih packet1 (position + s.length) ?_ (by omega)
      rintro rfl
      rw [List.flatten_nil, List.length_nil] at hlong
      omega

end

/-! ## Sending -/

/-- No byte of a reply ends a text or delimits a packet. -/
def IsReply (payload : Chars) : Prop := IsPayload payload ∧ ∀ c ∈ payload, c ≠ 0

/-- The frame of `payload` has been sent, and is the packet stored. -/
structure Replied (g g' : GdbProtocolData) (payload : Chars) : Prop where
  arm : g'.arm = g.arm
  targetException : g'.targetException = g.targetException
  fd : g'.fd = { g.fd with sent := g.fd.sent ++ [frame payload] }
  stored : (List.range g'.len).map g'.packet = frame payload

/-- What becomes of a reply: it does not fit, it cannot be sent, or it is sent. -/
def Sends (g : GdbProtocolData) (payload : Chars) (r : Except Fault GdbProtocolData) : Prop :=
  if maxPacketSize < payload.length + 5 then r = .error .overflow
  else if g.fd.shut then r = .error .disconnected
  else ∃ g', r = .ok g' ∧ Replied g g' payload

section
variable {g : GdbProtocolData} {payload : Chars}

theorem Sends.of_packet {packet : Nat → Byte} {len : Nat} {r : Except Fault GdbProtocolData}
    (hsends : Sends { g with packet := packet, len := len } payload r) : Sends g payload r := by
  have hreplied : ∀ g', Replied { g with packet := packet, len := len } g' payload →
      Replied g g' payload := fun _ h => ⟨h.arm, h.targetException, h.fd, h.stored⟩
  unfold Sends at hsends ⊢
  split
  · next hlong => rwa [if_pos hlong] at hsends
  · next hfits =>
    rw [if_neg hfits] at hsends
    split
    · next hshut => rwa [if_pos hshut] at hsends
    · next hopen =>
      rw [if_neg hopen] at hsends
      obtain ⟨g', hok, hg'⟩ := hsends
      exact ⟨g', hok, hreplied g' hg'⟩

theorem Sends.replied {r : Except Fault GdbProtocolData} (hsends : Sends g payload r)
    {g' : GdbProtocolData} (hok : r = .ok g') :
    payload.length ≤ 1019 ∧ g.fd.shut = false ∧ Replied g g' payload := by
  unfold Sends at hsends
  subst hok
  split at hsends
  · cases hsends
  · next hfits =>
    split at hsends
    · cases hsends
    · next hopen =>
      obtain ⟨g1, heq, hreplied⟩ := hsends
      cases heq
      rw [maxPacketSize] at hfits
      exact ⟨by omega, Bool.not_eq_true _ ▸ hopen, hreplied⟩

theorem Sends.ok {r : Except Fault GdbProtocolData} (hsends : Sends g payload r)
    (hlen : payload.length ≤ 1019) (hopen : g.fd.shut = false) :
    ∃ g', r = .ok g' ∧ Replied g g' payload := by
  have hfits : ¬ maxPacketSize < payload.length + 5 := by
    rw [maxPacketSize]
    omega
  rwa [Sends, if_neg hfits, hopen, if_neg Bool.false_ne_true] at hsends

theorem Sends.no_abort {r : Except Fault GdbProtocolData} (hsends : Sends g payload r) :
    r ≠ .error .assertion ∧ r ≠ .error .nullPointer := by
  unfold Sends at hsends
  split at hsends
  · rw [hsends]
    exact ⟨nofun, nofun⟩
  · split at hsends
    · rw [hsends]
      exact ⟨nofun, nofun⟩
    · obtain ⟨g', hok, -⟩ := hsends
      rw [hok]
      exact ⟨nofun, nofun⟩

theorem Sends.overflow_iff {r : Except Fault GdbProtocolData} (hsends : Sends g payload r) :
    r = .error .overflow ↔ maxPacketSize < payload.length + 5 := by
  unfold Sends at hsends
  by_cases hlong : maxPacketSize < payload.length + 5
  · rw [if_pos hlong] at hsends
    exact iff_of_true hsends hlong
  · rw [if_neg hlong] at hsends
    refine iff_of_false ?_ hlong
    rintro rfl
    split at hsends
    · cases hsends
    · obtain ⟨g', heq, -⟩ := hsends
      cases heq

theorem spells_frame {packet packet' : Nat → Byte}
    (htext : Spells (Function.update packet 0 (ascii '$')) 1 payload)
    (hdigits : Spells packet' (1 + payload.length + 1) (twoDigits (checksum payload)))
    (hsame : ∀ j < 1 + payload.length + 1, packet' j =
      Function.update (Function.update packet 0 (ascii '$')) (1 + payload.length) (ascii '#') j) :
    Spells (Function.update packet' (1 + payload.length + 3) 0) 0 (frame payload) := by
  have hkept : ∀ j < 1 + payload.length + 3,
      Function.update packet' (1 + payload.length + 3) 0 j = packet' j :=
    fun j hj => Function.update_of_ne (Nat.ne_of_lt hj) _ _
  rw [frame, List.cons_append]
  refine ⟨?_, Spells.append.mpr ⟨htext.congr fun j hj hlt => ?_, ?_, hdigits.congr fun j hj hlt => ?_⟩⟩
  · rw [hkept 0 (by omega), hsame 0 (by omega), Function.update_of_ne (by omega),
      Function.update_self]
  · rw [hkept j (by omega), hsame j (by omega), Function.update_of_ne (by omega)]
  · rw [hkept _ (by omega), hsame _ (by omega), Nat.zero_add, Function.update_self]
  · rw [length_twoDigits] at hlt
    exact hkept j (by omega)

theorem sends_gdbTransmitPacket (hlen : g.len = payload.length + 4)
    (hspells : Spells g.packet 0 (frame payload)) (hfits : ¬ maxPacketSize < payload.length + 5) :
    Sends g payload (gdbTransmitPacket g) := by
  have hbytes : (List.range g.len).map g.packet = frame payload := by
    rw [← hspells.map_range', length_frame, ← hlen, ← List.range_eq_range']
  have hne : frame payload ≠ [] := List.cons_ne_nil _ _
  rw [Sends, if_neg hfits, gdbTransmitPacket, hbytes, rioWriten, if_neg hne]
  by_cases hshut : g.fd.shut = true
  · rw [if_pos hshut, if_pos hshut]
    rfl
  · rw [if_neg hshut, if_neg hshut]
    exact ⟨_, rfl, rfl, rfl, rfl, hbytes⟩

theorem sends_gdbSendBuffer (hreply : IsReply payload)
    (hspells : Spells g.packet buffer (payload ++ [0])) : Sends g payload (gdbSendBuffer g) := by
  have hstart : Spells (Function.update g.packet 0 (ascii '$')) 1 (payload ++ [0]) :=
    hspells.congr fun j hj _ => Function.update_of_ne (Nat.ne_of_gt hj) _ _
  have htext := (Spells.append.mp hstart).1
  rw [gdbSendBuffer]
  by_cases hshort : payload.length < maxPacketSize - 1
  · have hzero : (0 : Byte) + checksum payload = checksum payload := BitVec.zero_add _
    simp only [sumPacket_of_spells hstart hreply.2 0 hshort, hzero]
    by_cases hlong : maxPacketSize < payload.length + 5
    · rw [Sends, if_pos hlong, store_of_not_fits _ _ (by rw [length_twoDigits]; omega)]
      rfl
    · obtain ⟨packet, hok, hdigits, hsame⟩ := store_of_fits
        (Function.update (Function.update g.packet 0 (ascii '$')) (1 + payload.length) (ascii '#'))
        (1 + payload.length + 1) (s := twoDigits (checksum payload))
        (by rw [length_twoDigits]; omega)
      rw [length_twoDigits] at hsame
      rw [hok]
      have hlen : 1 + payload.length + 3 = payload.length + 4 := by omega
      exact Sends.of_packet (sends_gdbTransmitPacket hlen
        (spells_frame htext (Spells.append.mp hdigits).1 fun j hj => hsame j (Or.inl hj)) hlong)
  · rw [sumPacket_of_long htext hreply.2 0 (Nat.le_of_not_lt hshort), Sends, if_pos (by omega)]

theorem sends_storeAll {packet : Nat → Byte} {texts : List Chars} (hne : texts ≠ [])
    (hreply : IsReply texts.flatten) :
    Sends g texts.flatten (do
      let packet ← storeAll packet buffer texts
      gdbSendBuffer { g with packet := packet }) := by
  by_cases hfits : buffer + texts.flatten.length < maxPacketSize
  · obtain ⟨packet', hok, hspells, -⟩ := storeAll_of_fits packet buffer hne hfits
    rw [hok]
    exact Sends.of_packet (sends_gdbSendBuffer (g := { g with packet := packet' }) hreply hspells)
  · have hlong : maxPacketSize ≤ buffer + texts.flatten.length := Nat.le_of_not_lt hfits
    rw [storeAll_of_not_fits _ _ hne hlong]
    rw [buffer] at hlong
    rw [Sends, if_pos (by omega)]
    rfl

theorem sends_gdbSendData (hreply : IsReply payload) : Sends g payload (gdbSendData g payload) := by
  have hone : storeAll g.packet buffer [payload] = store g.packet buffer payload := by
    rw [storeAll]
    cases store g.packet buffer payload <;> rfl
  rw [← List.flatten_singleton (l := payload)] at hreply
  have hsends : Sends g [payload].flatten (do
      let packet ← storeAll g.packet buffer [payload]
      gdbSendBuffer { g with packet := packet }) := sends_storeAll (by simp) hreply
  rwa [hone, List.flatten_singleton] at hsends

end

/-! ## The answers -/

/-- The digits and letters of the replies. -/
def isReplyChar (c : Byte) : Bool := c ≠ 0 ∧ c ≠ ascii '$' ∧ c ≠ ascii '#'

theorem isReply_iff (payload : Chars) : IsReply payload ↔ payload.all isReplyChar = true := by
  simp only [IsReply, IsPayload, List.all_eq_true, isReplyChar, decide_eq_true_eq]
  constructor
  · rintro ⟨hpayload, hnul⟩ c hc
    exact ⟨hnul c hc, hpayload c hc⟩
  · intro hall
    exact ⟨fun c hc => (hall c hc).2, fun c hc => (hall c hc).1⟩

theorem isReply_flatten {texts : List Chars} (htexts : ∀ s ∈ texts, IsReply s) :
    IsReply texts.flatten := by
  rw [isReply_iff, List.all_flatten, List.all_eq_true]
  exact fun s hs => (isReply_iff s).mp (htexts s hs)

theorem isReply_hexDigit {n : Nat} (hn : n < 16) : isReplyChar (hexDigit n) = true := by
  interval_cases n <;> decide

theorem isReply_twoDigits (c : Byte) : IsReply (twoDigits c) := by
  have hlt := c.isLt
  rw [isReply_iff, twoDigits, List.all_cons, List.all_cons, isReply_hexDigit (by omega),
    isReply_hexDigit (by omega)]
  rfl

theorem isReply_writeUint32 (b : Build) (value : Word) : IsReply (writeUint32 b value) := by
  rw [writeUint32, List.flatMap_def]
  refine isReply_flatten fun s hs => ?_
  obtain ⟨i, -, rfl⟩ := List.mem_map.mp hs
  exact isReply_twoDigits _

def stopReason (targetException : Int) : Chars :=
  if targetException = UNDEFINED_INSTRUCTION then ofString "S04"
  else if targetException = PREFETCH_ABORT ∨ targetException = DATA_ABORT then ofString "S10"
  else ofString "S05"

theorem isReply_stopReason (targetException : Int) : IsReply (stopReason targetException) := by
  rw [isReply_iff, stopReason]
  split
  · decide
  · split <;> decide

theorem length_stopReason (exception : Int) : (stopReason exception).length ≤ 1019 := by
  rw [stopReason]
  split
  · decide
  · split <;> decide

theorem sends_gdbSendStopReason (g : GdbProtocolData) :
    Sends g (stopReason g.targetException) (gdbSendStopReason g) := by
  have hdata : gdbSendStopReason g = gdbSendData g (stopReason g.targetException) := by
    rw [gdbSendStopReason, stopReason]
    split
    · rfl
    · split <;> rfl
  rw [hdata]
  exact sends_gdbSendData (isReply_stopReason _)

/-! ## The handlers -/

namespace Gdb

section
variable (b : Build) (g : GdbProtocolData) (t : Text) (data : Nat)

/-- What is left of `g` when `cont` leaves its loop. -/
def contEnd (turns : Nat) : ContState := (contTurn b.host)^[turns] (contStart b g)

theorem sends_cont (turns : Nat) (hfin : (contEnd b g turns).fin = true) :
    Sends { g with
        arm := (contEnd b g turns).arm
        targetException := (contEnd b g turns).targetException }
      (stopReason (contEnd b g turns).targetException) (cont b turns g) := by
  rw [cont, ← contEnd, if_pos hfin]
  exact sends_gdbSendStopReason _

def queryAnswer (s : Chars) : Chars :=
  if s = ofString "Offsets" then ofString "Text=0;Data=0;Bss=0"
  else if s.take 9 = ofString "Supported" then ofString "PacketSize=400"
  else if s = ofString "TStatus" then ofString "T0;tnotrun:0"
  else []

theorem isReply_queryAnswer (s : Chars) : IsReply (queryAnswer s) := by
  rw [isReply_iff, queryAnswer]
  split
  · decide
  · split
    · decide
    · split <;> decide

theorem sends_query : Sends g (queryAnswer (t.str data)) (query g t data) := by
  have hdata : query g t data = gdbSendData g (queryAnswer (t.str data)) := by
    rw [query, queryAnswer, ite_self]
    split
    · rfl
    · split
      · rfl
      · split <;> rfl
  rw [hdata]
  exact sends_gdbSendData (isReply_queryAnswer _)

theorem isReply_generalRegisters (p : ArmCoreData) : IsReply (generalRegisters b p).flatten := by
  refine isReply_flatten fun s hs => ?_
  simp only [generalRegisters, List.mem_append, List.mem_map, List.mem_singleton,
    List.mem_replicate] at hs
  rcases hs with (((⟨i, -, rfl⟩ | rfl) | ⟨-, rfl⟩) | rfl) | rfl
  · exact isReply_writeUint32 b _
  · exact isReply_writeUint32 b _
  · exact (isReply_iff _).mpr (by decide)
  · exact (isReply_iff _).mpr (by decide)
  · exact isReply_writeUint32 b _

theorem sends_readGeneralRegisters :
    Sends g (generalRegisters b g.arm).flatten (readGeneralRegisters b g) :=
  sends_storeAll (by simp [generalRegisters]) (isReply_generalRegisters b g.arm)

/-- The bytes `read_memory` gets before a read fails. -/
def readBytes (h : Host) (mem : MemoryData) : Nat → Word → Byte → List Byte
  | 0, _, _ => []
  | size + 1, address, value =>
    let (result, value) := memoryReadByte h mem address value
    if result ≠ -1 then value :: readBytes h mem size (address + 1) value else []

theorem readMemoryLoop_eq (h : Host) (mem : MemoryData) (size : Nat) (address : Word) (value : Byte)
    (position : Nat) (packet : Nat → Byte) :
    readMemoryLoop h mem size address value position packet =
      storeAll packet position ((readBytes h mem size address value).map twoDigits) := by
  induction size generalizing address value position packet with
  | zero => rfl
  | succ size ih =>
    simp only [readMemoryLoop, readBytes]
    split
    · rw [List.map_cons, storeAll, length_twoDigits]
      refine bind_congr fun packet' => ?_
      exact ih (address + 1) _ (position + 2) packet'
    · rfl

theorem isReply_bytes (bytes : List Byte) : IsReply (bytes.map twoDigits).flatten := by
  refine isReply_flatten fun s hs => ?_
  obtain ⟨c, -, rfl⟩ := List.mem_map.mp hs
  exact isReply_twoDigits c

def requestedBytes : List Byte :=
  readBytes b.host g.arm.mem (request b t data).2.toNat (request b t data).1 (b.host.garbage 8)

theorem readMemory_eq :
    readMemory b g t data = (do
      let packet ← storeAll (Function.update g.packet buffer 0) buffer
        ((requestedBytes b g t data).map twoDigits)
      gdbSendBuffer { g with packet := packet }) := by
  simp only [readMemory, readMemoryLoop_eq, requestedBytes]

theorem sends_readMemory :
    Sends g ((requestedBytes b g t data).map twoDigits).flatten (readMemory b g t data) := by
  have hreply := isReply_bytes (requestedBytes b g t data)
  rw [readMemory_eq]
  by_cases hnone : requestedBytes b g t data = []
  · rw [hnone] at hreply ⊢
    have hempty : Spells (Function.update g.packet buffer 0) buffer ([] ++ [0]) :=
      ⟨Function.update_self buffer 0 g.packet, trivial⟩
    exact Sends.of_packet
      (sends_gdbSendBuffer (g := { g with packet := Function.update g.packet buffer 0 }) hreply hempty)
  · exact sends_storeAll (mt List.map_eq_nil_iff.mp hnone) hreply

theorem sends_readRegister (hreg : b.atoi (t.str data) < 16) :
    Sends g (writeUint32 b (armReadRegister g.arm (u8 (b.atoi (t.str data))) -
      if b.atoi (t.str data) = 15 then 4 else 0)) (readRegister b g t data) := by
  rw [readRegister, if_neg (not_not_intro hreg)]
  exact sends_gdbSendData (isReply_writeUint32 b _)

def threadAnswer : Chars :=
  let value := (b.atoi (t.str (data + 1))).toInt
  if (t.get data = ascii 'c' ∨ t.get data = ascii 'g') ∧ value < 1 ∧ -2 < value then ofString "OK"
  else ofString "E01"

theorem isReply_threadAnswer : IsReply (threadAnswer b t data) := by
  unfold threadAnswer
  rw [isReply_iff]
  dsimp only
  split <;> decide

theorem sends_setThread : Sends g (threadAnswer b t data) (setThread b g t data) := by
  have hdata : setThread b g t data = gdbSendData g (threadAnswer b t data) := by
    unfold setThread threadAnswer
    dsimp only
    split <;> rfl
  rw [hdata]
  exact sends_gdbSendData (isReply_threadAnswer b t data)

theorem sends_step :
    Sends { g with arm := (armStep b.host g.arm).2, targetException := (armStep b.host g.arm).1 }
      (stopReason (armStep b.host g.arm).1) (step b g) :=
  sends_gdbSendStopReason _

def writtenGeneralRegisters : ArmCoreData :=
  let arm := (List.range 16).foldl (fun arm i =>
    armWriteRegister arm (BitVec.ofNat 8 i) (readUint32 b t (data + 8 * i))) g.arm
  armWriteCpsr arm (readUint32 b t (data + 8 * (16 + 8 * 3 + 1)))

theorem isReply_ok : IsReply (ofString "OK") := (isReply_iff _).mpr (by decide)

theorem sends_writeGeneralRegisters :
    Sends { g with arm := writtenGeneralRegisters b g t data } (ofString "OK")
      (writeGeneralRegisters b g t data) :=
  sends_gdbSendData isReply_ok

/-- The offset of the content of an `X` request; 0 stands for no separator. -/
def content : Nat := (t.index data (ascii ':')).getD 0 + 1

/-- The memory and `write_ok` after an `X` request. -/
def writtenMemory : MemoryData × Bool :=
  if (request b t data).1.toNat < memoryGetSize g.arm.mem then
    writeMemoryLoop b.host t (request b t data).2.toNat g.arm.mem (request b t data).1
      (content t data)
  else (g.arm.mem, false)

/-- The content of an `X` request is not read. -/
def WritesNothing : Prop :=
  (request b t data).2 = 0 ∨ memoryGetSize g.arm.mem ≤ (request b t data).1.toNat

def writeAnswer (writeOk : Bool) : Chars := if writeOk then ofString "OK" else ofString "E02"

theorem isReply_writeAnswer (writeOk : Bool) : IsReply (writeAnswer writeOk) := by
  cases writeOk <;> exact (isReply_iff _).mpr (by decide)

theorem writeMemoryBinary_eq
    (hcontent : t.index data (ascii ':') ≠ none ∨ WritesNothing b g t data) :
    writeMemoryBinary b g t data =
      gdbSendData { g with arm := { g.arm with mem := (writtenMemory b g t data).1 } }
        (writeAnswer (writtenMemory b g t data).2) := by
  have hanswer : ∀ (g : GdbProtocolData) (writeOk : Bool),
      (if writeOk then gdbSendData g (ofString "OK") else gdbSendData g (ofString "E02")) =
        gdbSendData g (writeAnswer writeOk) := by
    intro g writeOk
    cases writeOk <;> rfl
  simp only [writeMemoryBinary, writtenMemory, hanswer]
  by_cases haddress : (request b t data).1.toNat < memoryGetSize g.arm.mem
  · rw [decide_eq_true haddress, if_pos haddress]
    by_cases hsize : (request b t data).2 = 0
    · rw [if_pos (Or.inl hsize), hsize]
      rfl
    · have hcolon : t.index data (ascii ':') ≠ none :=
        hcontent.elim id fun h => h.elim (absurd · hsize) fun h => absurd haddress (Nat.not_lt.mpr h)
      obtain ⟨colon, hcolon⟩ := Option.ne_none_iff_exists'.mp hcolon
      rw [if_neg fun h => h.elim hsize Bool.noConfusion, hcolon, content, hcolon]
      rfl
  · rw [decide_eq_false haddress, if_neg haddress, if_pos (Or.inr rfl)]
    rfl

theorem sends_writeMemoryBinary
    (hcontent : t.index data (ascii ':') ≠ none ∨ WritesNothing b g t data) :
    Sends { g with arm := { g.arm with mem := (writtenMemory b g t data).1 } }
      (writeAnswer (writtenMemory b g t data).2) (writeMemoryBinary b g t data) := by
  rw [writeMemoryBinary_eq b g t data hcontent]
  exact sends_gdbSendData (isReply_writeAnswer _)

def writtenRegister : Word := b.scanWord (t.str data).length (t.str data) (b.host.garbage 32)

theorem sends_writeRegister (hequals : t.index data (ascii '=') ≠ none)
    (hreg : writtenRegister b t data < 16) :
    Sends { g with
        arm := armWriteRegister g.arm (u8 (writtenRegister b t data))
          (readUint32 b t ((t.index data (ascii '=')).getD 0 + 1)) }
      (ofString "OK") (writeRegister b g t data) := by
  obtain ⟨equals, hequals⟩ := Option.ne_none_iff_exists'.mp hequals
  unfold writtenRegister at hreg ⊢
  simp only [writeRegister, hequals, if_neg (not_not_intro hreg)]
  exact sends_gdbSendData isReply_ok

end

end Gdb

/-! ## Requests -/

namespace GdbHandler

section
variable (b : Build) (turns : Nat) (g : GdbProtocolData) (t : Text) (data : Nat)

/-- The handler comes to its reply: `cont` leaves its loop, the assertions hold, and a separator
that is needed is there. -/
def Answers : GdbHandler → Prop
  | .cont => (Gdb.contEnd b g turns).fin = true
  | .readRegister => b.atoi (t.str data) < 16
  | .writeMemoryBinary => t.index data (ascii ':') ≠ none ∨ Gdb.WritesNothing b g t data
  | .writeRegister => t.index data (ascii '=') ≠ none ∧ Gdb.writtenRegister b t data < 16
  | _ => True

/-- The core when the reply is sent. -/
def core : GdbHandler → ArmCoreData
  | .cont => (Gdb.contEnd b g turns).arm
  | .step => (armStep b.host g.arm).2
  | .writeGeneralRegisters => Gdb.writtenGeneralRegisters b g t data
  | .writeMemoryBinary => { g.arm with mem := (Gdb.writtenMemory b g t data).1 }
  | .writeRegister => armWriteRegister g.arm (u8 (Gdb.writtenRegister b t data))
      (readUint32 b t ((t.index data (ascii '=')).getD 0 + 1))
  | _ => g.arm

def exception : GdbHandler → Int
  | .cont => (Gdb.contEnd b g turns).targetException
  | .step => (armStep b.host g.arm).1
  | _ => g.targetException

def answer : GdbHandler → Chars
  | .cont => stopReason (Gdb.contEnd b g turns).targetException
  | .killRequest => []
  | .query => Gdb.queryAnswer (t.str data)
  | .readGeneralRegisters => (Gdb.generalRegisters b g.arm).flatten
  | .readMemory => ((Gdb.requestedBytes b g t data).map twoDigits).flatten
  | .readRegister => writeUint32 b (armReadRegister g.arm (u8 (b.atoi (t.str data))) -
      if b.atoi (t.str data) = 15 then 4 else 0)
  | .reason => stopReason g.targetException
  | .setThread => Gdb.threadAnswer b t data
  | .step => stopReason (armStep b.host g.arm).1
  | .writeGeneralRegisters => ofString "OK"
  | .writeMemoryBinary => Gdb.writeAnswer (Gdb.writtenMemory b g t data).2
  | .writeRegister => ofString "OK"

theorem isReply_answer (handler : GdbHandler) : IsReply (handler.answer b turns g t data) := by
  cases handler with
  | cont => exact isReply_stopReason _
  | killRequest => exact (isReply_iff _).mpr rfl
  | query => exact Gdb.isReply_queryAnswer _
  | readGeneralRegisters => exact Gdb.isReply_generalRegisters b g.arm
  | readMemory => exact Gdb.isReply_bytes _
  | readRegister => exact isReply_writeUint32 b _
  | reason => exact isReply_stopReason _
  | setThread => exact Gdb.isReply_threadAnswer b t data
  | step => exact isReply_stopReason _
  | writeGeneralRegisters => exact Gdb.isReply_ok
  | writeMemoryBinary => exact Gdb.isReply_writeAnswer _
  | writeRegister => exact Gdb.isReply_ok

variable {b turns g t data}

theorem sends_run {handler : GdbHandler} (hkill : handler ≠ .killRequest)
    (hanswers : handler.Answers b turns g t data) :
    Sends { g with
        arm := handler.core b turns g t data
        targetException := handler.exception b turns g }
      (handler.answer b turns g t data) (handler.run b turns g t data) := by
  cases handler with
  | cont => exact Gdb.sends_cont b g turns hanswers
  | killRequest => exact absurd rfl hkill
  | query => exact Gdb.sends_query g t data
  | readGeneralRegisters => exact Gdb.sends_readGeneralRegisters b g
  | readMemory => exact Gdb.sends_readMemory b g t data
  | readRegister => exact Gdb.sends_readRegister b g t data hanswers
  | reason => exact sends_gdbSendStopReason g
  | setThread => exact Gdb.sends_setThread b g t data
  | step => exact Gdb.sends_step b g
  | writeGeneralRegisters => exact Gdb.sends_writeGeneralRegisters b g t data
  | writeMemoryBinary => exact Gdb.sends_writeMemoryBinary b g t data hanswers
  | writeRegister => exact Gdb.sends_writeRegister b g t data hanswers.1 hanswers.2

/-- A handler that does not come to its reply is a fault. -/
theorem answers_of_run {handler : GdbHandler} {g' : GdbProtocolData}
    (hrun : handler.run b turns g t data = .ok g') : handler.Answers b turns g t data := by
  cases handler with
  | cont =>
    by_contra hfin
    unfold Answers at hfin
    rw [run, Gdb.cont, ← Gdb.contEnd, if_neg hfin] at hrun
    cases hrun
  | readRegister =>
    by_contra hreg
    unfold Answers at hreg
    rw [run, Gdb.readRegister, if_pos hreg] at hrun
    cases hrun
  | writeMemoryBinary =>
    by_contra hnone
    obtain ⟨hindex, hwrites⟩ := not_or.mp hnone
    obtain ⟨hsize, haddress⟩ := not_or.mp hwrites
    simp only [run, Gdb.writeMemoryBinary, not_not.mp hindex,
      decide_eq_true (Nat.lt_of_not_le haddress)] at hrun
    rw [if_neg fun h => h.elim hsize Bool.noConfusion] at hrun
    cases hrun
  | writeRegister =>
    by_contra hnone
    cases hindex : t.index data (ascii '=') with
    | none =>
      simp only [run, Gdb.writeRegister, hindex] at hrun
      cases hrun
    | some equals =>
      have hreg : ¬ Gdb.writtenRegister b t data < 16 := fun hreg =>
        hnone ⟨by rw [hindex]; exact Option.some_ne_none equals, hreg⟩
      unfold Gdb.writtenRegister at hreg
      simp only [run, Gdb.writeRegister, hindex, if_pos hreg] at hrun
      cases hrun
  | killRequest => trivial
  | query => trivial
  | readGeneralRegisters => trivial
  | readMemory => trivial
  | reason => trivial
  | setThread => trivial
  | step => trivial
  | writeGeneralRegisters => trivial

end

end GdbHandler

end Armator
