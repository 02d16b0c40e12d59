import Mathlib.Data.List.TakeWhile
import Armator.Lib.CString

/-!
# Packets with a checksum

The packets of the remote serial protocol: `$`, a payload, `#`, and two hexadecimal digits for the
sum of the payload modulo 256. `isPacket_iff` is the lexical rule of a packet, and
`checksum_ne` says that the sum tells two payloads apart that differ in one byte.
-/

namespace Packet

open CString

/-- No byte of a payload is a delimiter. -/
def IsPayload (payload : Chars) : Prop := ∀ c ∈ payload, c ≠ ascii '$' ∧ c ≠ ascii '#'

def checksum (payload : Chars) : BitVec 8 := payload.foldl (· + ·) 0

def frame (payload : Chars) : Chars := ascii '$' :: payload ++ ascii '#' :: twoDigits (checksum payload)

/-! ## The checksum -/

theorem checksum_nil : checksum [] = 0 := rfl

theorem foldl_add (payload : Chars) (c : BitVec 8) :
    payload.foldl (· + ·) c = c + checksum payload := by
  induction payload generalizing c with
  | nil => exact (BitVec.add_zero c).symm
  | cons b payload ih =>
    have hzero : (0 : BitVec 8) + b = b := BitVec.zero_add b
    rw [checksum, List.foldl_cons, List.foldl_cons, ih, ih, hzero, BitVec.add_assoc]

theorem checksum_append (payload payload' : Chars) :
    checksum (payload ++ payload') = checksum payload + checksum payload' := by
  rw [checksum, List.foldl_append, foldl_add]
  rfl

theorem checksum_cons (c : BitVec 8) (payload : Chars) :
    checksum (c :: payload) = c + checksum payload := by
  have hzero : (0 : BitVec 8) + c = c := BitVec.zero_add c
  rw [checksum, List.foldl_cons, foldl_add, hzero]

/-- Two payloads that differ in one byte have different checksums. -/
theorem checksum_ne (s t : Chars) {c c' : BitVec 8} (hne : c' ≠ c) :
    checksum (s ++ c' :: t) ≠ checksum (s ++ c :: t) := by
  rw [checksum_append, checksum_append, checksum_cons, checksum_cons]
  intro heq
  exact hne ((BitVec.add_left_inj _).mp ((BitVec.add_right_inj _).mp heq))

@[simp] theorem length_frame (payload : Chars) : (frame payload).length = payload.length + 4 := by
  rw [frame, List.cons_append, List.length_cons, List.length_append, List.length_cons,
    length_twoDigits]

theorem frame_injective {payload payload' : Chars} (heq : frame payload = frame payload') :
    payload = payload' := by
  have hlength := congrArg List.length heq
  rw [length_frame, length_frame] at hlength
  exact (List.append_inj (List.tail_eq_of_cons_eq heq) (by omega)).1

/-! ## The lexical rule -/

def isDelimiter (c : BitVec 8) : Bool := c = ascii '$' ∨ c = ascii '#'

/-- `#` and two digits. -/
def isTrailer (t : Chars) : Bool :=
  match t with
  | [hash, a, b] => hash = ascii '#' ∧ hexValue a ≠ none ∧ hexValue b ≠ none
  | _ => false

/-- `"$"[^$#]*"#"{HEX}{HEX}`. -/
def isPacket (t : Chars) : Bool :=
  match t with
  | [] => false
  | dollar :: s => dollar = ascii '$' ∧ isTrailer (s.dropWhile fun c => !isDelimiter c)

theorem isDelimiter_iff (c : BitVec 8) : isDelimiter c = true ↔ c = ascii '$' ∨ c = ascii '#' :=
  decide_eq_true_iff

theorem dropWhile_payload {payload : Chars} (hpayload : IsPayload payload) {c : BitVec 8}
    (hc : isDelimiter c = true) (t : Chars) :
    (payload ++ c :: t).dropWhile (fun c => !isDelimiter c) = c :: t := by
  have hpass : ∀ b ∈ payload, (!isDelimiter b) = true := by
    intro b hb
    rw [Bool.not_eq_true', ← Bool.not_eq_true, isDelimiter_iff]
    exact fun h => h.elim (hpayload b hb).1 (hpayload b hb).2
  rw [List.dropWhile_append_of_pos hpass,
    List.dropWhile_cons_of_neg (by rw [hc]; exact Bool.false_ne_true)]

theorem isPayload_takeWhile (s : Chars) : IsPayload (s.takeWhile fun c => !isDelimiter c) := by
  intro c hc
  have hnot := List.mem_takeWhile_imp hc
  rw [Bool.not_eq_true', ← Bool.not_eq_true, isDelimiter_iff] at hnot
  exact ⟨fun h => hnot (Or.inl h), fun h => hnot (Or.inr h)⟩

theorem isTrailer_iff (t : Chars) :
    isTrailer t = true ↔ ∃ a b, hexValue a ≠ none ∧ hexValue b ≠ none ∧ t = [ascii '#', a, b] := by
  constructor
  · intro ht
    unfold isTrailer at ht
    split at ht
    · next hash a b =>
      obtain ⟨rfl, ha, hb⟩ := of_decide_eq_true ht
      exact ⟨a, b, ha, hb, rfl⟩
    · exact absurd ht Bool.false_ne_true
  · rintro ⟨a, b, ha, hb, rfl⟩
    exact decide_eq_true ⟨rfl, ha, hb⟩

theorem isPacket_iff (t : Chars) :
    isPacket t = true ↔ ∃ payload a b, IsPayload payload ∧ hexValue a ≠ none ∧ hexValue b ≠ none ∧
      t = ascii '$' :: payload ++ [ascii '#', a, b] := by
  constructor
  · intro ht
    unfold isPacket at ht
    split at ht
    · exact absurd ht Bool.false_ne_true
    · next dollar s =>
      obtain ⟨rfl, htrailer⟩ := of_decide_eq_true ht
      obtain ⟨a, b, ha, hb, heq⟩ := (isTrailer_iff _).mp htrailer
      refine ⟨_, a, b, isPayload_takeWhile s, ha, hb, ?_⟩
      rw [← heq, List.cons_append, List.takeWhile_append_dropWhile]
  · rintro ⟨payload, a, b, hpayload, ha, hb, rfl⟩
    have hdrop := dropWhile_payload hpayload (c := ascii '#') (by decide) [a, b]
    have htrailer : isTrailer [ascii '#', a, b] = true := (isTrailer_iff _).mpr ⟨a, b, ha, hb, rfl⟩
    rw [← hdrop] at htrailer
    exact decide_eq_true ⟨rfl, htrailer⟩

theorem isPacket_append {payload : Chars} (hpayload : IsPayload payload) (a b : BitVec 8)
    {more : Chars} (hmore : more ≠ []) :
    isPacket (ascii '$' :: payload ++ [ascii '#', a, b] ++ more) = false := by
  have hdrop := dropWhile_payload hpayload (c := ascii '#') (by decide) ([a, b] ++ more)
  obtain ⟨c, s, rfl⟩ := List.exists_cons_of_ne_nil hmore
  simp only [isPacket, List.cons_append, List.append_assoc, List.nil_append] at hdrop ⊢
  rw [hdrop]
  rfl

theorem isPacket_dollar (s t : Chars) (hs : s ≠ []) : isPacket (s ++ ascii '$' :: t) = false := by
  rw [← Bool.not_eq_true, isPacket_iff]
  rintro ⟨payload, a, b, hpayload, ha, hb, heq⟩
  obtain ⟨c, s, rfl⟩ := List.exists_cons_of_ne_nil hs
  have htail : s ++ ascii '$' :: t = payload ++ [ascii '#', a, b] := (List.cons.inj heq).2
  have hmem : ascii '$' ∈ payload ++ [ascii '#', a, b] := by simp [← htail]
  simp only [List.mem_append, List.mem_cons, List.not_mem_nil, or_false] at hmem
  rcases hmem with hmem | hmem | rfl | rfl
  · exact (hpayload _ hmem).1 rfl
  · exact absurd hmem (by decide)
  · exact ha (by decide)
  · exact hb (by decide)

theorem isPacket_frame {payload : Chars} (hpayload : IsPayload payload) :
    isPacket (frame payload) = true := by
  have hhex := isHex_twoDigits (checksum payload)
  exact (isPacket_iff _).mpr ⟨payload, _, _, hpayload, hhex _ List.mem_cons_self,
    hhex _ (List.mem_cons_of_mem _ List.mem_cons_self), rfl⟩

end Packet
