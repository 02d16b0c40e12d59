import Mathlib.Data.Nat.Digits.Defs
import Mathlib.Tactic.IntervalCases

/-!
# Text of C programs

Strings as lists of bytes without their terminator, and the conversions of the C library between
numbers and text: `%02x` of a byte (`twoDigits`), `%x` with or without a field width (`scanHex`),
and `atoi` (`scanInt`). The numbers scanned are exact; what a program stores of one that its
variable cannot hold is not decided here.

`scanHex_twoDigits` and `scanHex_digits` are what round trips need: a scan that meets the digits of
a number gives this number and what follows the digits. The last section is about texts of fields
of one width.
-/

namespace CString

abbrev Chars := List (BitVec 8)

def ascii (c : Char) : BitVec 8 := BitVec.ofNat 8 c.toNat

def ofString (s : String) : Chars := s.toList.map ascii

/-! ## Characters -/

def isSpace (c : BitVec 8) : Bool := c = ascii ' ' ∨ (0x09 ≤ c ∧ c ≤ 0x0d)

/-- The value of a hexadecimal digit of either case. -/
def hexValue (c : BitVec 8) : Option Nat :=
  if ascii '0' ≤ c ∧ c ≤ ascii '9' then some (c.toNat - 0x30)
  else if ascii 'A' ≤ c ∧ c ≤ ascii 'F' then some (c.toNat - 0x37)
  else if ascii 'a' ≤ c ∧ c ≤ ascii 'f' then some (c.toNat - 0x57)
  else none

def decValue (c : BitVec 8) : Option Nat :=
  if ascii '0' ≤ c ∧ c ≤ ascii '9' then some (c.toNat - 0x30) else none

/-- The lower-case digit of a number below 16. -/
def hexDigit (n : Nat) : BitVec 8 := BitVec.ofNat 8 (if n < 10 then 0x30 + n else 0x57 + n)

def lower (c : BitVec 8) : BitVec 8 := if ascii 'A' ≤ c ∧ c ≤ ascii 'F' then c + 0x20 else c

/-! ## Conversions -/

/-- `%02x` of an `unsigned char`. -/
def twoDigits (b : BitVec 8) : Chars := [hexDigit (b.toNat / 16), hexDigit (b.toNat % 16)]

/-- A sign in front of a number, and what follows it. -/
def scanSign : Chars → Bool × Chars
  | c :: s => if c = ascii '-' then (true, s) else if c = ascii '+' then (false, s) else (false, c :: s)
  | [] => (false, [])

/-- `0x` or `0X` in front of a hexadecimal number. -/
def dropPrefix : Chars → Chars
  | z :: x :: s => if z = ascii '0' ∧ (x = ascii 'x' ∨ x = ascii 'X') then s else z :: x :: s
  | s => s

/-- The values of the digits at the start of a text. -/
def digitsOf (value : BitVec 8 → Option Nat) : Chars → List Nat
  | [] => []
  | c :: s =>
    match value c with
    | some d => d :: digitsOf value s
    | none => []

def number (base : Nat) (digits : List Nat) : Nat := Nat.ofDigits base digits.reverse

def signed (negative : Bool) (n : Nat) : Int := if negative then -n else n

/-- `%x` in a field of at most `width` characters: the number and the text behind it. White space
before the field does not count, and a prefix without a digit behind it does not match. -/
def scanHex (width : Nat) (s : Chars) : Option (Int × Chars) :=
  let s := s.dropWhile isSpace
  let field := s.take width
  let (negative, body) := scanSign field
  let body := dropPrefix body
  let digits := digitsOf hexValue body
  if digits = [] then none
  else some (signed negative (number 16 digits),
    s.drop (field.length - (body.length - digits.length)))

/-- `atoi`. -/
def scanInt (s : Chars) : Int :=
  let (negative, body) := scanSign (s.dropWhile isSpace)
  signed negative (number 10 (digitsOf decValue body))

/-! ## Digits -/

theorem hexValue_hexDigit {n : Nat} (hn : n < 16) : hexValue (hexDigit n) = some n := by
  interval_cases n <;> decide

theorem hexValue_lower (c : BitVec 8) : hexValue (lower c) = hexValue c := by
  revert c
  decide

theorem digitsOf_lower (s : Chars) : digitsOf hexValue (s.map lower) = digitsOf hexValue s := by
  induction s with
  | nil => rfl
  | cons c s ih => rw [List.map_cons, digitsOf, digitsOf, hexValue_lower, ih]

@[simp] theorem length_twoDigits (b : BitVec 8) : (twoDigits b).length = 2 := rfl

/-- A text of hexadecimal digits only. -/
def IsHex (s : Chars) : Prop := ∀ c ∈ s, hexValue c ≠ none

def hexNumber (s : Chars) : Nat := number 16 (digitsOf hexValue s)

theorem isHex_lower (s : Chars) : IsHex (s.map lower) ↔ IsHex s := by
  simp only [IsHex, List.forall_mem_map, hexValue_lower]

theorem hexNumber_lower (s : Chars) : hexNumber (s.map lower) = hexNumber s := by
  rw [hexNumber, digitsOf_lower, hexNumber]

theorem isHex_twoDigits (b : BitVec 8) : IsHex (twoDigits b) := by
  have hlt := b.isLt
  intro c hc
  simp only [twoDigits, List.mem_cons, List.not_mem_nil, or_false] at hc
  rcases hc with rfl | rfl
  · rw [hexValue_hexDigit (by omega)]
    exact Option.some_ne_none _
  · rw [hexValue_hexDigit (by omega)]
    exact Option.some_ne_none _

theorem hexNumber_twoDigits (b : BitVec 8) : hexNumber (twoDigits b) = b.toNat := by
  have hlt := b.isLt
  simp only [hexNumber, twoDigits, digitsOf, hexValue_hexDigit (show b.toNat / 16 < 16 by omega),
    hexValue_hexDigit (show b.toNat % 16 < 16 by omega), number, List.reverse_cons,
    List.reverse_nil, List.nil_append, List.cons_append, Nat.ofDigits_cons, Nat.ofDigits_nil]
  omega

/-! ## Scanning digits -/

/-- What may stand behind the digits of a number: no digit, and no `x`, which would make a prefix
of a single `0`. -/
def EndsNumber (s : Chars) : Prop :=
  ∀ c ∈ s.head?, hexValue c = none ∧ c ≠ ascii 'x' ∧ c ≠ ascii 'X'

theorem endsNumber_nil : EndsNumber [] := fun _ hc => absurd hc (by simp)

theorem endsNumber_take {s : Chars} (hs : EndsNumber s) (n : Nat) : EndsNumber (s.take n) := by
  intro c hc
  cases n with
  | zero => exact absurd hc (by simp)
  | succ n =>
    cases s with
    | nil => exact absurd hc (by simp)
    | cons a s => exact hs c hc

theorem ne_of_hexValue {c : BitVec 8} (hc : hexValue c ≠ none) :
    isSpace c = false ∧ c ≠ ascii '-' ∧ c ≠ ascii '+' ∧ c ≠ ascii 'x' ∧ c ≠ ascii 'X' := by
  revert c
  decide

theorem digitsOf_append {s rest : Chars} (hs : IsHex s) (hrest : EndsNumber rest) :
    digitsOf hexValue (s ++ rest) = digitsOf hexValue s ∧
      (digitsOf hexValue s).length = s.length := by
  induction s with
  | nil =>
    refine ⟨?_, rfl⟩
    cases rest with
    | nil => rfl
    | cons c rest => simp only [List.nil_append, digitsOf, (hrest c rfl).1]
  | cons c s ih =>
    obtain ⟨d, hd⟩ := Option.ne_none_iff_exists'.mp (hs c List.mem_cons_self)
    obtain ⟨htail, hlen⟩ := ih fun c' hc' => hs c' (List.mem_cons_of_mem c hc')
    constructor
    · simp only [List.cons_append, digitsOf, hd, htail]
    · simp only [digitsOf, hd, List.length_cons, hlen]

theorem hexValue_lt {c : BitVec 8} {d : Nat} (hc : hexValue c = some d) : d < 16 := by
  have hall : ∀ c, ∀ d ∈ hexValue c, d < 16 := by decide
  exact hall c d hc

theorem digitsOf_lt (s : Chars) : ∀ d ∈ digitsOf hexValue s, d < 16 := by
  induction s with
  | nil => exact fun d hd => absurd hd List.not_mem_nil
  | cons c s ih =>
    intro d hd
    rw [digitsOf] at hd
    split at hd
    · next d' hc =>
      rcases List.mem_cons.mp hd with rfl | hd
      · exact hexValue_lt hc
      · exact ih d hd
    · exact absurd hd List.not_mem_nil

theorem hexNumber_lt {s : Chars} (hs : IsHex s) : hexNumber s < 16 ^ s.length := by
  have hlen := (digitsOf_append hs endsNumber_nil).2
  have hlt := Nat.ofDigits_lt_base_pow_length (b := 16) (l := (digitsOf hexValue s).reverse)
    (by decide) fun d hd => digitsOf_lt s d (List.mem_reverse.mp hd)
  rwa [List.length_reverse, hlen] at hlt

theorem number_cons (base d : Nat) (digits : List Nat) :
    number base (d :: digits) = number base digits + base ^ digits.length * d := by
  rw [number, List.reverse_cons, Nat.ofDigits_append, List.length_reverse, Nat.ofDigits_singleton,
    number]

theorem hexValue_of_decValue {c : BitVec 8} {d : Nat} (hc : decValue c = some d) :
    hexValue c = some d := by
  have hall : ∀ c, ∀ d ∈ decValue c, hexValue c = some d := by decide
  exact hall c d hc

theorem number_decimal_le (s : Chars) :
    (digitsOf decValue s).length ≤ (digitsOf hexValue s).length ∧
      number 10 (digitsOf decValue s) ≤ number 16 (digitsOf hexValue s) := by
  induction s with
  | nil => exact ⟨Nat.le_refl _, Nat.le_refl _⟩
  | cons c s ih =>
    obtain ⟨hlength, hnumber⟩ := ih
    cases hc : decValue c with
    | none =>
      simp only [digitsOf, hc]
      exact ⟨Nat.zero_le _, Nat.zero_le _⟩
    | some d =>
      simp only [digitsOf, hc, hexValue_of_decValue hc, number_cons, List.length_cons]
      refine ⟨Nat.succ_le_succ hlength, Nat.add_le_add hnumber (Nat.mul_le_mul_right d ?_)⟩
      calc 10 ^ (digitsOf decValue s).length ≤ 16 ^ (digitsOf decValue s).length :=
            Nat.pow_le_pow_left (by decide) _
        _ ≤ 16 ^ (digitsOf hexValue s).length := Nat.pow_le_pow_right (by decide) hlength

theorem scanInt_of_isHex {s : Chars} (hs : IsHex s) :
    scanInt s = (number 10 (digitsOf decValue s) : Int) := by
  cases s with
  | nil => rfl
  | cons c s =>
    obtain ⟨hspace, hminus, hplus, -, -⟩ := ne_of_hexValue (hs c List.mem_cons_self)
    rw [scanInt, List.dropWhile_cons_of_neg (by rw [hspace]; exact Bool.false_ne_true), scanSign,
      if_neg hminus, if_neg hplus]
    rfl

theorem dropPrefix_digits {s rest : Chars} (hs : IsHex s) (hne : s ≠ []) (hrest : EndsNumber rest) :
    dropPrefix (s ++ rest) = s ++ rest := by
  have hsecond : ∀ z x t, s ++ rest = z :: x :: t → x ≠ ascii 'x' ∧ x ≠ ascii 'X' := by
    intro z x t heq
    rcases s with _ | ⟨a, _ | ⟨b, s⟩⟩
    · exact absurd rfl hne
    · obtain ⟨rfl, rfl⟩ := List.cons.inj heq
      exact (hrest x rfl).2
    · obtain ⟨rfl, hbx⟩ := List.cons.inj heq
      obtain ⟨rfl, rfl⟩ := List.cons.inj hbx
      exact (ne_of_hexValue (hs b (by simp))).2.2.2
  unfold dropPrefix
  split
  · next z x t heq =>
    obtain ⟨hx, hX⟩ := hsecond z x t heq
    have hprefix : ¬ (z = ascii '0' ∧ (x = ascii 'x' ∨ x = ascii 'X')) := fun hz => hz.2.elim hx hX
    rw [if_neg hprefix, heq]
  · rfl

/-- A scan that meets a number reads its digits, up to the end of the field or to what ends the
number. -/
theorem scanHex_digits {s : Chars} (hs : IsHex s) (hne : s ≠ []) (rest : Chars) {width : Nat}
    (hwidth : s.length ≤ width) (hrest : s.length = width ∨ EndsNumber rest) :
    scanHex width (s ++ rest) = some ((hexNumber s : Int), rest) := by
  have hfield : EndsNumber (rest.take (width - s.length)) := by
    rcases hrest with heq | hend
    · rw [heq, Nat.sub_self, List.take_zero]
      exact endsNumber_nil
    · exact endsNumber_take hend _
  obtain ⟨c, t, rfl⟩ := List.exists_cons_of_ne_nil hne
  obtain ⟨hspace, hminus, hplus, -, -⟩ := ne_of_hexValue (hs c List.mem_cons_self)
  obtain ⟨hdigits, hlen⟩ := digitsOf_append hs hfield
  have hskip : (c :: t ++ rest).dropWhile isSpace = c :: t ++ rest := by
    rw [List.cons_append, List.dropWhile_cons_of_neg (by rw [hspace]; exact Bool.false_ne_true)]
  have htake : (c :: t ++ rest).take width = c :: t ++ rest.take (width - (c :: t).length) := by
    rw [List.take_append, List.take_of_length_le hwidth]
  have hsign : scanSign (c :: t ++ rest.take (width - (c :: t).length)) =
      (false, c :: t ++ rest.take (width - (c :: t).length)) := by
    rw [List.cons_append, scanSign, if_neg hminus, if_neg hplus]
  have hnonempty : digitsOf hexValue (c :: t) ≠ [] := by
    intro hnil
    rw [hnil] at hlen
    exact absurd hlen (by simp)
  simp only [scanHex, hskip, htake, hsign, dropPrefix_digits hs hne hfield, hdigits,
    if_neg hnonempty, signed, Bool.false_eq_true, if_false, hlen]
  have hcount : (c :: t ++ rest.take (width - (c :: t).length)).length -
      ((c :: t ++ rest.take (width - (c :: t).length)).length - (c :: t).length) =
        (c :: t).length := by
    rw [List.length_append]
    omega
  rw [hcount, List.drop_left]
  rfl

theorem scanHex_twoDigits {s : Chars} {b : BitVec 8} (hs : s.map lower = twoDigits b) (rest : Chars) :
    scanHex 2 (s ++ rest) = some ((b.toNat : Int), rest) := by
  have hlen : s.length = 2 := by
    rw [← List.length_map lower, hs]
    rfl
  have hhex : IsHex s := by
    rw [← isHex_lower, hs]
    exact isHex_twoDigits b
  have hne : s ≠ [] := by
    rintro rfl
    exact absurd hlen (by decide)
  rw [scanHex_digits hhex hne rest (Nat.le_of_eq hlen) (Or.inl hlen), ← hexNumber_lower, hs,
    hexNumber_twoDigits]

theorem twoDigits_injective {b c : BitVec 8} (h : twoDigits b = twoDigits c) : b = c := by
  apply BitVec.eq_of_toNat_eq
  rw [← hexNumber_twoDigits, h, hexNumber_twoDigits]

theorem lower_of_hexValue {c : BitVec 8} {d : Nat} (hc : hexValue c = some d) :
    lower c = hexDigit d := by
  have hall : ∀ c, ∀ d ∈ hexValue c, lower c = hexDigit d := by decide
  exact hall c d hc

theorem exists_bytes {s : Chars} (hs : IsHex s) {n : Nat} (hlen : s.length = 2 * n) :
    ∃ bs : List (BitVec 8), bs.length = n ∧ s.map lower = bs.flatMap twoDigits := by
  induction n generalizing s with
  | zero => exact ⟨[], rfl, by rw [List.length_eq_zero_iff.mp hlen]; rfl⟩
  | succ n ih =>
    obtain ⟨c, s, rfl⟩ := List.exists_cons_of_length_eq_add_one hlen
    obtain ⟨d, s, rfl⟩ := List.exists_cons_of_length_eq_add_one (Nat.succ.inj hlen)
    obtain ⟨x, hx⟩ := Option.ne_none_iff_exists'.mp (hs c (by simp))
    obtain ⟨y, hy⟩ := Option.ne_none_iff_exists'.mp (hs d (by simp))
    have hxlt := hexValue_lt hx
    have hylt := hexValue_lt hy
    have hlength : s.length = 2 * n := by
      rw [List.length_cons, List.length_cons] at hlen
      omega
    obtain ⟨bs, hbs, hrest⟩ := ih (fun e he => hs e (by simp [he])) hlength
    have hbyte : twoDigits (BitVec.ofNat 8 (16 * x + y)) = [hexDigit x, hexDigit y] := by
      have hvalue : (BitVec.ofNat 8 (16 * x + y)).toNat = 16 * x + y := by
        rw [BitVec.toNat_ofNat]
        omega
      rw [twoDigits, hvalue, show (16 * x + y) / 16 = x by omega,
        show (16 * x + y) % 16 = y by omega]
    refine ⟨BitVec.ofNat 8 (16 * x + y) :: bs, by simp [hbs], ?_⟩
    rw [List.map_cons, List.map_cons, lower_of_hexValue hx, lower_of_hexValue hy, hrest,
      List.flatMap_cons, hbyte]
    rfl

/-! ## Fields of one width -/

section
variable {α : Type} {f : α → Chars} {width : Nat} (hf : ∀ x, (f x).length = width)
include hf

theorem length_fields (l : List α) : (l.flatMap f).length = width * l.length := by
  induction l with
  | nil => rfl
  | cons x l ih => rw [List.flatMap_cons, List.length_append, hf, ih, List.length_cons, Nat.mul_succ,
      Nat.add_comm]

theorem fields_injective (hwidth : 0 < width) (hinj : ∀ x y, f x = f y → x = y) {l l' : List α}
    (heq : l.flatMap f = l'.flatMap f) : l = l' := by
  have hlength := congrArg List.length heq
  rw [length_fields hf, length_fields hf] at hlength
  replace hlength := Nat.eq_of_mul_eq_mul_left hwidth hlength
  induction l generalizing l' with
  | nil => exact (List.length_eq_zero_iff.mp hlength.symm).symm
  | cons x l ih =>
    cases l' with
    | nil => simp at hlength
    | cons x' l' =>
      rw [List.flatMap_cons, List.flatMap_cons] at heq
      obtain ⟨hx, hl⟩ := List.append_inj heq (by rw [hf, hf])
      rw [hinj x x' hx, ih hl (by simpa using hlength)]

theorem drop_fields {text : Chars} (rest : Chars) {l : List α}
    (htext : text.map lower = l.flatMap f) {i : Nat} (hi : i < l.length) :
    ∃ s more, (text ++ rest).drop (width * i) = s ++ more ∧ s.map lower = f l[i] := by
  have hsplit : l = l.take i ++ l[i] :: l.drop (i + 1) := by
    rw [← List.drop_eq_getElem_cons, List.take_append_drop]
  rw [hsplit, List.flatMap_append, List.flatMap_cons] at htext
  obtain ⟨s1, s2, rfl, hs1, hs2⟩ := List.append_eq_map_iff.mp htext.symm
  obtain ⟨s, s3, rfl, hs, -⟩ := List.append_eq_map_iff.mp hs2.symm
  have hlength : s1.length = width * i := by
    rw [← List.length_map lower, hs1, length_fields hf, List.length_take,
      Nat.min_eq_left (Nat.le_of_lt hi)]
  refine ⟨s, s3 ++ rest, ?_, hs⟩
  rw [List.append_assoc, ← hlength, List.drop_left, List.append_assoc]

end

end CString
