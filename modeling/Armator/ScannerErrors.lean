import Armator.Retransmission
import Armator.Lib.Logged

/-!
# The errors of the scanner

Characters that belong to no token are held back in a buffer, which is emptied by a request for
retransmission when the next token arrives, or when it is full. The actions of the scanner stand here
once more, in the namespace `Errors`, with a log of the indices of the buffer they write and of the
requests they make themselves; requests of `gdb_packet_analysis` are not among these.

`scannerErrors` says what every sequence of tokens does to the buffer, and that a run of `n` invalid
characters costs one request for each 1023 of them, rounded up.
-/

namespace Armator

open CString Logged

/-! ## The log -/

inductive ErrorEffect where
  /-- A byte is written to `buffer`. -/
  | write (index : Nat)
  /-- `handle_error` requires retransmission. -/
  | request
  deriving DecidableEq

abbrev Errors (α : Type) := Writer (List ErrorEffect) α

namespace Errors

def handleError (data : ParserData) : Errors (Except Fault ParserData) :=
  if data.len ≠ 0 then do
    tell [.write data.len]
    tell [.request]
    return do
      let gdb ← gdbRequireRetransmission data.gdb
      .ok { data with gdb := gdb, buffer := Function.update data.buffer data.len 0, len := 0 }
  else return .ok data

def addCharacterToError (data : ParserData) (c : Byte) : Errors (Except Fault ParserData) := do
  let flushed ← if data.len > maxErrorSize - 2 then handleError data else pure (.ok data)
  match flushed with
  | .error fault => return .error fault
  | .ok data =>
    tell [.write data.len]
    return .ok { data with buffer := Function.update data.buffer data.len c, len := data.len + 1 }

section
variable (b : Build) (turns : Nat)

def scannerAction (data : ParserData) : ScannerEvent → Errors (Except Fault ParserData)
  | .ack => handleError data
  | .retransmission => do
    let flushed ← handleError data
    return do
      let data ← flushed
      let gdb ← gdbTransmitPacket data.gdb
      .ok { data with gdb := gdb }
  | .packet token beyond => do
    let flushed ← handleError data
    return do
      let data ← flushed
      let gdb ← receive b turns data.gdb token beyond
      .ok { data with gdb := gdb }
  | .character c => addCharacterToError data c
  | .newline => return .ok data
  | .endOfFile => handleError data

def scannerRun (data : ParserData) : List ScannerEvent → Errors (Except Fault ParserData)
  | [] => return .ok data
  | event :: events => do
    match ← scannerAction b turns data event with
    | .error fault => return .error fault
    | .ok data => scannerRun data events

/-! ### Values -/

theorem value_handleError (data : ParserData) :
    value (handleError data) = Armator.handleError data := by
  rw [handleError, Armator.handleError, value_ite]
  rfl

theorem value_addCharacterToError (data : ParserData) (c : Byte) :
    value (addCharacterToError data c) = Armator.addCharacterToError data c := by
  rw [addCharacterToError, Armator.addCharacterToError]
  split
  · rw [value_bind, value_handleError]
    cases Armator.handleError data <;> rfl
  · rfl

theorem value_scannerAction (data : ParserData) (event : ScannerEvent) :
    value (scannerAction b turns data event) = Armator.scannerAction b turns data event := by
  cases event with
  | character c => exact value_addCharacterToError data c
  | newline => rfl
  | ack => exact value_handleError data
  | endOfFile => exact value_handleError data
  | retransmission =>
    rw [scannerAction, value_bind, value_handleError]
    rfl
  | packet token beyond =>
    rw [scannerAction, value_bind, value_handleError]
    rfl

theorem value_scannerRun (data : ParserData) (events : List ScannerEvent) :
    value (scannerRun b turns data events) = Armator.scannerRun b turns data events := by
  induction events generalizing data with
  | nil => rfl
  | cons event events ih =>
    rw [scannerRun, Armator.scannerRun, value_bind, value_scannerAction]
    cases Armator.scannerAction b turns data event with
    | error fault => rfl
    | ok data1 => exact ih data1

end

end Errors

/-! ## Tokens -/

/-- A token that ends a run of invalid characters. -/
def ScannerEvent.isToken : ScannerEvent → Bool
  | ack | retransmission | packet _ _ | endOfFile => true
  | character _ | newline => false

def ScannerEvent.isInvalid : ScannerEvent → Bool
  | character _ => true
  | _ => false

/-- The number of invalid characters among some events. -/
def invalidCharacters (events : List ScannerEvent) : Nat := events.countP ScannerEvent.isInvalid

def requests {α : Type} (x : Errors α) : Nat := (log x).count .request

section
variable {b : Build} {turns : Nat} {data data' : ParserData} {event : ScannerEvent}

theorem log_handleError :
    log (Errors.handleError data) = if data.len ≠ 0 then [.write data.len, .request] else [] := by
  rw [Errors.handleError, log_ite]
  rfl

theorem log_token (htoken : event.isToken = true) :
    log (Errors.scannerAction b turns data event) = log (Errors.handleError data) := by
  cases event with
  | ack => rfl
  | endOfFile => rfl
  | retransmission => exact (log_bind ..).trans (List.append_nil _)
  | packet token beyond => exact (log_bind ..).trans (List.append_nil _)
  | character c => cases htoken
  | newline => cases htoken

theorem len_token (htoken : event.isToken = true)
    (hok : scannerAction b turns data event = .ok data') : data'.len = 0 := by
  cases event with
  | ack => exact (handleError_ok hok).2
  | endOfFile => exact (handleError_ok hok).2
  | retransmission =>
    obtain ⟨data1, herror, hok⟩ := ok_of_bind hok
    obtain ⟨g, -, hok⟩ := ok_of_bind hok
    cases hok
    exact (handleError_ok herror).2
  | packet token beyond =>
    obtain ⟨data1, herror, hok⟩ := ok_of_bind hok
    obtain ⟨g, -, hok⟩ := ok_of_bind hok
    cases hok
    exact (handleError_ok herror).2
  | character c => cases htoken
  | newline => cases htoken

theorem addCharacterToError_ok {c : Byte} (hok : addCharacterToError data c = .ok data') :
    data'.len = (if data.len > maxErrorSize - 2 then 0 else data.len) + 1 ∧
    log (Errors.addCharacterToError data c) =
      if data.len > maxErrorSize - 2 then [.write data.len, .request, .write 0]
      else [.write data.len] := by
  rw [addCharacterToError] at hok
  rw [Errors.addCharacterToError]
  by_cases hfull : data.len > maxErrorSize - 2
  · rw [if_pos hfull] at hok ⊢
    obtain ⟨data1, herror, hok⟩ := ok_of_bind hok
    have hzero := (handleError_ok herror).2
    have hne : data.len ≠ 0 := by
      intro heq
      rw [heq] at hfull
      exact absurd hfull (by decide)
    cases hok
    rw [if_pos hfull, if_pos hfull, hzero, log_bind, log_handleError, if_pos hne,
      Errors.value_handleError, herror]
    refine ⟨rfl, ?_⟩
    rw [← hzero]
    rfl
  · rw [if_neg hfull] at hok ⊢
    cases hok
    rw [if_neg hfull, if_neg hfull]
    exact ⟨rfl, rfl⟩

/-- A request that is counted is a `-` that has been sent. -/
theorem sent_handleError (hok : handleError data = .ok data') :
    data'.gdb.fd.sent =
      data.gdb.fd.sent ++ List.replicate (requests (Errors.handleError data)) (ofString "-") := by
  rw [requests, log_handleError]
  rw [handleError] at hok
  by_cases hlen : data.len ≠ 0
  · rw [if_pos hlen] at hok ⊢
    obtain ⟨g, hsent, hok⟩ := ok_of_bind hok
    obtain ⟨fd, hwriten, hsent⟩ := ok_of_bind hsent
    cases hok
    cases hsent
    rw [rioWriten, if_neg (by decide)] at hwriten
    split at hwriten
    · cases hwriten
    · cases hwriten
      rfl
  · rw [if_neg hlen] at hok ⊢
    cases hok
    exact (List.append_nil _).symm

theorem sent_addCharacterToError {c : Byte} (hok : addCharacterToError data c = .ok data') :
    data'.gdb.fd.sent = data.gdb.fd.sent ++
      List.replicate (requests (Errors.addCharacterToError data c)) (ofString "-") := by
  have hlog := (addCharacterToError_ok hok).2
  rw [requests, hlog]
  rw [addCharacterToError] at hok
  by_cases hfull : data.len > maxErrorSize - 2
  · rw [if_pos hfull] at hok ⊢
    obtain ⟨data1, herror, hok⟩ := ok_of_bind hok
    have hne : data.len ≠ 0 := by
      intro heq
      rw [heq] at hfull
      exact absurd hfull (by decide)
    have hsent := sent_handleError herror
    rw [requests, log_handleError, if_pos hne] at hsent
    cases hok
    exact hsent
  · rw [if_neg hfull] at hok ⊢
    cases hok
    exact (List.append_nil _).symm

theorem write_log_handleError {i : Nat} (hlen : data.len < maxErrorSize)
    (hi : .write i ∈ log (Errors.handleError data)) : i < maxErrorSize := by
  rw [log_handleError] at hi
  split at hi
  · rcases List.mem_cons.mp hi with heq | hi
    · rwa [ErrorEffect.write.inj heq]
    · exact absurd (List.mem_singleton.mp hi) (by simp)
  · exact absurd hi List.not_mem_nil

theorem log_addCharacterToError_error {c : Byte} {fault : Fault}
    (herror : addCharacterToError data c = .error fault) :
    log (Errors.addCharacterToError data c) = log (Errors.handleError data) := by
  rw [addCharacterToError] at herror
  rw [Errors.addCharacterToError]
  by_cases hfull : data.len > maxErrorSize - 2
  · rw [if_pos hfull] at herror ⊢
    rw [log_bind, Errors.value_handleError]
    cases hflush : handleError data with
    | error fault' => exact List.append_nil _
    | ok data1 =>
      rw [hflush] at herror
      cases herror
  · rw [if_neg hfull] at herror
    cases herror

/-- The step lemma. -/
theorem bounded_action (hlen : data.len < maxErrorSize) :
    (∀ i, .write i ∈ log (Errors.scannerAction b turns data event) → i < maxErrorSize) ∧
    ∀ data', scannerAction b turns data event = .ok data' → data'.len < maxErrorSize := by
  cases htoken : event.isToken with
  | true =>
    refine ⟨fun i hi => ?_, fun data' hok => ?_⟩
    · rw [log_token htoken] at hi
      exact write_log_handleError hlen hi
    · rw [len_token htoken hok]
      decide
  | false =>
    cases event with
    | newline =>
      refine ⟨fun i hi => absurd hi List.not_mem_nil, fun data' hok => ?_⟩
      cases hok
      exact hlen
    | character c =>
      have hsize : maxErrorSize = 1024 := rfl
      constructor
      · intro i hi
        cases hadd : addCharacterToError data c with
        | error fault =>
          rw [Errors.scannerAction, log_addCharacterToError_error hadd] at hi
          exact write_log_handleError hlen hi
        | ok data1 =>
          rw [Errors.scannerAction, (addCharacterToError_ok hadd).2] at hi
          split at hi <;> simp at hi <;> omega
      · intro data' hok
        rw [(addCharacterToError_ok hok).1]
        split <;> omega
    | _ => cases htoken

/-! ## Runs -/

theorem log_scannerRun_cons (event : ScannerEvent) (events : List ScannerEvent) :
    log (Errors.scannerRun b turns data (event :: events)) =
      log (Errors.scannerAction b turns data event) ++
        match scannerAction b turns data event with
        | .error _ => []
        | .ok data1 => log (Errors.scannerRun b turns data1 events) := by
  rw [Errors.scannerRun, log_bind, Errors.value_scannerAction]
  cases scannerAction b turns data event <;> rfl

/-- The run lemma. -/
theorem bounded_run (hlen : data.len < maxErrorSize) (events : List ScannerEvent) :
    (∀ i, .write i ∈ log (Errors.scannerRun b turns data events) → i < maxErrorSize) ∧
    ∀ data', scannerRun b turns data events = .ok data' → data'.len < maxErrorSize := by
  induction events generalizing data with
  | nil =>
    refine ⟨fun i hi => absurd hi List.not_mem_nil, fun data' hok => ?_⟩
    cases hok
    exact hlen
  | cons event events ih =>
    obtain ⟨hwrites, hnext⟩ := @bounded_action b turns data event hlen
    rw [log_scannerRun_cons, scannerRun]
    cases haction : scannerAction b turns data event with
    | error fault =>
      refine ⟨fun i hi => hwrites i (by simpa using hi), fun data' hok => by cases hok⟩
    | ok data1 =>
      obtain ⟨hmore, hlast⟩ := ih (hnext data1 haction)
      refine ⟨fun i hi => ?_, hlast⟩
      rcases List.mem_append.mp hi with hi | hi
      · exact hwrites i hi
      · exact hmore i hi

theorem scannerRun_append (xs ys : List ScannerEvent) :
    scannerRun b turns data (xs ++ ys) =
      scannerRun b turns data xs >>= fun data1 => scannerRun b turns data1 ys := by
  induction xs generalizing data with
  | nil => rfl
  | cons event xs ih =>
    rw [List.cons_append, scannerRun, scannerRun]
    cases scannerAction b turns data event with
    | error fault => rfl
    | ok data1 => exact ih

theorem requests_append {xs : List ScannerEvent} (hok : scannerRun b turns data xs = .ok data')
    (ys : List ScannerEvent) :
    requests (Errors.scannerRun b turns data (xs ++ ys)) =
      requests (Errors.scannerRun b turns data xs) +
        requests (Errors.scannerRun b turns data' ys) := by
  induction xs generalizing data with
  | nil =>
    cases hok
    exact (Nat.zero_add _).symm
  | cons event xs ih =>
    obtain ⟨data1, haction, hok⟩ := ok_of_bind hok
    have hmore := ih hok
    unfold requests at hmore ⊢
    rw [List.cons_append, log_scannerRun_cons, log_scannerRun_cons, haction, List.count_append,
      List.count_append]
    dsimp only
    omega

/-- How many of `n` invalid characters in a row are still in the buffer. -/
def heldBack (n : Nat) : Nat := if n = 0 then 0 else (n - 1) % 1023 + 1

theorem heldBack_full_iff (n : Nat) : heldBack n > maxErrorSize - 2 ↔ n ≠ 0 ∧ n % 1023 = 0 := by
  have hsize : maxErrorSize - 2 = 1022 := rfl
  rw [heldBack, hsize]
  split <;> omega

theorem heldBack_succ (n : Nat) :
    heldBack (n + 1) = (if heldBack n > maxErrorSize - 2 then 0 else heldBack n) + 1 := by
  have hfull := heldBack_full_iff n
  rw [heldBack, if_neg (Nat.succ_ne_zero n)]
  split
  · next hgt =>
    have hround := hfull.mp hgt
    omega
  · next hle =>
    have hround := mt hfull.mpr hle
    rw [heldBack]
    split <;> omega

theorem requests_succ (n : Nat) :
    (n + 1 - 1) / 1023 = (n - 1) / 1023 + if heldBack n > maxErrorSize - 2 then 1 else 0 := by
  have hfull := heldBack_full_iff n
  split
  · next hgt =>
    have hround := hfull.mp hgt
    omega
  · next hle =>
    have hround := mt hfull.mpr hle
    omega

theorem requests_singleton (event : ScannerEvent) :
    requests (Errors.scannerRun b turns data [event]) =
      (log (Errors.scannerAction b turns data event)).count .request := by
  rw [requests, log_scannerRun_cons, List.count_append]
  cases scannerAction b turns data event <;> rfl

theorem requests_open (hlen : data.len = 0) {run : List ScannerEvent}
    (hrun : ∀ event ∈ run, event.isToken = false) (hok : scannerRun b turns data run = .ok data') :
    data'.len = heldBack (invalidCharacters run) ∧
      requests (Errors.scannerRun b turns data run) = (invalidCharacters run - 1) / 1023 := by
  induction run using List.reverseRecOn generalizing data' with
  | nil =>
    cases hok
    exact ⟨hlen, rfl⟩
  | append_singleton run event ih =>
    rw [scannerRun_append] at hok
    obtain ⟨data1, hbefore, hok⟩ := ok_of_bind hok
    obtain ⟨data2, haction, hok⟩ := ok_of_bind hok
    cases hok
    have hevent := hrun event (by simp)
    obtain ⟨hheld, hrequests⟩ := ih (fun e he => hrun e (by simp [he])) hbefore
    rw [requests_append hbefore, requests_singleton, hrequests, invalidCharacters,
      List.countP_append, List.countP_singleton, ← invalidCharacters]
    cases event with
    | newline =>
      cases haction
      exact ⟨hheld, rfl⟩
    | character c =>
      obtain ⟨hnext, hlog⟩ := addCharacterToError_ok haction
      rw [Errors.scannerAction, hlog, hnext, hheld]
      refine ⟨(heldBack_succ _).symm, ?_⟩
      rw [ScannerEvent.isInvalid, if_pos rfl, requests_succ]
      split <;> rfl
    | _ => cases hevent

theorem sent_open {run : List ScannerEvent} (hrun : ∀ event ∈ run, event.isToken = false)
    (hok : scannerRun b turns data run = .ok data') :
    data'.gdb.fd.sent = data.gdb.fd.sent ++
      List.replicate (requests (Errors.scannerRun b turns data run)) (ofString "-") := by
  induction run generalizing data with
  | nil =>
    cases hok
    exact (List.append_nil _).symm
  | cons event run ih =>
    obtain ⟨data1, haction, hok⟩ := ok_of_bind hok
    have hnext : data1.gdb.fd.sent = data.gdb.fd.sent ++ List.replicate
        (requests (Errors.scannerAction b turns data event)) (ofString "-") := by
      cases event with
      | newline =>
        cases haction
        exact (List.append_nil _).symm
      | character c => exact sent_addCharacterToError haction
      | _ => cases hrun _ List.mem_cons_self
    have hsum : requests (Errors.scannerRun b turns data (event :: run)) =
        requests (Errors.scannerAction b turns data event) +
          requests (Errors.scannerRun b turns data1 run) := by
      rw [requests, log_scannerRun_cons, haction, List.count_append]
      rfl
    rw [ih (fun e he => hrun e (List.mem_cons_of_mem _ he)) hok, hnext, hsum, List.append_assoc,
      List.replicate_append_replicate]

end

/-! ## The law -/

/-- What some events do to the error buffer. The last three fields are about a run of events without
a token, in front of which there is nothing or a token: it ends in a token or goes on. -/
structure ErrorAccounting (b : Build) (turns : Nat) (data : ParserData)
    (events : List ScannerEvent) : Prop where
  bounds : ∀ i, .write i ∈ log (Errors.scannerRun b turns data events) → i < maxErrorSize
  length : ∀ data', scannerRun b turns data events = .ok data' → data'.len < maxErrorSize
  emptied : ∀ before token data', events = before ++ [token] → token.isToken = true →
    scannerRun b turns data events = .ok data' → data'.len = 0
  ended : ∀ before run token data', events = before ++ run ++ [token] →
    (∀ event ∈ before.getLast?, event.isToken = true) → (∀ event ∈ run, event.isToken = false) →
    token.isToken = true → scannerRun b turns data (before ++ run) = .ok data' →
    requests (Errors.scannerRun b turns data events) =
      requests (Errors.scannerRun b turns data before) + (invalidCharacters run + 1022) / 1023
  going : ∀ before run data', events = before ++ run →
    (∀ event ∈ before.getLast?, event.isToken = true) → (∀ event ∈ run, event.isToken = false) →
    scannerRun b turns data events = .ok data' →
    requests (Errors.scannerRun b turns data events) =
      requests (Errors.scannerRun b turns data before) + (invalidCharacters run - 1) / 1023

section
variable {b : Build} {turns : Nat} {data data' : ParserData}

theorem len_after_token {before : List ScannerEvent} {token : ScannerEvent}
    (htoken : token.isToken = true) (hok : scannerRun b turns data (before ++ [token]) = .ok data') :
    data'.len = 0 := by
  rw [scannerRun_append] at hok
  obtain ⟨data1, -, hok⟩ := ok_of_bind hok
  obtain ⟨data2, haction, hok⟩ := ok_of_bind hok
  cases hok
  exact len_token htoken haction

theorem len_before_run (hlen : data.len = 0) {before : List ScannerEvent}
    (hbefore : ∀ event ∈ before.getLast?, event.isToken = true)
    (hok : scannerRun b turns data before = .ok data') : data'.len = 0 := by
  cases before using List.reverseRecOn with
  | nil =>
    cases hok
    exact hlen
  | append_singleton before token =>
    exact len_after_token (hbefore token (by simp)) hok

theorem requests_going (hlen : data.len = 0) {before run : List ScannerEvent}
    (hbefore : ∀ event ∈ before.getLast?, event.isToken = true)
    (hrun : ∀ event ∈ run, event.isToken = false)
    (hok : scannerRun b turns data (before ++ run) = .ok data') :
    data'.len = heldBack (invalidCharacters run) ∧
      requests (Errors.scannerRun b turns data (before ++ run)) =
        requests (Errors.scannerRun b turns data before) + (invalidCharacters run - 1) / 1023 := by
  rw [scannerRun_append] at hok
  obtain ⟨data1, hfirst, hok⟩ := ok_of_bind hok
  obtain ⟨hheld, hrequests⟩ := requests_open (len_before_run hlen hbefore hfirst) hrun hok
  rw [requests_append hfirst, hrequests]
  exact ⟨hheld, rfl⟩

theorem requests_ended (hlen : data.len = 0) {before run : List ScannerEvent}
    {token : ScannerEvent} (hbefore : ∀ event ∈ before.getLast?, event.isToken = true)
    (hrun : ∀ event ∈ run, event.isToken = false) (htoken : token.isToken = true)
    (hok : scannerRun b turns data (before ++ run) = .ok data') :
    requests (Errors.scannerRun b turns data (before ++ run ++ [token])) =
      requests (Errors.scannerRun b turns data before) +
        (invalidCharacters run + 1022) / 1023 := by
  obtain ⟨hheld, hrequests⟩ := requests_going hlen hbefore hrun hok
  have hlast : requests (Errors.scannerRun b turns data' [token]) =
      if invalidCharacters run = 0 then 0 else 1 := by
    rw [requests_singleton, log_token htoken, log_handleError, hheld, heldBack]
    split <;> rfl
  rw [requests_append hok, hrequests, hlast, Nat.add_assoc]
  generalize invalidCharacters run = n
  split <;> omega

end

/-- **The errors of the scanner**: after every sequence of events the buffer is within its bounds, it
is empty after each token, and `n` invalid characters in front of a token have cost `n / 1023`
requests, rounded up. -/
theorem scannerErrors (b : Build) (turns : Nat) (arm : ArmCoreData) (packet buffer : Nat → Byte)
    (events : List ScannerEvent) :
    ErrorAccounting b turns (gdbScanner arm packet buffer) events := by
  have hlen : (gdbScanner arm packet buffer).len = 0 := rfl
  have hsmall : 0 < maxErrorSize := by decide
  obtain ⟨hwrites, hlast⟩ := @bounded_run b turns (gdbScanner arm packet buffer) hsmall events
  refine ⟨hwrites, hlast, ?_, ?_, ?_⟩
  · rintro before token data' rfl htoken hok
    exact len_after_token htoken hok
  · rintro before run token data' rfl hbefore hrun htoken hok
    exact requests_ended hlen hbefore hrun htoken hok
  · rintro before run data' rfl hbefore hrun hok
    exact (requests_going hlen hbefore hrun hok).2

end Armator
