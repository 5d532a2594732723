import TxGen.CallReplay.Scanner

set_option autoImplicit false

/-! # Chunks do not matter

The scanner reads a response byte by byte: `step` is what one byte does, and a chunk does what its
bytes do (`feed_eq`). The one byte that two phases look at is the one that ends a literal. -/

namespace TxGen.CallReplay

/-! ## One byte of a value -/

/-- What a byte is to a value: whitespace before it, a part of it, its last part, or what comes after
    it. -/
inductive ByteScan
  | skipped
  | within (scan : ValueScan)
  | last (scan : ValueScan)
  | ended

namespace ValueScan

def scanByte (scan : ValueScan) (byte : UInt8) : ByteScan :=
  if ¬ scan.started then
    if isAsciiWhitespace byte then .skipped else .within (start byte)
  else if scan.inString then
    if scan.escaped then .within { scan with escaped := false }
    else if byte = ascii '\\' then .within { scan with escaped := true }
    else if byte = ascii '"' then
      if scan.depth = 0 then .last { scan with inString := false }
      else .within { scan with inString := false }
    else .within scan
  else if scan.literal then
    if endsLiteral byte then .ended else .within scan
  else if byte = ascii '"' then .within { scan with inString := true }
  else if byte = ascii '{' ∨ byte = ascii '[' then .within { scan with depth := scan.depth + 1 }
  else if byte = ascii '}' ∨ byte = ascii ']' then
    if scan.depth - 1 = 0 then .last { scan with depth := scan.depth - 1 }
    else .within { scan with depth := scan.depth - 1 }
  else .within scan

theorem feedFrom_cons (index skipped : ℕ) (scan : ValueScan) (byte : UInt8) (rest : List UInt8) :
    feedFrom index skipped scan (byte :: rest)
      = match scan.scanByte byte with
        | .skipped => feedFrom (index + 1) (skipped + 1) scan rest
        | .within scan => feedFrom (index + 1) skipped scan rest
        | .last scan => (⟨skipped, index + 1, true⟩, scan)
        | .ended => (⟨skipped, index, true⟩, scan) := by
  rw [feedFrom, scanByte]
  split_ifs <;> rfl

@[simp] theorem started_start (byte : UInt8) : (start byte).started = true := by
  unfold start
  split_ifs <;> rfl

/-- A value that has started stays started. -/
theorem started_within {scan scan' : ValueScan} {byte : UInt8}
    (h : scan.scanByte byte = .within scan') : scan'.started = true := by
  unfold scanByte at h
  by_cases hstarted : scan.started = true
  · split_ifs at h <;> (injection h with h; subst h; exact hstarted)
  · split_ifs at h
    obtain rfl := ByteScan.within.inj h
    exact started_start byte

theorem not_started_of_skipped {scan : ValueScan} {byte : UInt8} (h : scan.scanByte byte = .skipped) :
    scan.started = false := by
  by_contra hstarted
  unfold scanByte at h
  split_ifs at h
  simp_all

/-- Whitespace is skipped before the value only. -/
theorem skipped_of_started {index skipped : ℕ} {scan : ValueScan} {chunk : List UInt8}
    (h : scan.started = true) : (feedFrom index skipped scan chunk).1.skipped = skipped := by
  induction chunk generalizing index scan with
  | nil => rfl
  | cons byte rest ih =>
      rw [feedFrom_cons]
      cases hbyte : scan.scanByte byte with
      | skipped => simp [not_started_of_skipped hbyte] at h
      | within scan' => exact ih (started_within hbyte)
      | last scan' => rfl
      | ended => rfl

/-- The progress never goes back. -/
theorem progress_le (index skipped : ℕ) (scan : ValueScan) (chunk : List UInt8) :
    index ≤ (feedFrom index skipped scan chunk).1.stop ∧
      skipped ≤ (feedFrom index skipped scan chunk).1.skipped := by
  induction chunk generalizing index skipped scan with
  | nil => exact ⟨Nat.le_refl _, Nat.le_refl _⟩
  | cons byte rest ih =>
      rw [feedFrom_cons]
      cases scan.scanByte byte with
      | skipped =>
          obtain ⟨hstop, hskipped⟩ := ih (index + 1) (skipped + 1) scan
          exact ⟨by simp only; omega, by simp only; omega⟩
      | within scan' =>
          obtain ⟨hstop, hskipped⟩ := ih (index + 1) skipped scan'
          exact ⟨by simp only; omega, hskipped⟩
      | last scan' => exact ⟨Nat.le_succ _, Nat.le_refl _⟩
      | ended => exact ⟨Nat.le_refl _, Nat.le_refl _⟩

end ValueScan

/-! ## One byte of a response -/

namespace ResponseScanner

/-- A byte after a member's value -/
def delimit (s : ResponseScanner) (byte : UInt8) : Except Report ResponseScanner :=
  if byte = ascii ',' then .ok { s with phase := .beforeKey }
  else if byte = ascii '}' then .ok { s with phase := .finished }
  else if isAsciiWhitespace byte then .ok s
  else malformed

/-- The member is complete. -/
def completed (s : ResponseScanner) : ResponseScanner := { s.finishMember with phase := .afterValue }

/-- A byte of a member's value, with the scan after it -/
def consumed (s : ResponseScanner) (scan : ValueScan) (bytes : List UInt8) : ResponseScanner :=
  { s with value := scan }.consumeMember bytes

def step (s : ResponseScanner) (byte : UInt8) : Except Report ResponseScanner :=
  match s.phase with
  | .beforeObject =>
    if byte = ascii '{' then .ok { s with phase := .beforeKey }
    else if isAsciiWhitespace byte then .ok s
    else bail "response is not a JSON object"
  | .beforeKey =>
    if byte = ascii '"' then .ok { s with key := [], keyOverflow := false, phase := .inKey false }
    else if byte = ascii '}' then .ok { s with phase := .finished }
    else if byte = ascii ',' ∨ isAsciiWhitespace byte then .ok s
    else malformed
  | .inKey true => .ok { s.pushKey byte with phase := .inKey false }
  | .inKey false =>
    if byte = ascii '\\' then .ok { s with phase := .inKey true }
    else if byte = ascii '"' then
      .ok { s with member := .classify s.key s.keyOverflow, phase := .beforeColon }
    else .ok { s.pushKey byte with phase := .inKey false }
  | .beforeColon =>
    if byte = ascii ':' then .ok { { s with value := {} }.startMember with phase := .inValue }
    else if isAsciiWhitespace byte then .ok s
    else malformed
  | .inValue =>
    match s.value.scanByte byte with
    | .skipped => .ok s
    | .within scan => .ok (s.consumed scan [byte])
    | .last scan => .ok (s.consumed scan [byte]).completed
    | .ended => s.completed.delimit byte
  | .afterValue => s.delimit byte
  | .finished => .ok s

@[simp] theorem consumeMember_nil (s : ResponseScanner) : s.consumeMember [] = s := by
  unfold consumeMember
  obtain ⟨phase, key, keyOverflow, value, member, result, error⟩ := s
  cases member <;> simp

/-- Consuming in two parts is consuming at once. -/
theorem consumeMember_append (s : ResponseScanner) (a b : List UInt8) :
    (s.consumeMember a).consumeMember b = s.consumeMember (a ++ b) := by
  obtain ⟨phase, key, keyOverflow, value, member, result, error⟩ := s
  cases member with
  | result => simp [consumeMember, Function.comp_def, Nat.add_assoc]
  | other => rfl
  | error =>
      have hroom : ∀ error : List UInt8,
          error ++ a.take (min a.length (maxErrorCapture - error.length))
              ++ b.take (min b.length (maxErrorCapture
                - (error ++ a.take (min a.length (maxErrorCapture - error.length))).length))
            = error ++ (a ++ b).take (min (a ++ b).length (maxErrorCapture - error.length)) := by
        intro error
        rw [List.append_assoc, List.take_append, List.length_append, List.length_append,
          List.length_take]
        -- what is left of the room after `a` is the room for `b`
        congr 2
        · rw [List.take_eq_take_iff]
          omega
        · rw [List.take_eq_take_iff]
          omega
      simp only [consumeMember, Option.map_map, Function.comp_def, hroom]

theorem consumed_consumed (s : ResponseScanner) (scan scan' : ValueScan) (a b : List UInt8) :
    (s.consumed scan a).consumed scan' b = s.consumed scan' (a ++ b) := by
  have hvalue : { s.consumed scan a with value := scan' }
      = { s with value := scan' }.consumeMember a := by
    unfold consumed consumeMember
    obtain ⟨phase, key, keyOverflow, value, member, result, error⟩ := s
    cases member <;> rfl
  rw [consumed, hvalue, consumeMember_append, consumed]

@[simp] theorem phase_consumed (s : ResponseScanner) (scan : ValueScan) (bytes : List UInt8) :
    (s.consumed scan bytes).phase = s.phase := phase_consumeMember _ _

@[simp] theorem value_consumed (s : ResponseScanner) (scan : ValueScan) (bytes : List UInt8) :
    (s.consumed scan bytes).value = scan := by
  unfold consumed consumeMember
  obtain ⟨phase, key, keyOverflow, value, member, result, error⟩ := s
  cases member <;> rfl

theorem consumed_self (s : ResponseScanner) : s.consumed s.value [] = s := by simp [consumed]

/-! ## One chunk -/

/-- What the bytes of a value do is what the value's scan of the chunk does. -/
theorem foldlM_inValue {s : ResponseScanner} (hphase : s.phase = .inValue) (index skipped : ℕ)
    (chunk : List UInt8) :
    chunk.foldlM step s =
      let progress := (ValueScan.feedFrom index skipped s.value chunk).1
      let scanned := s.consumed (ValueScan.feedFrom index skipped s.value chunk).2
        ((chunk.take (progress.stop - index)).drop (progress.skipped - skipped))
      if progress.complete then (chunk.drop (progress.stop - index)).foldlM step scanned.completed
      else .ok scanned := by
  induction chunk generalizing s index skipped with
  | nil => simp [ValueScan.feedFrom, consumed_self, pure, Except.pure]
  | cons byte rest ih =>
      rw [List.foldlM_cons, ValueScan.feedFrom_cons]
      cases hbyte : s.value.scanByte byte with
      | skipped =>
          obtain ⟨hstop, hskipped⟩ := ValueScan.progress_le (index + 1) (skipped + 1) s.value rest
          have hstep : s.step byte = .ok s := by simp [step, hphase, hbyte]
          simp only [hstep, bind, Except.bind, ih hphase (index + 1) (skipped + 1)]
          generalize ValueScan.feedFrom (index + 1) (skipped + 1) s.value rest = fed at hstop hskipped
          obtain ⟨i, hi⟩ := Nat.exists_eq_add_of_le hstop
          obtain ⟨k, hk⟩ := Nat.exists_eq_add_of_le hskipped
          have hi' : fed.1.stop - index = i + 1 := by omega
          have hk' : fed.1.skipped - skipped = k + 1 := by omega
          rw [hi, hk] at *
          simp [hi', hk']
      | within scan =>
          have hstarted := ValueScan.started_within hbyte
          obtain ⟨hstop, -⟩ := ValueScan.progress_le (index + 1) skipped scan rest
          have hskipped : (ValueScan.feedFrom (index + 1) skipped scan rest).1.skipped = skipped :=
            ValueScan.skipped_of_started hstarted
          have hstep : s.step byte = .ok (s.consumed scan [byte]) := by simp [step, hphase, hbyte]
          have hrest := @ih (s.consumed scan [byte]) (by simpa using hphase) (index + 1) skipped
          rw [value_consumed] at hrest
          simp only [hstep, bind, Except.bind, hrest, consumed_consumed]
          generalize ValueScan.feedFrom (index + 1) skipped scan rest = fed at hstop hskipped
          obtain ⟨i, hi⟩ := Nat.exists_eq_add_of_le hstop
          have hi' : fed.1.stop - index = i + 1 := by omega
          rw [hi] at *
          simp [hi', hskipped]
      | last scan =>
          have hstep : s.step byte = .ok (s.consumed scan [byte]).completed := by
            simp [step, hphase, hbyte]
          simp [hstep, bind, Except.bind]
      | ended =>
          have hstep : s.step byte = s.completed.step byte := by
            simp [step, hphase, hbyte, completed]
          simp [hstep, consumed_self]

theorem foldlM_finished {s : ResponseScanner} (hphase : s.phase = .finished) (chunk : List UInt8) :
    chunk.foldlM step s = .ok s := by
  induction chunk with
  | nil => rfl
  | cons byte rest ih => simp [step, hphase, bind, Except.bind, ih]

/-- A chunk does what its bytes do. -/
theorem feed_eq (s : ResponseScanner) (chunk : List UInt8) : s.feed chunk = chunk.foldlM step s := by
  fun_induction feed s chunk
  case case16 s byte rest hphase progress scanned hcomplete ih =>
    have hvalue := foldlM_inValue hphase 0 0 (byte :: rest)
    simp only [Nat.sub_zero] at hvalue
    exact ih.trans ((if_pos hcomplete).symm.trans hvalue.symm)
  case case17 s byte rest hphase progress scanned hincomplete ih =>
    have hvalue := foldlM_inValue hphase 0 0 (byte :: rest)
    simp only [Nat.sub_zero] at hvalue
    -- nothing of the chunk is left
    have hcomplete : (ValueScan.feedFrom 0 0 s.value (byte :: rest)).1.complete = false :=
      Bool.eq_false_iff.2 hincomplete
    have hstop : progress.stop = (byte :: rest).length :=
      (ValueScan.stop_of_incomplete hcomplete).trans (Nat.zero_add _)
    rw [ih, hstop, List.drop_length]
    exact (if_neg hincomplete).symm.trans hvalue.symm
  case case22 s byte rest hphase => exact (foldlM_finished hphase _).symm
  all_goals simp_all [step, delimit, malformed, bail, bind, Except.bind, pure, Except.pure]

end ResponseScanner

/-! ## A response -/

/-- Chunks do what their bytes do, one after the other. -/
theorem foldlM_feed (s : ResponseScanner) (chunks : List (List UInt8)) :
    chunks.foldlM ResponseScanner.feed s = chunks.flatten.foldlM ResponseScanner.step s := by
  induction chunks generalizing s with
  | nil => rfl
  | cons chunk chunks ih =>
      rw [List.foldlM_cons, List.flatten_cons, List.foldlM_append, ResponseScanner.feed_eq]
      cases chunk.foldlM ResponseScanner.step s with
      | error e => rfl
      | ok s' => exact ih s'

section

variable {K : Type} (keccak256 : List UInt8 → K) (parseRpcError : List UInt8 → Option RpcError)

/-- A response is classified and digested alike however it is cut into chunks. -/
theorem digestResponse_chunks (chunks : List (List UInt8)) :
    digestResponse keccak256 parseRpcError chunks
      = digestResponse keccak256 parseRpcError [chunks.flatten] := by
  simp only [digestResponse, foldlM_feed]
  simp

end

end TxGen.CallReplay
