import TxGen.Scenario.Name

set_option autoImplicit false

/-! # Scanning a response

`ResponseScanner` of `bench-core`'s `call.rs`. The body of a response is scanned as it arrives: the
bytes of the top-level `result` are hashed and those of the top-level `error` are kept, up to a cap.
A hasher is the bytes it has absorbed, and `K` are the digests. -/

namespace TxGen.CallReplay

/-- Maximum bytes of a JSON-RPC `error` member retained for digesting. -/
def maxErrorCapture : ℕ := 64 * 1024

/-- Maximum length of a member key tracked while scanning a response. -/
def maxKeyLen : ℕ := 32

/-- `b'c'` -/
def ascii (c : Char) : UInt8 := UInt8.ofNat c.toNat

/-- `u8::is_ascii_whitespace` -/
def isAsciiWhitespace (byte : UInt8) : Bool := byte ∈ [0x20, 0x09, 0x0a, 0x0c, 0x0d]

/-! ## Values -/

/-- Incremental scan of one JSON value. -/
structure ValueScan where
  depth : ℕ := 0
  inString : Bool := false
  escaped : Bool := false
  /-- Scanning a bare literal (number, `true`, `false`, `null`). -/
  literal : Bool := false
  started : Bool := false
deriving DecidableEq

/-- How far a `ValueScan` got through one chunk. -/
structure ValueProgress where
  /-- Leading whitespace bytes, which are not part of the value. -/
  skipped : ℕ
  /-- Bytes of the chunk belonging to this member, including the whitespace. -/
  stop : ℕ
  complete : Bool

namespace ValueScan

/-- The first byte of a value -/
def start (byte : UInt8) : ValueScan :=
  if byte = ascii '{' ∨ byte = ascii '[' then { started := true, depth := 1 }
  else if byte = ascii '"' then { started := true, inString := true }
  else { started := true, literal := true }

/-- A literal ends at the first byte that cannot belong to it. -/
def endsLiteral (byte : UInt8) : Bool :=
  isAsciiWhitespace byte || byte = ascii ',' || byte = ascii '}' || byte = ascii ']'

/-- The loop of `feed`, at `index` and with the whitespace counted so far. -/
def feedFrom (index skipped : ℕ) : ValueScan → List UInt8 → ValueProgress × ValueScan
  | scan, [] => (⟨skipped, index, false⟩, scan)
  | scan, byte :: rest =>
    if ¬ scan.started then
      if isAsciiWhitespace byte then feedFrom (index + 1) (skipped + 1) scan rest
      else feedFrom (index + 1) skipped (start byte) rest
    else if scan.inString then
      if scan.escaped then feedFrom (index + 1) skipped { scan with escaped := false } rest
      else if byte = ascii '\\' then feedFrom (index + 1) skipped { scan with escaped := true } rest
      else if byte = ascii '"' then
        if scan.depth = 0 then (⟨skipped, index + 1, true⟩, { scan with inString := false })
        else feedFrom (index + 1) skipped { scan with inString := false } rest
      else feedFrom (index + 1) skipped scan rest
    else if scan.literal then
      if endsLiteral byte then (⟨skipped, index, true⟩, scan)
      else feedFrom (index + 1) skipped scan rest
    else if byte = ascii '"' then feedFrom (index + 1) skipped { scan with inString := true } rest
    else if byte = ascii '{' ∨ byte = ascii '[' then
      feedFrom (index + 1) skipped { scan with depth := scan.depth + 1 } rest
    else if byte = ascii '}' ∨ byte = ascii ']' then
      if scan.depth - 1 = 0 then (⟨skipped, index + 1, true⟩, { scan with depth := scan.depth - 1 })
      else feedFrom (index + 1) skipped { scan with depth := scan.depth - 1 } rest
    else feedFrom (index + 1) skipped scan rest

def feed (scan : ValueScan) (chunk : List UInt8) : ValueProgress × ValueScan := feedFrom 0 0 scan chunk

/-- A value that does not end in the chunk takes all of it. -/
theorem stop_of_incomplete {index skipped : ℕ} {scan : ValueScan} {chunk : List UInt8}
    (h : (feedFrom index skipped scan chunk).1.complete = false) :
    (feedFrom index skipped scan chunk).1.stop = index + chunk.length := by
  induction chunk generalizing index skipped scan with
  | nil => rfl
  | cons byte rest ih =>
      rw [feedFrom] at h ⊢
      simp only [List.length_cons]
      split_ifs at h ⊢ <;> first | cases h | (rw [ih h]; omega)

end ValueScan

/-! ## Responses -/

inductive Phase
  | beforeObject
  | beforeKey
  | inKey (escaped : Bool)
  | beforeColon
  | inValue
  | afterValue
  | finished
deriving DecidableEq

inductive Member
  | result
  | error
  | other
deriving DecidableEq

/-- The bytes of `b"text"` -/
def bytesOf (text : String) : List UInt8 := text.toList.map ascii

/-- A key is the bytes that were pushed, each as the character of that code. -/
def Member.classify (key : List UInt8) (overflow : Bool) : Member :=
  if overflow then .other
  else if key = bytesOf "result" then .result
  else if key = bytesOf "error" then .error
  else .other

/-- `String::len` of the pushed characters, which take two bytes from 128 on. -/
def keyLen (key : List UInt8) : ℕ := (key.map fun byte => if byte.toNat < 128 then 1 else 2).sum

/-- A hash under way, and the number of bytes it has absorbed. -/
structure Digested where
  hasher : List UInt8 := []
  len : ℕ := 0
deriving DecidableEq

structure ResponseScanner where
  phase : Phase := .beforeObject
  key : List UInt8 := []
  keyOverflow : Bool := false
  value : ValueScan := {}
  member : Member := .other
  result : Option Digested := none
  error : Option (List UInt8) := none
deriving DecidableEq

inductive ResponseKind
  | ok
  | rpcError
deriving DecidableEq

/-- The classification and digest of one replayed response. -/
structure ResponseSummary (K : Type) where
  kind : ResponseKind
  digest : K
  len : ℕ
deriving DecidableEq

namespace ResponseScanner

def pushKey (s : ResponseScanner) (byte : UInt8) : ResponseScanner :=
  if maxKeyLen ≤ keyLen s.key then { s with keyOverflow := true } else { s with key := s.key ++ [byte] }

def startMember (s : ResponseScanner) : ResponseScanner :=
  match s.member with
  | .result => { s with result := some {} }
  | .error => { s with error := some [] }
  | .other => s

def consumeMember (s : ResponseScanner) (bytes : List UInt8) : ResponseScanner :=
  match s.member with
  | .result => { s with
      result := s.result.map fun d => ⟨d.hasher ++ bytes, d.len + bytes.length⟩ }
  | .error => { s with
      error := s.error.map fun error =>
        error ++ bytes.take (min bytes.length (maxErrorCapture - error.length)) }
  | .other => s

@[simp] theorem phase_consumeMember (s : ResponseScanner) (bytes : List UInt8) :
    (s.consumeMember bytes).phase = s.phase := by
  unfold consumeMember
  split <;> rfl

def finishMember (s : ResponseScanner) : ResponseScanner := { s with member := .other }

/-- The byte `}` or whitespace or a comma between members -/
def malformed : Except Report ResponseScanner := bail "malformed response object"

/-- Feed the next chunk of the response body. -/
def feed (s : ResponseScanner) (chunk : List UInt8) : Except Report ResponseScanner :=
  match chunk with
  | [] => .ok s
  | byte :: rest =>
    match hphase : s.phase with
    | .beforeObject =>
      if byte = ascii '{' then feed { s with phase := .beforeKey } rest
      else if isAsciiWhitespace byte then feed s rest
      else bail "response is not a JSON object"
    | .beforeKey =>
      if byte = ascii '"' then
        feed { s with key := [], keyOverflow := false, phase := .inKey false } rest
      else if byte = ascii '}' then feed { s with phase := .finished } rest
      else if byte = ascii ',' ∨ isAsciiWhitespace byte then feed s rest
      else malformed
    | .inKey true => feed { s.pushKey byte with phase := .inKey false } rest
    | .inKey false =>
      if byte = ascii '\\' then feed { s with phase := .inKey true } rest
      else if byte = ascii '"' then
        feed { s with member := .classify s.key s.keyOverflow, phase := .beforeColon } rest
      else feed { s.pushKey byte with phase := .inKey false } rest
    | .beforeColon =>
      if byte = ascii ':' then feed { { s with value := {} }.startMember with phase := .inValue } rest
      else if isAsciiWhitespace byte then feed s rest
      else malformed
    | .inValue =>
      let progress := (s.value.feed (byte :: rest)).1
      let scanned := { s with value := (s.value.feed (byte :: rest)).2 }.consumeMember
        (((byte :: rest).take progress.stop).drop progress.skipped)
      if hcomplete : progress.complete then
        feed { scanned.finishMember with phase := .afterValue } ((byte :: rest).drop progress.stop)
      else feed scanned ((byte :: rest).drop progress.stop)
    | .afterValue =>
      if byte = ascii ',' then feed { s with phase := .beforeKey } rest
      else if byte = ascii '}' then feed { s with phase := .finished } rest
      else if isAsciiWhitespace byte then feed s rest
      else malformed
    | .finished => .ok s
termination_by 2 * chunk.length + if s.phase = .inValue then 1 else 0
decreasing_by
  all_goals simp only [List.length_cons, List.length_drop, phase_consumeMember, hphase, reduceCtorEq,
    if_true, if_false]
  all_goals try omega
  · have hincomplete : (s.value.feed (byte :: rest)).1.complete = false := by
      simpa using hcomplete
    have hstop := ValueScan.stop_of_incomplete hincomplete
    simp only [ValueScan.feed, List.length_cons] at hstop ⊢
    omega

end ResponseScanner

structure RpcError where
  code : ℤ
  message : List UInt8

section Digest

variable {K : Type} (keccak256 : List UInt8 → K) (parseRpcError : List UInt8 → Option RpcError)

/-- The digest of an error covers its code and message, and the raw bytes if they are not an error
    object. -/
def digestRpcError (error : List UInt8) : ResponseSummary K :=
  let digested := match parseRpcError error with
    | some rpcError => bytesOf (toString rpcError.code) ++ bytesOf "\n" ++ rpcError.message
    | none => error
  ⟨.rpcError, keccak256 digested, digested.length⟩

/-- Classify and digest the scanned response. -/
def ResponseScanner.finish (s : ResponseScanner) : Except Report (ResponseSummary K) :=
  if s.phase ≠ .finished then bail "response body ended before the JSON-RPC object closed"
  else match s.error with
    | some error => .ok (digestRpcError keccak256 parseRpcError error)
    | none =>
      match s.result with
      | none => bail "response carried neither a result nor an error"
      | some result => .ok ⟨.ok, keccak256 result.hasher, result.len⟩

/-- Digest the body of a response, fed in chunks as they arrive. -/
def digestResponse (chunks : List (List UInt8)) : Except Report (ResponseSummary K) := do
  let scanner ← chunks.foldlM ResponseScanner.feed {}
  scanner.finish keccak256 parseRpcError

end Digest

end TxGen.CallReplay
