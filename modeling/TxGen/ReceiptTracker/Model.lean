import TxGen.Lib.System

set_option autoImplicit false

/-! # The receipt tracker

One scanner task observes the blocks of a chain for all transactions that are waited for. A caller
prepares (which starts the scanner, or joins it, and waits for its starting head), registers the hash
of its transaction, submits it, and awaits the verdict. The scanner reads the head, then the blocks
from its cursor on, and stops under the lock when nobody is interested.

Every section under the mutex is a step of its own, and a scanner step ends at every await; replies
of the query endpoint are in the labels. The endpoint may answer with any head that the chain has
had, with a block or its receipts, with nothing yet, or with an error; a scan that times out is one
that gets an error. Blocks are only appended. Block numbers and waiter numbers are natural numbers:
no chain and no run reaches the end of `u64`. -/

namespace TxGen

abbrev TxHash := BitVec 256

/-- The receipt of a transaction in the block `blockNumber`. -/
structure Receipt where
  transactionHash : TxHash
  blockNumber : ℕ
deriving DecidableEq

/-- What is sent to a waiter. -/
inductive Verdict
  | included (receipt : Option Receipt)
  | expired
  | failed (message : String)
deriving DecidableEq

/-- A registered waiter: its entry in `pending` and its number there. -/
structure Interest where
  id : ℕ
  hash : TxHash
  receipt : Bool
  expiresAt : Option ℕ
  /-- Registered before the transaction was submitted. No step reads this. -/
  early : Bool
deriving DecidableEq

structure Block where
  timestamp : ℕ
  hashes : List TxHash
deriving DecidableEq

/-- `eth_getBlockReceipts` of block `number`. -/
def Block.receipts (block : Block) (number : ℕ) : List Receipt :=
  block.hashes.map fun hash => ⟨hash, number⟩

/-- What a readiness channel holds: nothing yet, or the starting head is known, or why it never will
    be. -/
abbrev Ready := Option (Except String Unit)

/-- How far a call of `prepare` and the registration it returns have come. -/
inductive RegistrationStage
  /-- `prepare` waits for its readiness channel. -/
  | waiting
  | prepared
  /-- `register` is about to drop the registration. -/
  | dropping
  | gone
deriving DecidableEq

/-- An interest that is counted in `preparing`, and the readiness channel it subscribed to. -/
structure ReceiptRegistration where
  channel : ℕ
  stage : RegistrationStage := .waiting
deriving DecidableEq

/-- Where a scanner is. `number` is the block the loop of `scan` is at, `left` the iterations it still
    has after this one. -/
inductive ScanStage
  /-- At the top of `run`. -/
  | top
  /-- `get_block_number` -/
  | head
  /-- `get_block_by_number` -/
  | block (head number left : ℕ)
  /-- `get_block_receipts`; `seen` waiters were registered when the hashes were dispatched. -/
  | receipts (head number left seen : ℕ)
  /-- Before `expire`; `seen` as above. -/
  | expire (head number left seen : ℕ)
  | sleep
deriving DecidableEq

/-- A running `run` task. -/
structure Scanner where
  nextBlock : Option ℕ := none
  stage : ScanStage := .top
deriving DecidableEq

/-- The tracker, the tasks around it, the chain, and the history of its waiters. -/
structure ReceiptTracker where
  running : Bool := false
  preparing : ℕ := 0
  nextId : ℕ := 0
  /-- All readiness channels; the last one is `ready`. -/
  channels : List Ready := [none]
  /-- The entries of all hashes. The code never keeps an empty map under a hash, so that `pending` is
      empty exactly if there is no entry. -/
  pending : List Interest := []
  registrations : List ReceiptRegistration := []
  scanners : List Scanner := []
  chain : List Block := []
  submitted : Finset TxHash := ∅
  /-- Every waiter that was registered, under its number. -/
  waiters : List Interest := []
  /-- The verdicts sent. -/
  resolved : List (ℕ × Verdict) := []
  /-- Waiters that were dropped. -/
  dropped : List ℕ := []

/-- What a scanner's awaited call returns; `done` where it awaits none. -/
inductive Reply
  | done
  | head (head : ℕ)
  /-- The block, or its receipts. -/
  | found
  | missing
  /-- Any error but the next one, or the timeout of the scan. -/
  | failed
  /-- `-32601`, method not found -/
  | unsupported
deriving DecidableEq

def unsupportedMessage : String :=
  "inclusion observation requires eth_blockNumber and eth_getBlockByNumber (eth_getBlockReceipts for receipt dependencies) on the query endpoint"

namespace ReceiptTracker

/-- The readiness channel in the state. -/
def ready (s : ReceiptTracker) : Ready := (s.channels[s.channels.length - 1]?).getD none

def setReady (s : ReceiptTracker) (ready : Ready) : ReceiptTracker :=
  { s with channels := s.channels.set (s.channels.length - 1) ready }

/-- Take the interests that meet `p` out of `pending` and send each its verdict. -/
def resolve (s : ReceiptTracker) (p : Interest → Bool) (verdict : Verdict) : ReceiptTracker :=
  { s with
    pending := s.pending.filter fun e => !p e
    resolved := s.resolved ++ (s.pending.filter p).map fun e => (e.id, verdict) }

/-! ## Callers -/

/-- `prepare` up to its wait: join the running scanner or start one. -/
def prepare (s : ReceiptTracker) : ReceiptTracker :=
  let s :=
    if s.running then s
    else { s with running := true, channels := s.channels ++ [none], scanners := s.scanners ++ [{}] }
  { s with
    preparing := s.preparing + 1
    registrations := s.registrations ++ [{ channel := s.channels.length - 1 }] }

def setRegistration (s : ReceiptTracker) (i : ℕ) (r : ReceiptRegistration)
    (stage : RegistrationStage) : ReceiptTracker :=
  { s with registrations := s.registrations.set i { r with stage } }

/-- `register` under the lock: the waiter, unless the scanner has stopped or has no head yet. -/
def register (s : ReceiptTracker) (hash : TxHash) (receipt : Bool) (expiresAt : Option ℕ) :
    ReceiptTracker :=
  if !s.running || s.ready ≠ some (.ok ()) then s
  else
    let interest : Interest :=
      { id := s.nextId, hash, receipt, expiresAt, early := !decide (hash ∈ s.submitted) }
    { s with
      nextId := s.nextId + 1
      pending := s.pending ++ [interest]
      waiters := s.waiters ++ [interest] }

/-- The drop of waiter `id`. -/
def dropWaiter (s : ReceiptTracker) (id : ℕ) : ReceiptTracker :=
  { s with pending := s.pending.filter fun e => e.id ≠ id, dropped := s.dropped ++ [id] }

/-! ## The scanner -/

def dispatch (s : ReceiptTracker) (receipts : List Receipt) : ReceiptTracker :=
  receipts.foldl (fun s receipt =>
    s.resolve (fun e => e.hash = receipt.transactionHash) (.included (some receipt))) s

/-- Resolve hash-only observations and report whether included hashes need receipts. -/
def dispatchHashes (s : ReceiptTracker) : List TxHash → ReceiptTracker × Bool
  | [] => (s, false)
  | hash :: hashes =>
    let needsReceipts := s.pending.any fun e => e.hash = hash && e.receipt
    let (s, rest) :=
      (s.resolve (fun e => e.hash = hash && !e.receipt) (.included none)).dispatchHashes hashes
    (s, needsReceipts || rest)

def expire (s : ReceiptTracker) (timestamp : ℕ) : ReceiptTracker :=
  s.resolve (fun e => e.expiresAt.any (· ≤ timestamp)) .expired

def setScanner (s : ReceiptTracker) (i : ℕ) (scanner : Scanner) : ReceiptTracker :=
  { s with scanners := s.scanners.set i scanner }

/-- The head of the loop of `scan`. -/
def nextIteration (head number : ℕ) : ℕ → ScanStage
  | 0 => .sleep
  | left + 1 => if number > head then .sleep else .block head number left

/-- `stop_if_idle` at the top of `run`. -/
def stopIfIdle (s : ReceiptTracker) (i : ℕ) (scanner : Scanner) : ReceiptTracker :=
  if s.pending.isEmpty && s.preparing == 0 then
    { s with running := false, scanners := s.scanners.eraseIdx i }
  else s.setScanner i { scanner with stage := .head }

/-- The endpoint cannot serve the scanner: tell everyone and stop. -/
def giveUp (s : ReceiptTracker) (i : ℕ) : ReceiptTracker :=
  let s := (s.setReady (some (.error unsupportedMessage))).resolve (fun _ => true)
    (.failed unsupportedMessage)
  { s with running := false, scanners := s.scanners.eraseIdx i }

/-- `scan` after it has read the head. -/
def gotHead (s : ReceiptTracker) (i : ℕ) (scanner : Scanner) (head : ℕ) : ReceiptTracker :=
  match scanner.nextBlock with
  | none =>
    (s.setReady (some (.ok ()))).setScanner i { nextBlock := some (head + 1), stage := .sleep }
  | some number =>
    let number := if head + 1 < number then head + 1 else number
    s.setScanner i { nextBlock := some number, stage := nextIteration head number 64 }

/-- One step of scanner `i`. -/
def scan (s : ReceiptTracker) (i : ℕ) (scanner : Scanner) : Reply → Option ReceiptTracker
  | .done =>
    match scanner.stage with
    | .top => some (s.stopIfIdle i scanner)
    | .expire head number left _ =>
      match s.chain[number]? with
      | some block =>
        some ((s.expire block.timestamp).setScanner i
          { nextBlock := some (number + 1), stage := nextIteration head (number + 1) left })
      | none => none
    | .sleep => some (s.setScanner i { scanner with stage := .top })
    | _ => none
  | .head head =>
    match scanner.stage with
    | .head => if head < s.chain.length then some (s.gotHead i scanner head) else none
    | _ => none
  | .found =>
    match scanner.stage with
    | .block head number left =>
      match s.chain[number]? with
      | some block =>
        let (t, needsReceipts) := s.dispatchHashes block.hashes
        let stage :=
          if needsReceipts then .receipts head number left s.nextId
          else .expire head number left s.nextId
        some (t.setScanner i { scanner with stage })
      | none => none
    | .receipts head number left seen =>
      match s.chain[number]? with
      | some block =>
        some ((s.dispatch (block.receipts number)).setScanner i
          { scanner with stage := .expire head number left seen })
      | none => none
    | _ => none
  | .missing =>
    match scanner.stage with
    | .block .. | .receipts .. => some (s.setScanner i { scanner with stage := .sleep })
    | _ => none
  | .failed =>
    match scanner.stage with
    | .head | .block .. | .receipts .. => some (s.setScanner i { scanner with stage := .sleep })
    | _ => none
  | .unsupported =>
    match scanner.stage with
    | .head | .block .. | .receipts .. => some (s.giveUp i)
    | _ => none

/-! ## The chain -/

/-- `block` may come next: its time is not before that of the last block, and each of its transactions
    was submitted, is in no block yet, and has not expired. -/
def admissible (s : ReceiptTracker) (expiry : TxHash → Option ℕ) (block : Block) : Bool :=
  s.chain.all (·.timestamp ≤ block.timestamp) && decide block.hashes.Nodup &&
    block.hashes.all fun hash => decide (hash ∈ s.submitted) &&
      s.chain.all (fun b => !b.hashes.contains hash) &&
      (expiry hash).all (block.timestamp < ·)

/-- Who acts next. -/
inductive Label
  | prepare
  /-- The `i`-th `prepare` sees that its channel is ready. -/
  | prepared (i : ℕ)
  /-- The `i`-th registration is dropped: by `register`, by a `prepare` that fails, or unused. -/
  | dropRegistration (i : ℕ)
  /-- The `i`-th registration registers; with `watchExpiry` under the expiry of the transaction. -/
  | register (i : ℕ) (hash : TxHash) (receipt watchExpiry : Bool)
  | dropWaiter (id : ℕ)
  | scan (i : ℕ) (reply : Reply)
  | submit (hash : TxHash)
  | newBlock (block : Block)

/-- `expiry` is the time from which on a transaction cannot be included any more. -/
def step (expiry : TxHash → Option ℕ) (s : ReceiptTracker) : Label → Option ReceiptTracker
  | .prepare => some s.prepare
  | .prepared i =>
    match s.registrations[i]? with
    | some r =>
      if r.stage = .waiting && s.channels[r.channel]? = some (some (.ok ())) then
        some (s.setRegistration i r .prepared)
      else none
    | none => none
  | .dropRegistration i =>
    match s.registrations[i]? with
    | some r =>
      if r.stage = .gone then none
      else some { s.setRegistration i r .gone with preparing := s.preparing - 1 }
    | none => none
  | .register i hash receipt watchExpiry =>
    match s.registrations[i]? with
    | some r =>
      if r.stage = .prepared then
        some ((s.register hash receipt (if watchExpiry then expiry hash else none)).setRegistration
          i r .dropping)
      else none
    | none => none
  | .dropWaiter id =>
    if id < s.nextId && !s.dropped.contains id then some (s.dropWaiter id) else none
  | .scan i reply =>
    match s.scanners[i]? with
    | some scanner => s.scan i scanner reply
    | none => none
  | .submit hash => some { s with submitted := insert hash s.submitted }
  | .newBlock block =>
    if s.admissible expiry block then some { s with chain := s.chain ++ [block] } else none

end ReceiptTracker

/-- The tracker, its callers and the chain, under any interleaving. -/
def receiptTrackerSystem (expiry : TxHash → Option ℕ) :
    System ReceiptTracker ReceiptTracker.Label where
  init := {}
  step := ReceiptTracker.step expiry

end TxGen
