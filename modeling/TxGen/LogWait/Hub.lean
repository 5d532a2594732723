import TxGen.Lib.Forks
import TxGen.Lib.System
import TxGen.LogWait.Ranges

set_option autoImplicit false

/-! # The log hub of a chain

All waits for logs of a chain share one scanner, which asks for the recent blocks with a filter that is
broad enough for every wait and publishes what it got on a watch channel. A label of the system is one
request to the node, or one lock of the registry; the canonical chain may change between any two of them.

The fields `history`, `commits` and `received` are not in the code: they say which chains were canonical,
on which of them the windows were committed, and what each subscriber was given. -/

namespace TxGen

namespace LogHub

/-! ## The chain of a node -/

structure Block (δ : Type) where
  hash : BitVec 256
  logs : List (MinedLog δ)

abbrev Chain (δ : Type) : Type := List (Block δ)

/-- `canonical_block_hash` -/
def blockHash {δ : Type} (chain : Chain δ) (number : ℕ) : Option (BitVec 256) :=
  hashAt Block.hash chain number

def blockNumber {δ : Type} (chain : Chain δ) : ℕ := chain.length - 1

/-- The logs that a node on the chain gives. -/
def getLogs {δ : Type} (firstTopic : δ → Option (BitVec 256)) (chain : Chain δ) (filter : LogFilter) :
    List (MinedLog δ) :=
  (chain.flatMap (·.logs)).filter (filter.accepts firstTopic)

/-! ## The hub -/

inductive SubscriptionBehavior
  | disabled
  | prefer
  | require
deriving DecidableEq

/-- One committed scan of the recent-block window. -/
structure LogWindow (δ : Type) where
  epoch : ℕ
  head : ℕ
  coverageStart : ℕ
  logs : List (MinedLog δ)

structure WindowUpdate (δ : Type) where
  generation : ℕ
  result : Except String (LogWindow δ)

structure HubState where
  nextId : ℕ := 0
  generation : ℕ := 0
  running : Bool := false
  interests : List (ℕ × LogInterest) := []

structure TickPlan where
  generation : ℕ
  interests : List LogInterest

/-- Where the scanner task is. -/
inductive Stage (δ : Type)
  | ticking
  | subscribing (plan : TickPlan)
  | head (plan : TickPlan)
  | headHash (plan : TickPlan) (head : ℕ)
  | checkpoint (plan : TickPlan) (head : ℕ) (headHash : BitVec 256)
  | logs (plan : TickPlan) (head : ℕ) (headHash : BitVec 256) (coverageStart cursor : ℕ)
      (logs : List (MinedLog δ))
  | waiting

/-- The local variables of `LogPollHub::run`. -/
structure Scanner (δ : Type) where
  checkpoint : Option (ℕ × BitVec 256) := none
  epoch : ℕ := 0
  consecutiveScanFailures : ℕ := 0
  subscriptionInitialized : Bool
  stage : Stage δ := .ticking
  commits : List (LogWindow δ × Chain δ) := []

/-- A registered consumer's live view of the shared scanner. -/
structure LogWindowSubscription (δ : Type) where
  id : ℕ
  generation : ℕ
  interest : LogInterest
  seen : ℕ
  received : List (LogWindow δ) := []

structure LogPollHub (δ : Type) where
  chain : Chain δ
  history : List (Chain δ)
  state : HubState := {}
  scanners : List (Scanner δ) := []
  version : ℕ := 0
  update : Option (WindowUpdate δ) := none
  subscriptions : List (LogWindowSubscription δ) := []

def recentLogRescanBlocks : ℕ := 64

def scanRetryAttempts : ℕ := 5

variable {δ : Type}

namespace LogPollHub

variable (behavior : SubscriptionBehavior) (firstTopic : δ → Option (BitVec 256)) (s : LogPollHub δ)

def subscribe (interest : LogInterest) : LogPollHub δ :=
  let generation := s.state.generation + 1
  let id := s.state.nextId + 1
  { s with
    state := { nextId := id, generation, running := true, interests := s.state.interests ++ [(id, interest)] }
    scanners := if s.state.running then s.scanners
      else s.scanners ++ [{ subscriptionInitialized := behavior = .disabled }]
    subscriptions := s.subscriptions ++ [{ id, generation, interest, seen := s.version }] }

/-- `Drop for LogWindowSubscription` -/
def drop (id : ℕ) : LogPollHub δ :=
  { s with
    state := { s.state with
      generation := s.state.generation + 1
      interests := s.state.interests.filter fun interest => interest.1 ≠ id }
    subscriptions := s.subscriptions.filter fun subscription => subscription.id ≠ id }

/-- `watch::Sender::send`, which keeps nothing when there is no receiver. -/
def send (generation : ℕ) (result : Except String (LogWindow δ)) : LogPollHub δ :=
  if s.subscriptions = [] then s
  else { s with version := s.version + 1, update := some { generation, result } }

def setScanner (i : ℕ) (scanner : Scanner δ) : LogPollHub δ :=
  { s with scanners := s.scanners.set i scanner }

/-- `tick_plan` -/
def tickPlan (i : ℕ) (scanner : Scanner δ) : LogPollHub δ :=
  if s.state.interests = [] then
    { s with state := { s.state with running := false }, scanners := s.scanners.eraseIdx i }
  else
    let plan := { generation := s.state.generation, interests := s.state.interests.map (·.2) }
    s.setScanner i { scanner with
      stage := if scanner.subscriptionInitialized then .head plan else .subscribing plan }

def subscribeWake (i : ℕ) (scanner : Scanner δ) (plan : TickPlan) (failure : Option String) :
    LogPollHub δ :=
  match failure with
  | none => s.setScanner i { scanner with subscriptionInitialized := true, stage := .head plan }
  | some message =>
    if behavior = .require then
      (s.send plan.generation (.error message)).setScanner i { scanner with stage := .waiting }
    else s.setScanner i { scanner with subscriptionInitialized := true, stage := .head plan }

/-- A request of the scan failed: the error is published when the retries are used up. -/
def scanFailed (i : ℕ) (scanner : Scanner δ) (plan : TickPlan) (message : String) : LogPollHub δ :=
  if scanner.consecutiveScanFailures + 1 ≥ scanRetryAttempts then
    (s.send plan.generation (.error message)).setScanner i
      { scanner with consecutiveScanFailures := 0, stage := .waiting }
  else
    s.setScanner i { scanner with
      consecutiveScanFailures := scanner.consecutiveScanFailures + 1, stage := .waiting }

/-- The chain was unstable: nothing is published. -/
def scanSkipped (i : ℕ) (scanner : Scanner δ) : LogPollHub δ :=
  s.setScanner i { scanner with consecutiveScanFailures := 0, stage := .waiting }

end LogPollHub

def coverageStart (plan : TickPlan) (head : ℕ) : ℕ :=
  max (head - (recentLogRescanBlocks - 1)) (((plan.interests.map (·.startBlock)).min?).getD 0)

/-- Scanned history may have changed. -/
def Scanner.invalidate (scanner : Scanner δ) : Scanner δ :=
  { scanner with checkpoint := none, epoch := scanner.epoch + 1 }

def Scanner.startLogs (scanner : Scanner δ) (plan : TickPlan) (head : ℕ) (headHash : BitVec 256) :
    Scanner δ :=
  { scanner with
    stage := .logs plan head headHash (coverageStart plan head) (coverageStart plan head) [] }

namespace LogPollHub

variable (behavior : SubscriptionBehavior) (firstTopic : δ → Option (BitVec 256)) (s : LogPollHub δ)

/-- The last block of the latest window is still canonical, or the epoch ends. -/
def compareCheckpoint (i : ℕ) (scanner : Scanner δ) (plan : TickPlan) (head : ℕ) (headHash : BitVec 256)
    (failure : Option String) : LogPollHub δ :=
  match scanner.checkpoint with
  | none => s.setScanner i (scanner.startLogs plan head headHash)
  | some (number, hash) =>
    if number = head then
      if headHash = hash then s.setScanner i (scanner.startLogs plan head headHash)
      else s.setScanner i (scanner.invalidate.startLogs plan head headHash)
    else if number < head then
      match failure with
      | some message => s.scanFailed i scanner plan message
      | none =>
        if blockHash s.chain number = some hash then
          s.setScanner i (scanner.startLogs plan head headHash)
        else s.setScanner i (scanner.invalidate.startLogs plan head headHash)
    else s.setScanner i (scanner.invalidate.startLogs plan head headHash)

/-- Commit only if the head block is unchanged across the scan. -/
def commit (i : ℕ) (scanner : Scanner δ) (plan : TickPlan) (head : ℕ) (headHash : BitVec 256)
    (coverageStart : ℕ) (logs : List (MinedLog δ)) : LogPollHub δ :=
  if blockHash s.chain head = some headHash then
    let window := { epoch := scanner.epoch, head, coverageStart, logs := sortLogs logs }
    (s.send plan.generation (.ok window)).setScanner i { scanner with
      checkpoint := some (head, headHash)
      consecutiveScanFailures := 0
      stage := .waiting
      commits := scanner.commits ++ [(window, s.chain)] }
  else s.scanSkipped i scanner.invalidate

/-- The next step of the `i`-th scanner task, whose request fails or not. -/
def scan (i : ℕ) (scanner : Scanner δ) (failure : Option String) : LogPollHub δ :=
  match scanner.stage, failure with
  | .ticking, _ => s.tickPlan i scanner
  | .subscribing plan, failure => s.subscribeWake behavior i scanner plan failure
  | .head plan, none => s.setScanner i { scanner with stage := .headHash plan (blockNumber s.chain) }
  | .headHash plan head, none =>
    match blockHash s.chain head with
    | none => s.scanSkipped i scanner
    | some headHash => s.setScanner i { scanner with stage := .checkpoint plan head headHash }
  | .checkpoint plan head headHash, failure => s.compareCheckpoint i scanner plan head headHash failure
  | .logs plan head headHash coverageStart cursor logs, none =>
    if cursor ≤ head then
      let last := boundedRangeEnd cursor head (scanChunk plan.interests)
      let found := getLogs firstTopic s.chain (unionFilter plan.interests cursor last)
      s.setScanner i { scanner with
        stage := .logs plan head headHash coverageStart (saturatingAdd last 1) (logs ++ found) }
    else s.commit i scanner plan head headHash coverageStart logs
  | .head plan, some message => s.scanFailed i scanner plan message
  | .headHash plan _, some message => s.scanFailed i scanner plan message
  | .logs plan _ _ _ _ _, some message => s.scanFailed i scanner plan message
  | .waiting, _ => s.setScanner i { scanner with stage := .ticking }

/-- The subscriptions with the ID change. -/
def modify (id : ℕ) (f : LogWindowSubscription δ → LogWindowSubscription δ) : LogPollHub δ :=
  { s with subscriptions := s.subscriptions.map fun x => if x.id = id then f x else x }

/-- One turn of `next_window`, when the channel has changed: the window or error that it returns, if any. -/
def receive (id : ℕ) : Option (LogPollHub δ × Option (Except String (LogWindow δ))) := do
  let subscription ← s.subscriptions.find? fun x => x.id = id
  if s.version = subscription.seen then none
  else
    let seen := s.modify id fun x => { x with seen := s.version }
    match s.update with
    | none => return (seen, none)
    | some update =>
      match update.result with
      | .error message => return (seen, some (.error message))
      | .ok window =>
        if subscription.generation ≤ update.generation then
          return (s.modify id fun x => { x with seen := s.version, received := x.received ++ [window] },
            some (.ok window))
        else return (seen, none)

end LogPollHub

inductive Label (δ : Type)
  | evolve (chain : Chain δ)
  | subscribe (interest : LogInterest)
  | scan (i : ℕ) (failure : Option String)
  | receive (id : ℕ)
  /-- `wait_for_head` looks at the channel. -/
  | observe (id : ℕ)
  | drop (id : ℕ)

def LogPollHub.step (behavior : SubscriptionBehavior) (firstTopic : δ → Option (BitVec 256))
    (s : LogPollHub δ) : Label δ → Option (LogPollHub δ)
  | .evolve chain => some { s with chain, history := s.history ++ [chain] }
  | .subscribe interest => some (s.subscribe behavior interest)
  | .scan i failure => s.scanners[i]?.map fun scanner => s.scan behavior firstTopic i scanner failure
  | .receive id => (s.receive id).map Prod.fst
  | .observe id => some (s.modify id fun x => { x with seen := s.version })
  | .drop id => if s.subscriptions.any fun x => x.id = id then some (s.drop id) else none

def hubSystem (behavior : SubscriptionBehavior) (firstTopic : δ → Option (BitVec 256))
    (chain : Chain δ) : System (LogPollHub δ) (Label δ) where
  init := { chain, history := [chain] }
  step := LogPollHub.step behavior firstTopic

end LogHub

/-- `LogInterest::matches` -/
def LogInterest.matchesLog {δ : Type} (firstTopic : δ → Option (BitVec 256)) (interest : LogInterest)
    (log : MinedLog δ) : Bool :=
  interest.startBlock ≤ log.blockNumber && interest.address.all (log.address = ·) &&
    interest.topic0.all (firstTopic log.data = some ·)

end TxGen
