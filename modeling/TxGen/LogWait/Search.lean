import TxGen.Scenario.EventAssignment

set_option autoImplicit false

/-! # Searching for a log

`find_first_canonical_log` and the scan of the log hub ask a node for logs, one range of blocks after the
other. The node is known by its answers (`LogProvider`); loops that the code does not bound have fuel,
and are `none` when it is used up. -/

namespace TxGen

/-! ## Logs and filters -/

/-- A log of a mined block. -/
structure MinedLog (δ : Type) extends RpcLog δ where
  blockNumber : ℕ
  blockHash : BitVec 256
  transactionHash : BitVec 256
  logIndex : ℕ

/-- Any address or topic is accepted where none is listed. -/
structure LogFilter where
  fromBlock : ℕ
  toBlock : ℕ
  addresses : List Address := []
  topics : List (BitVec 256) := []
deriving DecidableEq

/-- The position of a log: its block, and its place there. -/
def MinedLog.key {δ : Type} (log : MinedLog δ) : ℕ ×ₗ ℕ := toLex (log.blockNumber, log.logIndex)

/-- A stable sort by position. -/
def sortLogs {δ : Type} (logs : List (MinedLog δ)) : List (MinedLog δ) :=
  logs.mergeSort fun a b => a.key ≤ b.key

/-- What a node answers. -/
structure LogProvider (m : Type → Type) (δ : Type) where
  canonicalBlockHash : ℕ → m (Option (BitVec 256))
  getLogs : LogFilter → m (List (MinedLog δ))

/-- What is waited for. There is no selector when the event is anonymous. -/
structure LogSearch (δ ν : Type) where
  matcher : EventMatcher δ ν
  selector : Option (BitVec 256)
  address : Option Address := none
  transactionHash : Option (BitVec 256) := none
  maxRange : ℕ

/-! ## Ranges -/

def u64Max : ℕ := 2 ^ 64 - 1

/-- `saturating_add` -/
def saturatingAdd (a b : ℕ) : ℕ := min (a + b) u64Max

def boundedRangeEnd (start through maxRange : ℕ) : ℕ :=
  min (saturatingAdd start (maxRange - 1)) through

section

variable {m : Type → Type} [Monad m] {δ ν : Type} [DecidableEq ν]

namespace LogSearch

variable (search : LogSearch δ ν)

def rpcFilter (first last : ℕ) : LogFilter where
  fromBlock := first
  toBlock := last
  addresses := search.address.toList
  topics := search.selector.toList

/-- The values of a log that matches. -/
def decodeMatch (log : MinedLog δ) : Except Report (Option (List ν)) :=
  if log.removed ∨ search.transactionHash.any (log.transactionHash ≠ ·) then .ok none
  else search.matcher.decodeIfMatches log.toRpcLog

/-- The first log that matches. -/
def firstMatch : List (MinedLog δ) → Except Report (Option (MinedLog δ × List ν))
  | [] => .ok none
  | log :: logs => do
    match ← search.decodeMatch log with
    | some decoded => return some (log, decoded)
    | none => firstMatch logs

variable [MonadLiftT (Except Report) m] (provider : LogProvider m δ)

/-- The inner loop of `find_first_canonical_log`. -/
def findRanges (through : ℕ) : ℕ → ℕ → m (Option (Option (MinedLog δ × List ν)))
  | 0, _ => return none
  | fuel + 1, cursor => do
    let last := boundedRangeEnd cursor through search.maxRange
    let logs ← provider.getLogs (search.rpcFilter cursor last)
    match ← (search.firstMatch (sortLogs logs) : Except Report _) with
    | some first => return some (some first)
    | none =>
      if last = through then return some none
      else findRanges through fuel (saturatingAdd last 1)

/-- The search is repeated until its last block is the same before and after it. -/
def findStable (start through : ℕ) : ℕ → m (Option (Option (MinedLog δ × List ν)))
  | 0 => return none
  | fuel + 1 => do
    match ← provider.canonicalBlockHash through with
    | none => return some none
    | some before =>
      match ← search.findRanges provider through (fuel + 1) start with
      | none => return none
      | some first =>
        if (← provider.canonicalBlockHash through) = some before then return some first
        else findStable start through fuel

def findFirstCanonicalLog (start through fuel : ℕ) : m (Option (Option (MinedLog δ × List ν))) :=
  if start > through then return some none else search.findStable provider start through fuel

end LogSearch

/-! ## The scan of the hub -/

/-- One consumer's standing interest in the shared scan. -/
structure LogInterest where
  topic0 : Option (BitVec 256)
  address : Option Address
  startBlock : ℕ
  maxBlockRange : ℕ
deriving DecidableEq

/-- The broadest filter still restrictive enough for every subscriber. -/
def unionFilter (interests : List LogInterest) (first last : ℕ) : LogFilter where
  fromBlock := first
  toBlock := last
  topics := if interests.all (·.topic0.isSome) then (interests.filterMap (·.topic0)).dedup else []
  addresses := if interests.all (·.address.isSome) then (interests.filterMap (·.address)).dedup else []

/-- The number of blocks in a query of the scan. -/
def scanChunk (interests : List LogInterest) : ℕ :=
  max (((interests.map (·.maxBlockRange)).min?).getD 0) 1

/-- The loop of `LogPollHub::scan`. -/
def scanRanges (provider : LogProvider m δ) (interests : List LogInterest) (head : ℕ) :
    ℕ → ℕ → List (MinedLog δ) → m (Option (List (MinedLog δ)))
  | 0, _, _ => return none
  | fuel + 1, cursor, logs => do
    if cursor ≤ head then
      let last := boundedRangeEnd cursor head (scanChunk interests)
      let found ← provider.getLogs (unionFilter interests cursor last)
      scanRanges provider interests head fuel (saturatingAdd last 1) (logs ++ found)
    else return some logs

end

end TxGen
