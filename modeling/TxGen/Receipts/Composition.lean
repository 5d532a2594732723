import TxGen.Core.GeneratedTx
import TxGen.Lib.OrderedMap
import TxGen.Scenario.Name

set_option autoImplicit false

/-! # Block receipts and their composition

After a run `BlockReceiptCollector` fetches the receipts of a range of blocks, which arrive in any order,
and joins them with the transactions that were tracked; `block_composition` counts them by block and by
input. `φ` is what a share of a total is computed in, the program's floating point numbers. -/

namespace TxGen

namespace Receipts

/-! ## Collecting receipts -/

/-- A receipt, with the gas fields of `RpcReceiptDetails`. -/
structure RpcReceiptDetails where
  txHash : BitVec 256
  sender : Address
  success : Bool
  blockNumber : Option ℕ
  blockHash : Option (BitVec 256)
  gasUsed : ℕ
  effectiveGasPrice : Option ℕ
deriving DecidableEq

/-- `BTreeMap<String, String>` -/
abbrev ReceiptMetricLabels := List (String × String)

/-- An accepted transaction that was registered. -/
structure ReceiptRequest where
  sender : Option Address
  txHash : BitVec 256
  labels : ReceiptMetricLabels
  scenarioInstance : Option ℕ
  submittedAtUnixMs : Option ℕ
deriving DecidableEq

def ReceiptRequest.dedupKey (request : ReceiptRequest) :
    BitVec 256 × ReceiptMetricLabels × Option ℕ :=
  (request.txHash, request.labels, request.scenarioInstance)

structure ReceiptGasRecord where
  txHash : BitVec 256
  sender : Option Address
  labels : ReceiptMetricLabels
  scenarioInstance : Option ℕ
  success : Bool
  blockNumber : Option ℕ
  blockHash : Option (BitVec 256)
  gasUsed : ℕ
  effectiveGasPrice : Option ℕ
  submittedAtUnixMs : Option ℕ
deriving DecidableEq

/-- The requests of each transaction that is still to be met. -/
abbrev Tracked := BitVec 256 → Option (List ReceiptRequest)

/-- Take the requests out of the channel, each key once. -/
def trackRequests (requests : List ReceiptRequest) : Tracked :=
  let track (state : List (BitVec 256 × ReceiptMetricLabels × Option ℕ) × Tracked)
      (request : ReceiptRequest) :=
    let (seen, tracked) := state
    if request.dedupKey ∈ seen then (seen, tracked)
    else (request.dedupKey :: seen,
      Function.update tracked request.txHash
        (some ((tracked request.txHash).getD [] ++ [request])))
  (requests.foldl track ([], fun _ => none)).2

/-- What stands for a transaction that was not tracked. -/
def untracked (txHash : BitVec 256) : ReceiptRequest := ⟨none, txHash, [], none, none⟩

def gasRecord (details : RpcReceiptDetails) (request : ReceiptRequest) : ReceiptGasRecord where
  txHash := details.txHash
  sender := request.sender.or (some details.sender)
  labels := request.labels
  scenarioInstance := request.scenarioInstance
  success := details.success
  blockNumber := details.blockNumber
  blockHash := details.blockHash
  gasUsed := details.gasUsed
  effectiveGasPrice := details.effectiveGasPrice
  submittedAtUnixMs := request.submittedAtUnixMs

/-- One record for each request of a transaction; a system transaction, which uses no gas, has none. -/
def takeRecords : Tracked → List RpcReceiptDetails → List ReceiptGasRecord × Tracked
  | tracked, [] => ([], tracked)
  | tracked, details :: rest =>
    if details.gasUsed = 0 then takeRecords tracked rest
    else
      let requests := (tracked details.txHash).getD [untracked details.txHash]
      let (records, tracked) := takeRecords (Function.update tracked details.txHash none) rest
      (requests.map (gasRecord details) ++ records, tracked)

/-- The loop of `collect_block_receipts`, over the blocks in the order in which their receipts arrive. -/
def collectArrived (fetchBlockReceipts : ℕ → Except Report (List RpcReceiptDetails)) :
    Tracked → List ℕ → Except Report (List ReceiptGasRecord)
  | _, [] => .ok []
  | tracked, number :: order => do
    let details ← fetchBlockReceipts number
    let (records, tracked) := takeRecords tracked details
    let rest ← collectArrived fetchBlockReceipts tracked order
    return records ++ rest

/-- `BlockReceiptCollector::finish`: the records of the blocks from the first to the last one. -/
def finish (fetchBlockReceipts : ℕ → Except Report (List RpcReceiptDetails))
    (requests : List ReceiptRequest) (startBlock endBlock : ℕ) (order : List ℕ) :
    Except Report (List ReceiptGasRecord) :=
  if endBlock < startBlock then .ok []
  else collectArrived fetchBlockReceipts (trackRequests requests) order

/-! ## Composition -/

/-- The fields of `BlockStats` that are compared. -/
structure BlockStats where
  number : ℕ
  gasUsed : ℕ
deriving DecidableEq

structure KindTotals where
  txCount : ℕ := 0
  gasUsed : ℕ := 0
  revertedTxCount : ℕ := 0
deriving DecidableEq

/-- `checked_add` of `U256` -/
def addGas (total gas : ℕ) : Except Report ℕ :=
  if total + gas < 2 ^ 256 then .ok (total + gas) else bail "composition gas total overflow"

def KindTotals.record (totals : KindTotals) (receipt : ReceiptGasRecord) : Except Report KindTotals := do
  let gasUsed ← addGas totals.gasUsed receipt.gasUsed
  return {
    txCount := totals.txCount + 1
    gasUsed
    revertedTxCount := totals.revertedTxCount + if receipt.success then 0 else 1 }

/-- The label that a transaction is counted under; a transaction without it comes first. -/
def ReceiptGasRecord.input (receipt : ReceiptGasRecord) : WithBot String := receipt.labels.lookup "input"

abbrev Kinds := OrderedMap (WithBot String) KindTotals

/-- `kinds.entry(input).or_default().record(receipt)` -/
def recordKind (kinds : Kinds) (receipt : ReceiptGasRecord) : Except Report Kinds := do
  let totals ← ((kinds.find? receipt.input).getD {}).record receipt
  return kinds.insert receipt.input totals

structure KindComposition (φ : Type) where
  input : WithBot String
  txCount : ℕ
  txCountPct : φ
  gasUsed : ℕ
  gasPct : φ
  revertedTxCount : ℕ

/-- `gasUsed` is printed in decimal. -/
structure TransactionComposition (φ : Type) where
  txCount : ℕ
  gasUsed : ℕ
  kinds : List (KindComposition φ)

structure BlockComposition (φ : Type) where
  blockNumber : ℕ
  composition : TransactionComposition φ

structure RunComposition (φ : Type) where
  blockCount : ℕ
  summary : TransactionComposition φ
  blocks : List (BlockComposition φ)

section

variable {φ : Type} (zero : φ) (percent : ℕ → ℕ → φ)

def summarize (kinds : Kinds) : Except Report (TransactionComposition φ) := do
  let txCount := (kinds.values.map (·.txCount)).sum
  let gasUsed ← (kinds.values.map (·.gasUsed)).foldlM addGas 0
  return {
    txCount
    gasUsed
    kinds := kinds.entries.map fun (input, kind) => {
      input
      txCount := kind.txCount
      txCountPct := if txCount = 0 then zero else percent kind.txCount txCount
      gasUsed := kind.gasUsed
      gasPct := if gasUsed = 0 then zero else percent kind.gasUsed gasUsed
      revertedTxCount := kind.revertedTxCount } }

/-- What `block_composition` accumulates over the receipts. -/
structure Tally where
  perBlock : OrderedMap ℕ Kinds
  summary : Kinds
  seen : List (BitVec 256)

def Tally.start (blocks : List BlockStats) : Tally where
  perBlock := OrderedMap.ofList (blocks.map fun block => (block.number, OrderedMap.empty))
  summary := OrderedMap.empty
  seen := []

/-- Count a transaction of a measured block the first time that it is seen. -/
def Tally.record (tally : Tally) (receipt : ReceiptGasRecord) : Except Report Tally :=
  if receipt.gasUsed = 0 then .ok tally
  else
    match receipt.blockNumber with
    | none => .ok tally
    | some number =>
      match tally.perBlock.find? number with
      | none => .ok tally
      | some kinds =>
        if receipt.txHash ∈ tally.seen then .ok tally
        else do
          let kinds ← recordKind kinds receipt
          let summary ← recordKind tally.summary receipt
          return {
            perBlock := tally.perBlock.insert number kinds
            summary
            seen := receipt.txHash :: tally.seen }

/-- The gas of the measured block of a number. -/
def expectedGas (blocks : List BlockStats) (number : ℕ) : ℕ :=
  ((OrderedMap.ofList (blocks.map fun block => (block.number, block.gasUsed))).find? number).getD 0

def checkGas (blocks : List BlockStats) (block : BlockComposition φ) : Except Report Unit :=
  bailIf (block.composition.gasUsed ≠ expectedGas blocks block.blockNumber)
    s!"receipt gas total does not match measured block {block.blockNumber}: {block.composition.gasUsed} != {expectedGas blocks block.blockNumber}"

/-- What is made of the tally. -/
def composeTally (blocks : List BlockStats) (tally : Tally) : Except Report (RunComposition φ) := do
  let compositions ← tally.perBlock.entries.mapM fun (blockNumber, kinds) => do
    let composition ← summarize zero percent kinds
    return { blockNumber, composition }
  compositions.forM (checkGas blocks)
  let summary ← summarize zero percent tally.summary
  return { blockCount := blocks.length, summary, blocks := compositions }

def blockComposition (receipts : List ReceiptGasRecord) (blocks : List BlockStats) :
    Except Report (RunComposition φ) := do
  let tally ← receipts.foldlM Tally.record (Tally.start blocks)
  composeTally zero percent blocks tally

end

end Receipts

end TxGen
