import TxGen.Scenario.Name

set_option autoImplicit false

/-! # Replaying blocks with side forks

`bench send-blocks --reorg`. The decoding of block RLP and what the node answers are given (`Replay`);
`H` are hashes, `R` raw block bytes and `B` block bodies. The calls to the node are recorded in the
order in which they are sent. -/

namespace TxGen.SendBlocks

/-! ## Blocks -/

/-- NDJSON line from the block source. -/
structure BlockLine (H R : Type) where
  raw : R
  bal : Option R := none
  key : H
  number : ℕ
  timestamp : ℕ

structure Header (H : Type) where
  parentHash : H
  parentBeaconBlockRoot : Option H := none

/-- Policy for when `reth_newPayload` should wait for persistence. -/
inductive WaitForPersistence
  | always
  | never
  | everyN (n : ℕ)

/-- Whether the request should wait for persistence for a block index. -/
def WaitForPersistence.shouldWait : WaitForPersistence → ℕ → Bool
  | .always, _ => true
  | .never, _ => false
  | .everyN n, index => (index + 1) % n = 0

def reorgNonBlobTxDropInterval : ℕ := 10

def isBlobTransaction (encoded : List UInt8) : Bool := encoded.head? = some 3

def shouldKeepReorgTransaction (nonBlobTxIndex : ℕ) : Bool :=
  nonBlobTxIndex % reorgNonBlobTxDropInterval ≠ 0

/-- The transactions to rebuild a block body on a synthetic fork: all but the blob transactions and
    every tenth of the others, which are counted from `nonBlobTxs`. -/
def extractReorgTransactions : ℕ → List (List UInt8) → List (List UInt8)
  | _, [] => []
  | nonBlobTxs, encoded :: rest =>
    if isBlobTransaction encoded then extractReorgTransactions nonBlobTxs rest
    else if shouldKeepReorgTransaction (nonBlobTxs + 1) then
      encoded :: extractReorgTransactions (nonBlobTxs + 1) rest
    else extractReorgTransactions (nonBlobTxs + 1) rest

/-! ## The schedule -/

structure ReorgState (H R : Type) where
  depth : ℕ
  gap : ℕ
  gapRemaining : ℕ := 0
  pending : List (BlockLine H R) := []

inductive ReorgAction (H R : Type)
  | pending
  | canonical (blocks : List (BlockLine H R))
  | batch (blocks : List (BlockLine H R))

namespace ReorgState

variable {H R : Type}

def push (state : ReorgState H R) (block : BlockLine H R) : ReorgAction H R × ReorgState H R :=
  if state.gapRemaining > 0 then
    (.canonical [block], { state with gapRemaining := state.gapRemaining - 1 })
  else
    let pending := state.pending ++ [block]
    if pending.length < state.depth then (.pending, { state with pending })
    else (.batch pending, { state with gapRemaining := state.gap, pending := [] })

def finish (state : ReorgState H R) : ReorgAction H R × ReorgState H R :=
  (.canonical state.pending, { state with pending := [] })

end ReorgState

/-! ## Calls to the node -/

structure ForkchoiceState (H : Type) where
  headBlockHash : H
  safeBlockHash : H
  finalizedBlockHash : H

structure PayloadAttributes (H : Type) where
  timestamp : ℕ
  parentBeaconBlockRoot : Option H

structure BuildBlockRequest (H : Type) where
  parentBlockHash : H
  payloadAttributes : PayloadAttributes H
  transactions : List (List UInt8)

/-- A built block; `payload` is whatever else the node says of it. -/
structure Envelope (H R : Type) where
  blockHash : H
  payload : R

inductive NewPayloadInput (H R : Type)
  | blockRlp (raw : R)
  | blockRlpWithBal (raw bal : R)
  /-- a built block; its root is the zero hash if there is none -/
  | executionData (envelope : Envelope H R) (parentBeaconBlockRoot : Option H)

def BlockLine.input {H R : Type} (block : BlockLine H R) : NewPayloadInput H R :=
  match block.bal with
  | some bal => .blockRlpWithBal block.raw bal
  | none => .blockRlp block.raw

/-- What a forkchoice update is for. -/
inductive UpdateKind
  /-- a block of a side fork -/
  | synthetic
  /-- an input block of a reorg batch -/
  | batch
  /-- an input block that is submitted without anchor -/
  | single
deriving DecidableEq

inductive Call (H R : Type)
  /-- `testing_buildBlockV1`, with its answer. -/
  | buildBlock (request : BuildBlockRequest H) (answer : Except Report (Envelope H R))
  | newPayload (input : NewPayloadInput H R) (waitForPersistence : Bool)
  /-- `reth_forkchoiceUpdated`; the kind is not part of the request. -/
  | forkchoiceUpdated (state : ForkchoiceState H) (kind : UpdateKind)

/-- What a run is given. An answer of the node may depend on all calls before. -/
structure Replay (H R B : Type) where
  splitBlockRlp : R → Except Report (Header H × B)
  extractEncodedTxsFromBody : B → Except Report (List (List UInt8))
  persistencePolicy : WaitForPersistence
  buildBlock : List (Call H R) → BuildBlockRequest H → Except Report (Envelope H R)
  /-- whether the status is VALID -/
  newPayload : List (Call H R) → NewPayloadInput H R → Except Report Bool
  forkchoiceUpdated : List (Call H R) → ForkchoiceState H → Except Report Bool
  onProgress : List (Call H R) → Except Report Unit

/-- `collector` and `reorg_state`, with the calls made so far. -/
structure Sender (H R : Type) where
  reorg : ReorgState H R
  prevBlockHash : Option H := none
  finalizedHash : Option H := none
  blocksSubmitted : ℕ := 0
  calls : List (Call H R) := []

/-! ## The run -/

namespace Replay

variable {H R B : Type} (env : Replay H R B)

abbrev Run (H R α : Type) := EStateM Report (Sender H R) α

def record (call : Call H R) : Run H R PUnit :=
  modify fun s => { s with calls := s.calls ++ [call] }

/-- Send `reth_newPayload` and then `reth_forkchoiceUpdated`; both must be VALID. -/
def submit (input : NewPayloadInput H R) (wait : Bool) (forkchoice : ForkchoiceState H)
    (kind : UpdateKind) (label : String) : Run H R PUnit := do
  let s ← get
  record (.newPayload input wait)
  let valid ← liftExcept <| wrapErr (env.newPayload s.calls input)
    s!"reth_newPayload failed for {label}"
  liftExcept (bailIf (valid = false) s!"reth_newPayload returned non-VALID status for {label}")
  let s ← get
  record (.forkchoiceUpdated forkchoice kind)
  let valid ← liftExcept <| wrapErr (env.forkchoiceUpdated s.calls forkchoice)
    s!"reth_forkchoiceUpdated failed for {label}"
  liftExcept (bailIf (valid = false)
    s!"reth_forkchoiceUpdated returned non-VALID status for {label}")

/-- The safe and the finalized block of a canonical block: the anchor, or else the previous block and
    the last checkpoint, which the previous block becomes where there is none. -/
def checkpoints (anchor : Option H) (block : BlockLine H R) (s : Sender H R) :
    (H × H) × Sender H R :=
  match anchor with
  | some anchor => ((anchor, anchor), s)
  | none =>
    let safe := s.prevBlockHash.getD block.key
    let finalized := s.finalizedHash.getD safe
    ((safe, finalized), { s with finalizedHash := some finalized })

/-- `record_success`; every 32nd block is a checkpoint. -/
def recordSuccess (block : BlockLine H R) (s : Sender H R) : Sender H R :=
  { s with
    prevBlockHash := some block.key
    finalizedHash := if block.number % 32 = 0 then some block.key else s.finalizedHash
    blocksSubmitted := s.blocksSubmitted + 1 }

/-- `process_block`, and the progress report after it. -/
def processBlock (anchor : Option H) (block : BlockLine H R) : Run H R PUnit := do
  let s ← get
  let chosen := checkpoints anchor block s
  set chosen.2
  env.submit block.input (env.persistencePolicy.shouldWait s.blocksSubmitted)
    ⟨block.key, chosen.1.1, chosen.1.2⟩ (if anchor.isSome then .batch else .single)
    s!"block {block.number}"
  modify (recordSuccess block)
  let s ← get
  liftExcept (env.onProgress s.calls)

/-- The request for a block of a side fork. -/
def buildRequest (block : BlockLine H R) (parentBlockHash : H) :
    Except Report (BuildBlockRequest H) := do
  let (header, body) ← wrapErr (env.splitBlockRlp block.raw)
    s!"failed to decode block {block.number}"
  let encoded ← wrapErr (env.extractEncodedTxsFromBody body)
    s!"failed to extract raw transaction bytes from block {block.number}"
  return {
    parentBlockHash
    payloadAttributes :=
      { timestamp := block.timestamp, parentBeaconBlockRoot := header.parentBeaconBlockRoot }
    transactions := extractReorgTransactions 0 encoded }

/-- Build a block of a side fork and make it the head; returns its hash. -/
def processSyntheticBlock (branchPointHash : H) (parentBlockHash : H)
    (indexed : BlockLine H R × ℕ) : Run H R H := do
  let (block, index) := indexed
  let request ← liftExcept (env.buildRequest block parentBlockHash)
  let s ← get
  let answer := env.buildBlock s.calls request
  record (.buildBlock request answer)
  let envelope ← liftExcept <| wrapErr answer s!"testing_buildBlockV1 failed for block {block.number}"
  env.submit (.executionData envelope request.payloadAttributes.parentBeaconBlockRoot)
    (env.persistencePolicy.shouldWait (s.blocksSubmitted + index))
    ⟨envelope.blockHash, branchPointHash, branchPointHash⟩ .synthetic
    s!"synthetic fork block after block {block.number}"
  return envelope.blockHash

/-- The parent of the first block. A batch is not empty. -/
def branchPoint : List (BlockLine H R) → Except Report H
  | [] => bail "reorg batch must not be empty"
  | first :: _ => do
    let (header, _) ← wrapErr (env.splitBlockRlp first.raw)
      s!"failed to extract parent hash from block {first.number}"
    return header.parentHash

def processReorgAction : ReorgAction H R → Run H R PUnit
  | .pending => pure ⟨⟩
  | .canonical blocks => blocks.forM (env.processBlock none)
  | .batch blocks => do
    let anchor ← liftExcept (env.branchPoint blocks)
    let _ ← blocks.zipIdx.foldlM (env.processSyntheticBlock anchor) anchor
    blocks.forM (env.processBlock (some anchor))

/-- The action that the schedule decides on, and its processing. -/
def processScheduled (schedule : ReorgState H R → ReorgAction H R × ReorgState H R) :
    Run H R PUnit := do
  let s ← get
  set { s with reorg := (schedule s.reorg).2 }
  env.processReorgAction (schedule s.reorg).1

/-- Every line of the input, and what is pending at its end. -/
def execute (blocks : List (BlockLine H R)) : Run H R PUnit := do
  blocks.forM fun block => env.processScheduled (·.push block)
  env.processScheduled (·.finish)

/-- The run from its start: its result and where it leaves the sender. -/
def run (depth gap : ℕ) (blocks : List (BlockLine H R)) : Except Report PUnit × Sender H R :=
  match env.execute blocks { reorg := { depth, gap } } with
  | .ok a s => (.ok a, s)
  | .error e s => (.error e, s)

end Replay

end TxGen.SendBlocks
