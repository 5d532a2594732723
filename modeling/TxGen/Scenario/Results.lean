import TxGen.Scenario.Schema
import TxGen.Scenario.Value

set_option autoImplicit false

/-! # What a step does

A step resolves its expressions in the context it is given (`StepDef.prepare`), asks a chain for
something (`World`, whose answers are arbitrary), and makes a runtime value of the answer
(`StepAnswer.value`). Polling, reorganisations and signing are behind `World`. -/

namespace TxGen

open RuntimeValue (objectOf orNull)

/-! ## Answers and their values -/

structure Checkpoint where
  blockNumber : ℕ
  blockHash : Option (BitVec 256)
  capturedAt : ℕ

def Checkpoint.fields (chain : String) (c : Checkpoint) : List (String × RuntimeValue) :=
  [("chain", .string chain), ("block_number", .uint c.blockNumber),
    ("block_hash", orNull c.blockHash .bytes32), ("captured_at", .uint c.capturedAt)]

structure ConfirmedReceipt where
  transactionHash : BitVec 256
  blockHash : BitVec 256
  blockNumber : ℕ
  transactionIndex : Option ℕ
  status : Bool
  gasUsed : ℕ
  blockTimestampMs : ℕ
  firstObservedAt : ℕ
  confirmedAt : ℕ
  confirmationDepth : ℕ

/-- Runtime fields shared by receipt saves and receipt-scoped event groups. -/
def ConfirmedReceipt.runtimeFields (chain : String) (r : ConfirmedReceipt) :
    List (String × RuntimeValue) :=
  [("chain", .string chain), ("transaction_hash", .bytes32 r.transactionHash),
    ("tx_hash", .bytes32 r.transactionHash), ("block_hash", .bytes32 r.blockHash),
    ("block_number", .uint r.blockNumber),
    ("transaction_index", orNull r.transactionIndex .uint), ("status", .bool r.status),
    ("gas_used", .uint r.gasUsed), ("block_timestamp_ms", .uint r.blockTimestampMs),
    ("first_observed_at", .uint r.firstObservedAt), ("observed_at", .uint r.firstObservedAt),
    ("confirmed_at", .uint r.confirmedAt), ("confirmation_depth", .uint r.confirmationDepth)]

/-- A decoded log: the name of its event and the parameters with their values. -/
structure EventLog where
  address : Address
  transactionHash : Option (BitVec 256)
  blockHash : Option (BitVec 256)
  blockNumber : Option ℕ
  transactionIndex : Option ℕ
  logIndex : Option ℕ
  eventName : String
  parameters : List (String × RuntimeValue)

/-- Parameters without a name are numbered. -/
def EventLog.decodedEventArguments (log : EventLog) : RuntimeValue :=
  objectOf (log.parameters.zipIdx.map fun ((name, value), index) =>
    (if name = "" then toString index else name, value))

/-- The fields of `grouped_event_runtime_value`. -/
def EventLog.groupedFields (log : EventLog) : List (String × RuntimeValue) :=
  [("address", .address log.address), ("contract_address", .address log.address),
    ("log_index", orNull log.logIndex .uint), ("event", .string log.eventName),
    ("event_name", .string log.eventName), ("args", log.decodedEventArguments)]

structure ObservedLog where
  log : EventLog
  blockTimestampMs : ℕ
  firstObservedAt : ℕ
  confirmedAt : ℕ
  confirmationDepth : ℕ

/-- The fields of `log_runtime_value`. -/
def ObservedLog.fields (chain : String) (o : ObservedLog) : List (String × RuntimeValue) :=
  [("chain", .string chain), ("address", .address o.log.address),
    ("contract_address", .address o.log.address),
    ("transaction_hash", orNull o.log.transactionHash .bytes32),
    ("tx_hash", orNull o.log.transactionHash .bytes32),
    ("block_hash", orNull o.log.blockHash .bytes32),
    ("block_number", orNull o.log.blockNumber .uint),
    ("transaction_index", orNull o.log.transactionIndex .uint),
    ("log_index", orNull o.log.logIndex .uint), ("event", .string o.log.eventName),
    ("event_name", .string o.log.eventName), ("args", o.log.decodedEventArguments),
    ("block_timestamp_ms", .uint o.blockTimestampMs),
    ("first_observed_at", .uint o.firstObservedAt), ("observed_at", .uint o.firstObservedAt),
    ("confirmed_at", .uint o.confirmedAt), ("confirmation_depth", .uint o.confirmationDepth)]

/-- The identity of the log must be known. -/
def logObservationMetadata (log : EventLog) : Except Report Unit := do
  bailIf (log.transactionHash = none) "matching log omitted transaction_hash"
  bailIf (log.blockHash = none) "matching log omitted block_hash"
  bailIf (log.blockNumber = none) "matching log omitted block_number"

structure RpcSubmission where
  sender : Address
  txHash : BitVec 256
  submittedAt : ℕ
  acceptanceLatency : ℕ

def RpcSubmission.fields (chain template : String) (s : RpcSubmission) (r : Option ConfirmedReceipt) :
    List (String × RuntimeValue) :=
  [("chain", .string chain), ("template", .string template), ("id", .string template),
    ("sender", .address s.sender), ("tx_hash", .bytes32 s.txHash),
    ("submitted_at", .uint s.submittedAt), ("acceptance_latency", .uint s.acceptanceLatency),
    ("receipt", orNull r fun r => objectOf (r.runtimeFields chain))]

inductive StepAnswer
  | checkpoint (c : Checkpoint)
  | invoke (action : String) (output : List (String × RuntimeValue))
  | submit (template : String) (submission : RpcSubmission) (r : Option ConfirmedReceipt)
  | receipt (r : ConfirmedReceipt)
  | log (o : ObservedLog)
  | events (r : ConfirmedReceipt) (logs : List (String × EventLog))

/-- The runtime value of a step on `chain`. -/
def StepAnswer.value (chain : String) : StepAnswer → RuntimeValue
  | .checkpoint c => objectOf (c.fields chain)
  | .invoke action output =>
    .object (OrdMap.set "action" (.string action) (OrdMap.set "chain" (.string chain) output))
  | .submit template submission r => objectOf (submission.fields chain template r)
  | .receipt r => objectOf (r.runtimeFields chain)
  | .log o => objectOf (o.fields chain)
  | .events r logs =>
    objectOf (r.runtimeFields chain ++
      [("events", objectOf (logs.map fun e => (e.1, objectOf e.2.groupedFields)))])

/-- What an account binding exposes. -/
def accountFields (pool : String) (index : ℕ) (address : Address) : List (String × RuntimeValue) :=
  [("pool", .string pool), ("index", .uint index), ("address", .address address),
    ("ref", objectOf [("pool", .string pool), ("select", objectOf [("index", .uint index)])])]

def accountBindingValue (pool : String) (index : ℕ) (address : Address) : RuntimeValue :=
  objectOf (accountFields pool index address)

/-! ## Requests -/

/-- The resolved expressions of one event that is waited for. -/
structure EventInputs (ν : Type) where
  filters : List (String × RuntimeValue)
  address : Option ν

structure LogInputs (ν : Type) where
  filters : List (String × RuntimeValue)
  address : Option ν
  transactionHash : Option ν
  sender : Option ν
  fromBlock : Option ν

/-- A step with its expressions resolved. -/
inductive StepRequest (ν : Type)
  | checkpoint
  | invoke (step : InvokeStep) (arguments : Yaml)
  | submit (step : SubmitStep) (overlay : Yaml)
  | waitReceipt (step : WaitReceiptStep) (hash : ν) (sender : Option ν)
  | waitLog (step : WaitLogStep) (inputs : LogInputs ν)
  | waitEvents (step : WaitLogStep) (hash : ν) (sender : Option ν)
      (events : List (String × EventInputs ν))

section Prepare

variable {τ ν : Type} (abi : Abi τ ν) (ctx : RuntimeContext)

/-- An expression with a value of the given type (`expression_hash` and its like). -/
def expressionAs (typeName : String) (expression : Yaml) : Except Report ν := do
  let value ← evalExpression abi ctx expression
  let solType ← abi.parseAbiType typeName
  abi.coerceDynSol value solType

def optionalAs (typeName : String) : Option Yaml → Except Report (Option ν)
  | none => .ok none
  | some expression => do return some (← expressionAs abi ctx typeName expression)

/-- The values of the filters. What they are compared with is up to the ABI of the chain. -/
def resolveFilters : List (String × Yaml) → Except Report (List (String × RuntimeValue))
  | [] => .ok []
  | (name, expression) :: filters => do
    let value ← wrapErr (evalExpression abi ctx expression) s!"failed to resolve event filter '{name}'"
    return (name, value) :: (← resolveFilters filters)

def prepareReceiptEvents :
    List (String × ReceiptEventDef) → Except Report (List (String × EventInputs ν))
  | [] => .ok []
  | (id, event) :: events => do
    let address ← optionalAs abi ctx "address" event.address
    let filters ← resolveFilters abi ctx event.whereValue
    return (id, { filters, address }) :: (← prepareReceiptEvents events)

def prepareWaitLog (wait : WaitLogStep) : Except Report (StepRequest ν) :=
  if wait.events = [] then do
    let filters ← resolveFilters abi ctx wait.whereValue
    let address ← optionalAs abi ctx "address" wait.address
    let transactionHash ← optionalAs abi ctx "bytes32" wait.transactionHash
    let sender ← optionalAs abi ctx "address" wait.sender
    let fromBlock ← optionalAs abi ctx "uint64" wait.fromBlock
    return .waitLog wait { filters, address, transactionHash, sender, fromBlock }
  else
    match wait.transactionHash with
    | none => bail "receipt-scoped event group requires transaction_hash"
    | some transactionHash => do
      let hash ← expressionAs abi ctx "bytes32" transactionHash
      let sender ← optionalAs abi ctx "address" wait.sender
      let events ← prepareReceiptEvents abi ctx wait.events
      return .waitEvents wait hash sender events

/-- Resolve the expressions of a step. -/
def StepDef.prepare (step : StepDef) : Except Report (StepRequest ν) :=
  match step.action with
  | .checkpoint _ => .ok .checkpoint
  | .invoke invoke => do
    let arguments := Yaml.mapping (invoke.withValue.map fun e => (.string e.1, e.2))
    return .invoke invoke (← materializeYaml abi ctx arguments)
  | .submit submit => do return .submit submit (← materializeYaml abi ctx submit.withValue)
  | .waitReceipt wait => do
    let hash ← expressionAs abi ctx "bytes32" wait.transactionHash
    let sender ← optionalAs abi ctx "address" wait.sender
    return .waitReceipt wait hash sender
  | .waitLog wait => prepareWaitLog abi ctx wait

end Prepare

/-! ## Performing a request -/

/-- What the chains, the adapters and the clock answer to a step. `waitForEvents` assigns a log to
    each event that is waited for. -/
structure World (ν : Type) where
  checkpoint : String → Except Report Checkpoint
  invokeScenarioAction : InvokeStep → Yaml → Except Report Yaml
  submit : SubmitStep → Yaml → Except Report RpcSubmission
  waitForSubmitted : SubmitStep → RpcSubmission → Except Report ConfirmedReceipt
  waitForReceipt : WaitReceiptStep → ν → Option ν → Except Report ConfirmedReceipt
  waitForLog : WaitLogStep → LogInputs ν → Except Report ObservedLog
  waitForEvents : WaitLogStep → ν → Option ν → List (String × EventInputs ν) →
    Except Report (ConfirmedReceipt × (String → EventLog))

section Perform

variable {τ ν : Type} (world : World ν)

def invokeAnswer (action : String) : RuntimeValue → Except Report StepAnswer
  | .object output => .ok (.invoke action output)
  | _ => bail "scenario action returned a non-object value"

/-- The receipt that a submission waits for. -/
def awaitReceipt (step : SubmitStep) (submission : RpcSubmission) :
    Except Report (Option ConfirmedReceipt) :=
  if step.awaitMode = some .receipt then do
    let receipt ← world.waitForSubmitted step submission
    bailIf (receipt.status = false) "submitted transaction reverted"
    return some receipt
  else .ok none

def perform (chain : String) : StepRequest ν → Except Report StepAnswer
  | .checkpoint => do return .checkpoint (← world.checkpoint chain)
  | .invoke step arguments => do
    let output ← world.invokeScenarioAction step arguments
    let output ← wrapErr (RuntimeValue.ofYaml output) "invalid action output"
    invokeAnswer step.action output
  | .submit step overlay => do
    let submission ← world.submit step overlay
    let receipt ← awaitReceipt world step submission
    return .submit step.template submission receipt
  | .waitReceipt step hash sender => do
    let receipt ← world.waitForReceipt step hash sender
    bailIf (receipt.status = false ∧ step.allowRevert = false) "transaction receipt reverted"
    return .receipt receipt
  | .waitLog step inputs => do
    let observed ← world.waitForLog step inputs
    logObservationMetadata observed.log
    return .log observed
  | .waitEvents step hash sender events => do
    let (receipt, assigned) ← world.waitForEvents step hash sender events
    return .events receipt (events.map fun e => (e.1, assigned e.1))

variable (abi : Abi τ ν)

def executeStep (step : StepDef) (ctx : RuntimeContext) : Except Report StepAnswer := do
  let request ← step.prepare abi ctx
  perform world step.action.chain request

end Perform

end TxGen
