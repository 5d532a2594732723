import TxGen.Scenario.Paths
import TxGen.Scenario.Schema

set_option autoImplicit false

/-! # Static validation

`ScenarioSpec::validate`: the checks of the chains, the bindings, the saves and the steps, and the
references of the steps against the bindings and the saves that are available to them. How a URL is
parsed is given: `parseUrl` returns the scheme of a URL. -/

namespace TxGen

def validateOptionalNonzero (value : Option ℕ) (label field : String) : Except Report Unit :=
  bailIf (value = some 0) s!"{label} {field} must be greater than zero when configured"

def validateOptionalDuration (value : Option ℕ) (label field : String) : Except Report Unit :=
  bailIf (value = some 0) s!"{label} {field} must be greater than zero"

/-! ## Chains and bindings -/

def validateWebsocketUrl (parseUrl : String → Option String) (name : String) :
    Option String → Except Report Unit
  | none => .ok ()
  | some url =>
    match parseUrl url with
    | none => bail s!"chain '{name}' has an invalid observation websocket_url"
    | some scheme =>
      bailIf (scheme ≠ "ws" ∧ scheme ≠ "wss")
        s!"chain '{name}' observation websocket_url must use ws or wss"

def validateRequestAuth (name : String) : Option SenderHeaderAuthDef → Except Report Unit
  | none => .ok ()
  | some header => do
    bailIf (blank header.name) s!"chain '{name}' request_auth sender_header has an empty name"
    bailIf (header.map = "") s!"chain '{name}' request_auth sender_header has an empty map path"
    validateOptionalDuration header.reloadInterval s!"chain '{name}' request_auth sender_header"
      "reload_interval"

def validateChain (parseUrl : String → Option String) (name : String) (chain : ChainDef) :
    Except Report Unit := do
  validateName name "chain"
  bailIf (blank chain.network) s!"chain '{name}' has an empty network"
  bailIf (blank chain.rpcUrl) s!"chain '{name}' has an empty rpc_url"
  bailIf (chain.queryRpcUrl.any blank) s!"chain '{name}' has an empty query_rpc_url"
  bailIf (chain.workload = "") s!"chain '{name}' has an empty workload path"
  bailIf (chain.chainId = .explicit 0) s!"chain '{name}' chain_id must be greater than zero"
  validateOptionalDuration chain.observation.pollInterval s!"chain '{name}' observation"
    "poll_interval"
  bailIf (chain.observation.mode = .subscription ∧ chain.observation.websocketUrl = none)
    s!"chain '{name}' observation mode `subscription` requires `websocket_url`"
  validateWebsocketUrl parseUrl name chain.observation.websocketUrl
  validateRequestAuth name chain.requestAuth

def validateBinding (name : String) (binding : BindingDef) : Except Report Unit := do
  validateComponent name "binding"
  match binding with
  | .account pool _ => bailIf (blank pool) s!"account binding '{name}' has an empty pool"
  | .bytes32 randomBytes =>
    bailIf (randomBytes ≠ 32)
      s!"bytes32 binding '{name}' requires random_bytes: 32 (got {randomBytes})"

/-! ## Saves -/

/-- A save of a step, given the saves of the steps before it. -/
def checkSave (bindings : List (String × BindingDef)) (all : List StepDef) (step : StepDef)
    (index : ℕ) (save : String) (saves : List (String × ℕ)) : Except Report Unit := do
  validatePath save "save"
  let root := pathRoot save
  bailIf ((bindings.lookup root).isSome)
    s!"{step.diagnosticLabel index} save '{save}' conflicts with a scenario binding '{root}'"
  match OrdMap.get? save saves with
  | some previous =>
    bail s!"duplicate save name '{save}' at {stepLabel all previous} and {step.diagnosticLabel index}"
  | none =>
    match saves.find? fun other =>
        startsWith other.1 (save ++ ".") || startsWith save (other.1 ++ ".") with
    | some (other, otherIndex) =>
      bail s!"save path '{save}' at {step.diagnosticLabel index} conflicts with save path '{other}' at {stepLabel all otherIndex}"
    | none => .ok ()

def collectSavesFrom (bindings : List (String × BindingDef)) (all : List StepDef) :
    List StepDef → ℕ → List (String × ℕ) → Except Report (List (String × ℕ))
  | [], _, saves => .ok saves
  | step :: steps, index, saves =>
    match step.save with
    | none => collectSavesFrom bindings all steps (index + 1) saves
    | some save => do
      checkSave bindings all step index save saves
      collectSavesFrom bindings all steps (index + 1) (OrdMap.set save index saves)

/-- The saves of a scenario with the indices of their steps. -/
def ScenarioDef.collectSaves (sc : ScenarioDef) : Except Report (List (String × ℕ)) :=
  collectSavesFrom sc.bindings sc.steps sc.steps 0 []

inductive SavedKind
  | checkpoint
  | invoke
  | submit (receipt : Bool)
  | receipt
  | log (grouped : Bool)
deriving DecidableEq

def StepDef.savedKind (step : StepDef) : SavedKind :=
  match step.action with
  | .checkpoint _ => .checkpoint
  | .invoke _ => .invoke
  | .submit submit => .submit (submit.awaitMode = some .receipt)
  | .waitReceipt _ => .receipt
  | .waitLog wait => .log (wait.events ≠ [])

inductive AvailableRoot
  | accountBinding
  | bytes32Binding
  | saved (kind : SavedKind)
deriving DecidableEq

def BindingDef.root : BindingDef → AvailableRoot
  | .account _ _ => .accountBinding
  | .bytes32 _ => .bytes32Binding

/-- What one of the steps adds to the roots. -/
def ScenarioDef.savedRoot (sc : ScenarioDef) (index : ℕ) : Option (String × AvailableRoot) := do
  let step ← sc.steps[index]?
  let save ← step.save
  return (save, .saved step.savedKind)

/-- Bindings plus the saves of the given steps. -/
def ScenarioDef.availableRoots (sc : ScenarioDef) (steps : List ℕ) : List (String × AvailableRoot) :=
  OrdMap.ofList
    (sc.bindings.map (fun (name, binding) => (name, binding.root)) ++ steps.filterMap sc.savedRoot)

/-! ## References -/

/-- What follows a candidate in a path: nothing, or a tail after a dot. -/
def pathTail (path candidate : String) : Option (Option String) :=
  if path = candidate then some none
  else ((stripPrefix path candidate).bind (stripPrefix · ".")).map some

/-- The longest candidate that the path is at or below. -/
def longestPathMatch {α : Type} (path : String) (values : List (String × α)) :
    Option (String × α × Option String) :=
  let found := values.filterMap fun (candidate, value) =>
    (pathTail path candidate).map fun tail => (candidate, value, tail)
  found.foldl (fun best next => match best with
    | none => some next
    | some best => if best.1.utf8ByteSize ≤ next.1.utf8ByteSize then some next else some best) none

inductive StaticValueType
  | accountRef
  | address
  | bytes
  | bytes32
  | uint
  | int
  | bool
  | string
  | object
deriving DecidableEq

/-- `{:?}` -/
def StaticValueType.debug : StaticValueType → String
  | .accountRef => "AccountRef"
  | .address => "Address"
  | .bytes => "Bytes"
  | .bytes32 => "Bytes32"
  | .uint => "Uint"
  | .int => "Int"
  | .bool => "Bool"
  | .string => "String"
  | .object => "Object"

def validateAccountPath (root : String) (tail : Option String) : Except Report Unit :=
  match tail with
  | none => .ok ()
  | some tail =>
    bailIf (tail ∉ ["pool", "index", "address", "ref", "ref.pool", "ref.select", "ref.select.index"])
      s!"account binding '{root}' has no field '{tail}'"

def checkpointFieldType : String → Option StaticValueType
  | "" => some .object
  | "chain" => some .string
  | "block_number" | "captured_at" => some .uint
  | "block_hash" => some .bytes32
  | _ => none

def submitFieldType : String → Option StaticValueType
  | "" | "receipt" => some .object
  | "chain" | "template" | "id" | "receipt.chain" => some .string
  | "sender" => some .address
  | "tx_hash" | "receipt.transaction_hash" | "receipt.tx_hash" | "receipt.block_hash" => some .bytes32
  | "submitted_at" | "acceptance_latency" | "receipt.block_number" | "receipt.transaction_index"
  | "receipt.block_timestamp_ms" | "receipt.gas_used" | "receipt.first_observed_at"
  | "receipt.observed_at" | "receipt.confirmed_at" | "receipt.confirmation_depth" => some .uint
  | "receipt.status" => some .bool
  | _ => none

def receiptFieldType : String → Option StaticValueType
  | "" => some .object
  | "chain" => some .string
  | "transaction_hash" | "tx_hash" | "block_hash" => some .bytes32
  | "block_number" | "transaction_index" | "block_timestamp_ms" | "gas_used" | "first_observed_at"
  | "observed_at" | "confirmed_at" | "confirmation_depth" => some .uint
  | "status" => some .bool
  | _ => none

def logFieldType (grouped : Bool) : String → Option StaticValueType
  | "" => some .object
  | "chain" => some .string
  | "transaction_hash" | "tx_hash" | "block_hash" => some .bytes32
  | "block_number" | "transaction_index" | "block_timestamp_ms" | "first_observed_at"
  | "observed_at" | "confirmed_at" | "confirmation_depth" => some .uint
  | "events" => if grouped then some .object else none
  | "status" => if grouped then some .bool else none
  | "gas_used" => if grouped then some .uint else none
  | "args" => if grouped then none else some .object
  | "event" | "event_name" => if grouped then none else some .string
  | "address" | "contract_address" => if grouped then none else some .address
  | "log_index" => if grouped then none else some .uint
  | _ => none

/-- Static type of a saved step result field; an empty tail is the result itself. -/
def savedFieldType : SavedKind → String → Option StaticValueType
  | .checkpoint => checkpointFieldType
  | .invoke => fun _ => none
  | .submit _ => submitFieldType
  | .receipt => receiptFieldType
  | .log grouped => logFieldType grouped

/-- Invoke outputs and decoded event arguments have no static shape. -/
def SavedKind.isDynamic (kind : SavedKind) (tail : String) : Bool :=
  match kind with
  | .invoke => true
  | .log true => startsWith tail "events."
  | .log false => startsWith tail "args."
  | _ => false

def validateSavedPath (root : String) (kind : SavedKind) (tail : Option String) :
    Except Report Unit :=
  match tail with
  | none => .ok ()
  | some tail => do
    bailIf (kind = .submit false ∧ (tail = "receipt" ∨ startsWith tail "receipt."))
      s!"saved submit result '{root}' has no receipt because the step does not await one"
    bailIf (kind.isDynamic tail = false ∧ savedFieldType kind tail = none)
      s!"saved step result '{root}' has no field '{tail}'"

/-- The error for a path that is below no available root. -/
def unknownReference (path : String) (currentStep : ℕ) (saves : List (String × ℕ))
    (dependencyAncestors : Option (List ℕ)) : Except Report Unit := do
  match longestPathMatch path saves, dependencyAncestors with
  | some (save, saveStep, _), some ancestors =>
    bailIf (saveStep ∉ ancestors)
      s!"reference '{path}' targets save '{save}' from step {saveStep + 1}, which is not a dependency ancestor of step {currentStep + 1}"
  | some (save, saveStep, _), none =>
    bailIf (currentStep ≤ saveStep)
      s!"forward reference '{path}' targets save '{save}' from step {saveStep + 1}"
  | none, _ => .ok ()
  bail s!"unknown runtime root '{pathRoot path}' in reference '{path}'"

def validateReference (path : String) (currentStep : ℕ) (saves : List (String × ℕ))
    (available : List (String × AvailableRoot)) (dependencyAncestors : Option (List ℕ)) :
    Except Report Unit :=
  match longestPathMatch path available with
  | none => unknownReference path currentStep saves dependencyAncestors
  | some (root, .accountBinding, tail) => validateAccountPath root tail
  | some (root, .bytes32Binding, tail) =>
    bailIf (tail.isSome) s!"bytes32 binding '{root}' has no fields"
  | some (root, .saved kind, tail) => validateSavedPath root kind tail

def accountFieldType : String → Option StaticValueType
  | "" | "ref.select" => some .object
  | "address" => some .address
  | "index" | "ref.select.index" => some .uint
  | "pool" | "ref.pool" => some .string
  | "ref" => some .accountRef
  | _ => none

/-- Static type of what is below a root. -/
def AvailableRoot.fieldType (root : AvailableRoot) (tail : String) : Option StaticValueType :=
  match root with
  | .accountBinding => accountFieldType tail
  | .bytes32Binding => if tail = "" then some .bytes32 else none
  | .saved kind => savedFieldType kind tail

def staticReferenceType (path : String) (available : List (String × AvailableRoot)) :
    Option StaticValueType := do
  let (_, root, tail) ← longestPathMatch path available
  root.fieldType (tail.getD "")

def expressionStaticType (expression : Yaml) (available : List (String × AvailableRoot)) :
    Except Report (Option StaticValueType) :=
  match expression with
  | .mapping entries =>
    if entries.length ≠ 1 then .ok none
    else match (Yaml.get entries "var").bind Yaml.asStr with
      | some path => .ok (staticReferenceType path available)
      | none =>
        if Yaml.containsKey entries "keccak256" || Yaml.containsKey entries "keccak256_packed" then
          .ok (some .bytes32)
        else if Yaml.containsKey entries "abi_encode" ||
            Yaml.containsKey entries "abi_encode_packed" then
          .ok (some .bytes)
        else .ok none
  | .bool _ => .ok (some .bool)
  | .number (.int value) =>
    if 0 ≤ value ∧ value < 2 ^ 64 then .ok (some .uint)
    else if -2 ^ 63 ≤ value ∧ value < 0 then .ok (some .int)
    else bail "runtime numeric literals must be integers"
  | .number (.float _) => bail "runtime numeric literals must be integers"
  | _ => .ok none

def validateExpressionType (expression : Yaml) (expected : StaticValueType)
    (available : List (String × AvailableRoot)) (label field : String) : Except Report Unit := do
  match ← expressionStaticType expression available with
  | none => .ok ()
  | some actual =>
    bailIf (actual ≠ expected)
      s!"{label} {field} expects {expected.debug}, but its runtime reference has type {actual.debug}"

/-- The same for an expression that may be omitted. -/
def validateOptionalType (expression : Option Yaml) (expected : StaticValueType)
    (available : List (String × AvailableRoot)) (label field : String) : Except Report Unit :=
  match expression with
  | none => .ok ()
  | some expression => validateExpressionType expression expected available label field

/-! ## Steps -/

/-- The expressions of a step, in the order in which they are visited. -/
def StepDef.expressions (step : StepDef) : List Yaml :=
  match step.action with
  | .checkpoint _ => []
  | .invoke invoke => invoke.withValue.map Prod.snd
  | .submit submit => [submit.withValue]
  | .waitReceipt wait => wait.transactionHash :: wait.sender.toList
  | .waitLog wait =>
    wait.fromBlock.toList ++ wait.address.toList ++ wait.transactionHash.toList ++
      wait.sender.toList ++ wait.whereValue.map Prod.snd ++
      wait.events.flatMap fun e => e.2.address.toList ++ e.2.whereValue.map Prod.snd

def validateInvoke (label : String) (invoke : InvokeStep) : Except Report Unit := do
  bailIf (blank invoke.action) s!"{label} has an empty action name"
  invoke.withValue.forM fun (name, _) =>
    bailIf (blank name) s!"{label} contains an empty argument name"

def validateWaitReceipt (label : String) (available : List (String × AvailableRoot))
    (requestAuth : Bool) (wait : WaitReceiptStep) : Except Report Unit := do
  validateOptionalDuration wait.pollInterval label "poll_interval"
  validateExpressionType wait.transactionHash .bytes32 available label "transaction_hash"
  validateOptionalType wait.sender .address available label "sender"
  bailIf (wait.sender = none ∧ requestAuth)
    s!"{label} requires `sender` when chain '{wait.chain}' uses request_auth"

def validateReceiptEvent (label : String) (available : List (String × AvailableRoot))
    (eventId : String) (event : ReceiptEventDef) : Except Report Unit := do
  wrapErr (validateComponent eventId "receipt event ID") s!"{label} has an invalid event ID"
  bailIf (blank event.abi) s!"{label} event '{eventId}' has an empty ABI name"
  bailIf (blank event.event) s!"{label} event '{eventId}' has an empty event name"
  validateOptionalType event.address .address available label s!"events.{eventId}.address"
  event.whereValue.forM fun (name, _) =>
    bailIf (blank name)
      s!"{label} event '{eventId}' contains an empty decoded argument filter name"

/-- The event or the group of events that is waited for. -/
def validateLogEvents (label : String) (available : List (String × AvailableRoot))
    (wait : WaitLogStep) : Except Report Unit :=
  if wait.events = [] then do
    bailIf (blank wait.abi) s!"{label} has an empty ABI name"
    bailIf (blank wait.event) s!"{label} has an empty event name"
  else do
    bailIf (wait.transactionHash = none)
      s!"{label} receipt-scoped `events` requires `transaction_hash`"
    bailIf (wait.fromBlock.isSome)
      s!"{label} receipt-scoped `events` cannot be combined with `from_block`"
    bailIf (wait.abi ≠ "" ∨ wait.event ≠ "" ∨ wait.address.isSome ∨ wait.whereValue ≠ [])
      s!"{label} receipt-scoped `events` cannot be combined with top-level `abi`, `event`, `address`, or `where`"
    wait.events.forM fun (eventId, event) => validateReceiptEvent label available eventId event

def validateWaitLog (label : String) (available : List (String × AvailableRoot))
    (requestAuth : Bool) (wait : WaitLogStep) : Except Report Unit := do
  validateLogEvents label available wait
  bailIf (wait.fromBlock = none ∧ wait.transactionHash = none)
    s!"{label} requires `from_block` or `transaction_hash`"
  validateOptionalNonzero wait.maxBlockRange label "max_block_range"
  validateOptionalDuration wait.pollInterval label "poll_interval"
  validateOptionalType wait.fromBlock .uint available label "from_block"
  validateOptionalType wait.address .address available label "address"
  validateOptionalType wait.transactionHash .bytes32 available label "transaction_hash"
  validateOptionalType wait.sender .address available label "sender"
  bailIf (wait.sender = none ∧ (wait.fromBlock = none ∨ wait.events ≠ []) ∧ requestAuth)
    s!"{label} requires `sender` for a transaction-hash-only wait when chain '{wait.chain}' uses request_auth"
  wait.whereValue.forM fun (name, _) =>
    bailIf (blank name) s!"{label} contains an empty decoded argument filter name"

def validateAction (label : String) (available : List (String × AvailableRoot))
    (requestAuth : Bool) : StepAction → Except Report Unit
  | .checkpoint _ => .ok ()
  | .invoke invoke => validateInvoke label invoke
  | .submit submit => bailIf (blank submit.template) s!"{label} has an empty template name"
  | .waitReceipt wait => validateWaitReceipt label available requestAuth wait
  | .waitLog wait => validateWaitLog label available requestAuth wait

/-- The references within one expression. -/
def validateExpression (label : String) (index : ℕ) (saves : List (String × ℕ))
    (available : List (String × AvailableRoot)) (dependencyAncestors : Option (List ℕ))
    (expression : Yaml) : Except Report Unit := do
  let paths ← (collectVariablePaths expression).mapError fun error =>
    [s!"invalid runtime expression in {label}: {error.headI}"]
  paths.forM fun path =>
    (validateReference path index saves available dependencyAncestors).mapError fun error =>
      [s!"invalid runtime reference in {label}: {error.headI}"]

namespace ScenarioSpec

def validateStep (spec : ScenarioSpec) (index : ℕ) (step : StepDef) (saves : List (String × ℕ))
    (available : List (String × AvailableRoot)) (dependencyAncestors : Option (List ℕ)) :
    Except Report Unit := do
  let label := step.diagnosticLabel index
  bailIf (step.timeout = some 0) s!"{label} timeout must be greater than zero"
  let chain := spec.chains.lookup step.action.chain
  bailIf (chain = none) s!"{label} references unknown chain '{step.action.chain}'"
  validateAction label available (chain.any fun chain => chain.requestAuth.isSome) step.action
  step.expressions.forM (validateExpression label index saves available dependencyAncestors)

/-- A step of a sequential scenario: the steps before it are available. -/
def validateSequentialStep (spec : ScenarioSpec) (saves : List (String × ℕ)) (index : ℕ)
    (step : StepDef) : Except Report Unit := do
  bailIf (step.dependsOn ≠ [])
    s!"{step.diagnosticLabel index} configures `depends_on`, which requires `scenario.execution: dag`"
  spec.validateStep index step saves (spec.scenario.availableRoots (List.range index)) none

/-- A step of a DAG: its ancestors are available. -/
def validateDagStep (spec : ScenarioSpec) (saves : List (String × ℕ)) (ancestors : ℕ → Finset ℕ)
    (index : ℕ) (step : StepDef) : Except Report Unit :=
  let ancestors := (List.range spec.scenario.steps.length).filter (· ∈ ancestors index)
  spec.validateStep index step saves (spec.scenario.availableRoots ancestors) (some ancestors)

def validateSteps (spec : ScenarioSpec) (saves : List (String × ℕ)) : Except Report Unit :=
  match spec.scenario.execution with
  | .sequential => do
    discard (validateDeclaredStepIds false spec.scenario.steps spec.scenario.steps 0 [])
    forSteps (spec.validateSequentialStep saves) spec.scenario.steps 0
  | .dag => do
    let ancestors ← spec.scenario.validateDagGraph
    forSteps (spec.validateDagStep saves ancestors) spec.scenario.steps 0

/-- Validate constraints and all statically knowable runtime references. -/
def validate (parseUrl : String → Option String) (spec : ScenarioSpec) : Except Report Unit := do
  bailIf (spec.version ≠ 1) s!"unsupported scenario version {spec.version}; expected version 1"
  bailIf (spec.chains = []) "scenario must define at least one chain"
  spec.chains.forM fun (name, chain) => validateChain parseUrl name chain
  bailIf (blank spec.scenario.name) "scenario name must not be empty"
  bailIf (spec.scenario.timeout = some 0) "scenario timeout must be greater than zero"
  bailIf (spec.scenario.steps = [])
    s!"scenario '{spec.scenario.name}' must contain at least one step"
  spec.scenario.bindings.forM fun (name, binding) => validateBinding name binding
  let saves ← spec.scenario.collectSaves
  spec.validateSteps saves

end ScenarioSpec

/-- What validation says of the steps and their graph. -/
theorem ScenarioSpec.validate_ok {spec : ScenarioSpec} {parseUrl : String → Option String}
    (hok : spec.validate parseUrl = .ok ()) : spec.scenario.steps ≠ [] ∧
      (spec.scenario.execution = .dag → ∃ ancestors, spec.scenario.validateDagGraph = .ok ancestors) := by
  rw [ScenarioSpec.validate] at hok
  simp only [bind_eq_ok, bailIf_eq_ok] at hok
  obtain ⟨-, -, -, -, -, -, -, -, -, -, -, hne, -, -, saves, -, hsteps⟩ := hok
  refine ⟨hne, fun hmode => ?_⟩
  rw [ScenarioSpec.validateSteps, hmode] at hsteps
  obtain ⟨ancestors, hgraph, -⟩ := bind_eq_ok.1 hsteps
  exact ⟨ancestors, hgraph⟩

end TxGen
