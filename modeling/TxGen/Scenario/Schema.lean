import TxGen.Lib.Dependencies
import TxGen.Scenario.Name
import TxGen.Scenario.Yaml

set_option autoImplicit false

/-! # The scenario document

The typed scenario: its chains, bindings and steps, and the two checks of the step graph
(`validate_declared_step_ids`, `validate_dag_graph`). A map is the list of its entries. Durations are
in nanoseconds. -/

namespace TxGen

inductive ObservationMode
  | auto
  | subscription
  | poll
deriving DecidableEq

inductive ChainId
  | auto
  | explicit (id : ℕ)
deriving DecidableEq

structure SenderHeaderAuthDef where
  name : String
  map : String
  reloadInterval : Option ℕ := none
deriving DecidableEq

structure ObservationDef where
  mode : ObservationMode := .auto
  websocketUrl : Option String := none
  pollInterval : ℕ
deriving DecidableEq

structure ChainDef where
  network : String
  rpcUrl : String
  queryRpcUrl : Option String := none
  requestAuth : Option SenderHeaderAuthDef := none
  chainId : ChainId := .auto
  observation : ObservationDef
  workload : String
deriving DecidableEq

inductive ScenarioExecutionMode
  | sequential
  | dag
deriving DecidableEq

inductive AccountSelection
  | lease
  | random
  | index (index : ℕ)
deriving DecidableEq

inductive BindingDef
  | account (pool : String) (select : AccountSelection)
  | bytes32 (randomBytes : ℕ)
deriving DecidableEq

structure StepProvenance where
  sourceFile : String
  fragment : String
  instanceAlias : String
  localStepName : String
  localStepIndex : ℕ
deriving DecidableEq

inductive SubmitAwait
  | receipt
deriving DecidableEq

structure CheckpointStep where
  chain : String
deriving DecidableEq

structure InvokeStep where
  chain : String
  action : String
  withValue : List (String × Yaml) := []
deriving DecidableEq

structure SubmitStep where
  chain : String
  template : String
  withValue : Yaml := .null
  awaitMode : Option SubmitAwait := none
deriving DecidableEq

structure WaitReceiptStep where
  chain : String
  transactionHash : Yaml
  sender : Option Yaml := none
  allowRevert : Bool := false
  pollInterval : Option ℕ := none
deriving DecidableEq

structure ReceiptEventDef where
  abi : String
  event : String
  address : Option Yaml := none
  whereValue : List (String × Yaml) := []
deriving DecidableEq

structure WaitLogStep where
  chain : String
  fromBlock : Option Yaml := none
  address : Option Yaml := none
  transactionHash : Option Yaml := none
  sender : Option Yaml := none
  abi : String := ""
  event : String := ""
  whereValue : List (String × Yaml) := []
  events : List (String × ReceiptEventDef) := []
  pollInterval : Option ℕ := none
  maxBlockRange : Option ℕ := none
deriving DecidableEq

inductive StepAction
  | checkpoint (step : CheckpointStep)
  | invoke (step : InvokeStep)
  | submit (step : SubmitStep)
  | waitReceipt (step : WaitReceiptStep)
  | waitLog (step : WaitLogStep)
deriving DecidableEq

def StepAction.name : StepAction → String
  | .checkpoint _ => "checkpoint"
  | .invoke _ => "invoke"
  | .submit _ => "submit"
  | .waitReceipt _ => "wait_receipt"
  | .waitLog _ => "wait_log"

def StepAction.chain : StepAction → String
  | .checkpoint step => step.chain
  | .invoke step => step.chain
  | .submit step => step.chain
  | .waitReceipt step => step.chain
  | .waitLog step => step.chain

structure StepDef where
  id : Option String := none
  dependsOn : List String := []
  action : StepAction
  save : Option String := none
  timeout : Option ℕ := none
  provenance : Option StepProvenance := none
deriving DecidableEq

/-- The identity of a step in a run. -/
def StepDef.effectiveId (step : StepDef) (expandedIndex : ℕ) : String :=
  (step.id.or step.save).getD s!"step_{expandedIndex + 1}_{step.action.name}"

def StepDef.diagnosticLabel (step : StepDef) (expandedIndex : ℕ) : String :=
  match step.provenance with
  | none => s!"step {expandedIndex + 1} ({step.action.name})"
  | some p =>
    s!"expanded step {expandedIndex + 1} ({step.action.name}), source '{p.sourceFile}', fragment '{p.fragment}', instance '{p.instanceAlias}', local step '{p.localStepName}' ({p.localStepIndex + 1})"

structure ScenarioDef where
  name : String
  execution : ScenarioExecutionMode := .sequential
  timeout : Option ℕ := none
  bindings : List (String × BindingDef) := []
  steps : List StepDef
deriving DecidableEq

structure ScenarioSpec where
  version : ℕ
  chains : List (String × ChainDef)
  scenario : ScenarioDef
deriving DecidableEq

/-! ## The step graph -/

/-- Step IDs with the indices of their steps. -/
abbrev StepIds := List (String × ℕ)

def stepLabel (steps : List StepDef) (index : ℕ) : String :=
  (steps[index]?.map fun step => step.diagnosticLabel index).getD ""

def validateDeclaredStepIds (requireAll : Bool) (all : List StepDef) :
    List StepDef → ℕ → StepIds → Except Report StepIds
  | [], _, ids => .ok ids
  | step :: steps, index, ids =>
    match step.id with
    | none =>
      if requireAll then
        bail s!"{step.diagnosticLabel index} requires an explicit `id` because `scenario.execution` is `dag`"
      else validateDeclaredStepIds requireAll all steps (index + 1) ids
    | some id => do
      wrapErr (validatePath id "step ID") s!"{step.diagnosticLabel index} has an invalid step ID"
      match ids.lookup id with
      | some previous =>
        bail s!"duplicate step ID '{id}' at {stepLabel all previous} and {step.diagnosticLabel index}"
      | none => validateDeclaredStepIds requireAll all steps (index + 1) (ids ++ [(id, index)])

/-- The dependencies of one step: `seen` are those before. -/
def validateDependencies (ids : StepIds) (label : String) (seen : List String) :
    List String → Except Report Unit
  | [] => .ok ()
  | dependency :: dependencies => do
    wrapErr (validatePath dependency "step ID") s!"{label} has an invalid dependency ID"
    bailIf (dependency ∈ seen) s!"{label} lists duplicate dependency '{dependency}'"
    match ids.lookup dependency with
    | none => bail s!"{label} depends on missing step ID '{dependency}'"
    | some _ => validateDependencies ids label (seen ++ [dependency]) dependencies

/-- Pass every step and its index to a check. -/
def forSteps (check : ℕ → StepDef → Except Report Unit) : List StepDef → ℕ → Except Report Unit
  | [], _ => .ok ()
  | step :: steps, index => do
    check index step
    forSteps check steps (index + 1)

/-- The steps that depend on step `index`, once for each time they say so. -/
def dependentsOf (ids : String → Option ℕ) (steps : List StepDef) (index : ℕ) : List ℕ :=
  steps.zipIdx.flatMap fun (step, dependent) =>
    (step.dependsOn.filter fun dependency => ids dependency = some index).map fun _ => dependent

/-- Where the topological sort is. -/
structure DagSort where
  ready : Finset ℕ
  indegree : ℕ → ℕ
  ancestors : ℕ → Finset ℕ
  visited : ℕ

/-- Each dependent of `index` inherits its ancestors. -/
def inherit (index : ℕ) (dependents : List ℕ) (ancestors : ℕ → Finset ℕ) : ℕ → Finset ℕ :=
  dependents.foldl (fun ancestors dependent =>
    Function.update ancestors dependent
      (insert index (ancestors dependent) ∪ ancestors index)) ancestors

/-- The loop of the sort. Each step is visited at most once, so that the number of steps is fuel
    enough. -/
def visit (dependents : ℕ → List ℕ) : ℕ → DagSort → DagSort
  | 0, s => s
  | fuel + 1, s =>
    match DepGraph.popFirst s.ready with
    | none => s
    | some (index, ready) =>
      let (indegree, ready) := DepGraph.release (dependents index) s.indegree ready
      visit dependents fuel
        { ready, indegree, ancestors := inherit index (dependents index) s.ancestors,
          visited := s.visited + 1 }

/-- How many dependencies each step has. -/
def dependencyCount (steps : List StepDef) (index : ℕ) : ℕ :=
  (steps[index]?.map fun step => step.dependsOn.length).getD 0

/-- The sort of a graph whose dependencies are known. -/
def sortSteps (ids : String → Option ℕ) (steps : List StepDef) : DagSort :=
  visit (dependentsOf ids steps) steps.length
    { ready := (Finset.range steps.length).filter fun index => dependencyCount steps index = 0
      indegree := dependencyCount steps
      ancestors := fun _ => ∅
      visited := 0 }

namespace ScenarioDef

/-- The ancestors of each step. -/
def validateDagGraph (sc : ScenarioDef) : Except Report (ℕ → Finset ℕ) := do
  let ids ← validateDeclaredStepIds true sc.steps sc.steps 0 []
  forSteps (fun index step =>
    validateDependencies ids (step.diagnosticLabel index) [] step.dependsOn) sc.steps 0
  let sort := sortSteps (fun id => ids.lookup id) sc.steps
  let cyclic := sc.steps.zipIdx.filterMap fun (step, index) =>
    if sort.indegree index > 0 then some (step.effectiveId index) else none
  let names := ", ".intercalate cyclic
  bailIf (sort.visited ≠ sc.steps.length)
    s!"scenario DAG contains a dependency cycle involving: {names}"
  return sort.ancestors

/-- The checks of `validate` that concern the step graph. -/
def validateGraph (sc : ScenarioDef) : Except Report Unit :=
  match sc.execution with
  | .sequential => do
    discard (validateDeclaredStepIds false sc.steps sc.steps 0 [])
    forSteps (fun index step => bailIf (step.dependsOn ≠ [])
      s!"{step.diagnosticLabel index} configures `depends_on`, which requires `scenario.execution: dag`")
      sc.steps 0
  | .dag => discard sc.validateDagGraph

end ScenarioDef

end TxGen
