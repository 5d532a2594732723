import TxGen.Lib.Smallest
import TxGen.LogWait.Search
import TxGen.Scenario.CriticalPath

set_option autoImplicit false

/-! # Aggregating instance outcomes

`ScenarioAccumulator` takes the outcomes of instances as they complete. Its counters saturate, its failures
are counted by step, name and classification, and of the instances a bounded sample is kept. The
latencies, which are floating point numbers and sampled by their order, are not modelled. -/

namespace TxGen

/-- A step of an outcome, with what aggregation looks at. -/
structure RecordedStep extends StepOutcome where
  name : String
  kind : String
  success : Bool
  /-- `Duration`, in nanoseconds -/
  latency : ℕ
deriving DecidableEq

structure InstanceFailure where
  stepIndex : ℕ
  stepName : String
  classification : String
  timedOut : Bool
  detail : Option String
deriving DecidableEq

structure InstanceOutcome where
  number : ℕ
  startedAtUnixMs : ℕ
  finishedAtUnixMs : ℕ
  elapsed : ℕ
  steps : List RecordedStep
  failure : Option InstanceFailure
deriving DecidableEq

/-- What is retained of a sampled instance. -/
structure InstanceLifecycle where
  number : ℕ
  startedAtUnixMs : ℕ
  finishedAtUnixMs : ℕ
  elapsed : ℕ
  observedCriticalPathLatencyMs : ℕ
  criticalPathStepIds : List String
  outcome : String
  failureStep : Option ℕ
  failureClassification : Option String
  failureDetail : Option String
  steps : List RecordedStep
deriving DecidableEq

/-- `InstanceLifecycle::from`; the critical path is a function of the steps. -/
def InstanceOutcome.lifecycle (criticalPath : List StepOutcome → List String × ℕ)
    (outcome : InstanceOutcome) : InstanceLifecycle :=
  let (criticalPathStepIds, observedCriticalPathLatencyMs) :=
    criticalPath (outcome.steps.map (·.toStepOutcome))
  { number := outcome.number
    startedAtUnixMs := outcome.startedAtUnixMs
    finishedAtUnixMs := outcome.finishedAtUnixMs
    elapsed := outcome.elapsed
    observedCriticalPathLatencyMs
    criticalPathStepIds
    outcome := if outcome.failure.isSome then "failed" else "completed"
    failureStep := outcome.failure.map (·.stepIndex)
    failureClassification := outcome.failure.map (·.classification)
    failureDetail := outcome.failure.bind (·.detail)
    steps := outcome.steps }

structure FailureKey where
  stepIndex : ℕ
  stepName : String
  classification : String
deriving DecidableEq

def InstanceFailure.key (failure : InstanceFailure) : FailureKey :=
  ⟨failure.stepIndex, failure.stepName, failure.classification⟩

/-- A count, and the detail of the first failure that was counted. -/
structure FailureAggregate where
  count : ℕ := 0
  detail : Option String

/-- `sampledInstances` is sorted by instance numbers. -/
structure ScenarioAccumulator where
  completed : ℕ := 0
  failed : ℕ := 0
  timedOut : ℕ := 0
  stepCount : ℕ
  stepSuccess : List ℕ
  stepFailed : List ℕ
  failureCounts : FailureKey → Option FailureAggregate := fun _ => none
  sampledInstances : List (ℕ × InstanceLifecycle) := []
  sampleLimit : ℕ

namespace ScenarioAccumulator

def new (stepCount sampleLimit : ℕ) : ScenarioAccumulator where
  stepCount
  stepSuccess := List.replicate stepCount 0
  stepFailed := List.replicate stepCount 0
  sampleLimit

/-- Count a step as successful or failed; an index of no step is left out. -/
def recordStep (stepCount : ℕ) (counts : List ℕ × List ℕ) (step : RecordedStep) : List ℕ × List ℕ :=
  if step.index < stepCount then
    if step.success then (counts.1.modify step.index (saturatingAdd · 1), counts.2)
    else (counts.1, counts.2.modify step.index (saturatingAdd · 1))
  else counts

def recordFailure (counts : FailureKey → Option FailureAggregate) (failure : InstanceFailure) :
    FailureKey → Option FailureAggregate :=
  let entry := (counts failure.key).getD { detail := failure.detail }
  Function.update counts failure.key (some { entry with count := saturatingAdd entry.count 1 })

/-- A sampled instance gives way to one with a smaller number. -/
def recordSample (limit : ℕ) (sampled : List (ℕ × InstanceLifecycle)) (number : ℕ)
    (lifecycle : InstanceLifecycle) : List (ℕ × InstanceLifecycle) :=
  if 0 < limit then
    if sampled.length < limit ∨ sampled.getLast?.any (fun last => number < last.1) = true then
      -- `pop_last` while there are too many
      (Smallest.insert Prod.fst (number, lifecycle) sampled).take limit
    else sampled
  else sampled

variable (criticalPath : List StepOutcome → List String × ℕ)

def record (acc : ScenarioAccumulator) (outcome : InstanceOutcome) : ScenarioAccumulator :=
  let steps := outcome.steps.foldl (recordStep acc.stepCount) (acc.stepSuccess, acc.stepFailed)
  { completed := if outcome.failure.isNone then saturatingAdd acc.completed 1 else acc.completed
    failed := if outcome.failure.isNone then acc.failed else saturatingAdd acc.failed 1
    timedOut := if outcome.failure.any (·.timedOut) then saturatingAdd acc.timedOut 1 else acc.timedOut
    stepCount := acc.stepCount
    stepSuccess := steps.1
    stepFailed := steps.2
    failureCounts := match outcome.failure with
      | some failure => recordFailure acc.failureCounts failure
      | none => acc.failureCounts
    sampledInstances := recordSample acc.sampleLimit acc.sampledInstances outcome.number
      (outcome.lifecycle criticalPath)
    sampleLimit := acc.sampleLimit }

/-- Record outcomes in the order in which their instances complete. -/
def recordAll (acc : ScenarioAccumulator) (outcomes : List InstanceOutcome) : ScenarioAccumulator :=
  outcomes.foldl (record criticalPath) acc

/-- How often a failure was counted. -/
def failureCount (acc : ScenarioAccumulator) (key : FailureKey) : Option ℕ :=
  (acc.failureCounts key).map FailureAggregate.count

end ScenarioAccumulator

end TxGen
