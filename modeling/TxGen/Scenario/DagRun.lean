import TxGen.Scenario.LaneSafety
import TxGen.Scenario.StepExecution

set_option autoImplicit false

/-! # Running the steps of a DAG

`run_dag_instance`: ready steps are started in the order of their indices, each with a copy of the context;
when a running step ends, its result is saved and its dependents are released, until a step fails. The
running step that ends next, what the chains answered to it and the times of its outcome are the labels.
The clock of a run does not go back. -/

namespace TxGen

/-- A step that runs, with its copy of the context; it was started at `since` or later. -/
structure RunningStep where
  index : ℕ
  context : RuntimeContext
  since : ℕ

/-- The variables of the loop. What has been started with which context, what has succeeded before any
failure was seen, both oldest first, and the latest time that was observed are kept besides. -/
structure DagRun where
  context : RuntimeContext
  remainingDependencies : ℕ → ℕ
  ready : Finset ℕ
  running : List RunningStep := []
  outcomes : List RecordedStep := []
  failures : List (ℕ × Report) := []
  result : Option StepsResult := none
  started : List (ℕ × RuntimeContext) := []
  succeeded : List (ℕ × StepAnswer) := []
  now : ℕ := 0

namespace DagRun

inductive Label (ν : Type)
  /-- The first of the ready steps is started. -/
  | start
  /-- The step at a place among those running ends. -/
  | complete (place : ℕ) (world : World ν) (times : StepTimes)
  /-- Nothing runs any more. -/
  | finish

variable {τ ν : Type} (abi : Abi τ ν) (sc : ScenarioDef)

def initial (ctx : RuntimeContext) : DagRun where
  context := ctx
  remainingDependencies := dependencyCount sc.steps
  ready := (Finset.range sc.steps.length).filter fun index => dependencyCount sc.steps index = 0

def start (s : DagRun) : Option DagRun :=
  (DepGraph.popFirst s.ready).map fun (index, ready) =>
    { s with
      ready
      running := s.running ++ [⟨index, s.context, s.now⟩]
      started := s.started ++ [(index, s.context)] }

/-- A step succeeded and nothing has failed: its value is saved, and its dependents have one dependency
less. -/
def succeed (s : DagRun) (index : ℕ) (step : StepDef) (answer : StepAnswer) : DagRun :=
  match saveResult s.context step answer with
  | .error error => { s with failures := s.failures ++ [(index, error)] }
  | .ok context =>
    let (remainingDependencies, ready) :=
      DepGraph.release (dependentsOf sc.effectiveIds sc.steps index) s.remainingDependencies s.ready
    { s with
      context
      remainingDependencies
      ready
      succeeded := s.succeeded ++ [(index, answer)] }

def complete (s : DagRun) (place index : ℕ) (step : StepDef)
    (ended : Except Report StepAnswer × RecordedStep) : DagRun :=
  let s := { s with
    running := s.running.eraseIdx place
    outcomes := s.outcomes ++ [ended.2]
    now := max s.now ended.2.finishedOffsetMs }
  match ended.1 with
  | .ok answer => if s.failures = [] then succeed sc s index step answer else s
  | .error error => { s with failures := s.failures ++ [(index, error)] }

/-- Outcomes in the order of the steps, and of the failures that of the first step. -/
def finished (s : DagRun) : StepsResult where
  steps := s.outcomes.insertionSort fun a b => a.index ≤ b.index
  failure := (s.failures.insertionSort fun a b => a.1 ≤ b.1).head?

/-- No step can be started. -/
def settled (s : DagRun) : Bool := !s.failures.isEmpty || s.ready = ∅

def step (s : DagRun) : Label ν → Option DagRun
  | .start => if s.failures = [] ∧ s.result.isNone then s.start else none
  | .complete place world times => do
    let run ← s.running[place]?
    let step ← sc.steps[run.index]?
    if s.settled ∧ s.result.isNone ∧ run.since ≤ times.startedOffsetMs ∧
        times.startedOffsetMs ≤ times.finishedOffsetMs then
      some (complete sc s place run.index step
        (sc.executeOneStep abi world run.index step run.context times))
    else none
  | .finish =>
    if s.settled ∧ s.running = [] ∧ s.result.isNone then some { s with result := some s.finished }
    else none

end DagRun

/-- `run_dag_instance`, started with a context. -/
def dagSystem {τ ν : Type} (abi : Abi τ ν) (sc : ScenarioDef) (ctx : RuntimeContext) :
    System DagRun (DagRun.Label ν) where
  init := DagRun.initial sc ctx
  step := DagRun.step abi sc

end TxGen
