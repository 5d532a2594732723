import TxGen.Core.GeneratedTx
import TxGen.Lib.System
import TxGen.Scenario.Graph

set_option autoImplicit false

/-! # Submission lanes

The submissions of one chain exclude each other on their scheduling keys. A step acquires all its keys
or none, and its guard gives them back. Two steps of one instance that no dependency orders must not
meet on a key at all, not even one after the other: of each key only the last step of an instance is
remembered, and the next one is accepted if that step comes before it. -/

namespace TxGen

/-! ## The predecessors of a step -/

namespace ScenarioDef

/-- Effective IDs with the indices of their steps; of two steps with one ID the last counts. -/
def effectiveIds (sc : ScenarioDef) : String → Option ℕ :=
  sc.steps.zipIdx.foldl
    (fun ids entry => Function.update ids (entry.1.effectiveId entry.2) (some entry.2)) fun _ => none

/-- The dependencies of the step with this ID. The graph has been validated, so that `ids[&id]` finds
    each ID. -/
def dependenciesOf (sc : ScenarioDef) (id : String) : List String :=
  (((sc.effectiveIds id).bind fun index => sc.steps[index]?).map StepDef.dependsOn).getD []

/-- `ordered_predecessor_ids`. The fuel is enough for each ID to be expanded once. -/
def orderedPredecessorIds (sc : ScenarioDef) (stepIndex : ℕ) : Finset String :=
  match sc.execution with
  | .sequential =>
    ((sc.steps.take stepIndex).zipIdx.map fun (step, index) => step.effectiveId index).toFinset
  | .dag =>
    let pending := (sc.steps[stepIndex]?.map StepDef.dependsOn).getD []
    let edges := (sc.steps.map fun step => step.dependsOn.length).sum
    (DepGraph.explore sc.dependenciesOf (pending.length + edges) ∅ pending.reverse).getD ∅

end ScenarioDef

/-! ## Lanes -/

structure SubmissionLaneOwner where
  inst : ℕ
  step : String
deriving DecidableEq

structure SubmissionLaneState where
  active : SchedulingKey → Option SubmissionLaneOwner := fun _ => none
  ambiguous : Finset SchedulingKey := ∅
  seenByInstance : ℕ → SchedulingKey → Option String := fun _ _ => none

structure SubmissionLaneGuard where
  keys : Finset SchedulingKey
  owner : SubmissionLaneOwner

inductive SubmissionLaneAcquire
  | acquired
  | busy
  | unsafeSameInstance
deriving DecidableEq

namespace SubmissionLaneState

/-- A key was last seen with a step that does not come before the owner. -/
def seenUnordered (s : SubmissionLaneState) (owner : SubmissionLaneOwner)
    (orderedPredecessors : Finset String) (key : SchedulingKey) : Bool :=
  (s.seenByInstance owner.inst key).any fun previous =>
    previous ≠ owner.step && previous ∉ orderedPredecessors

def tryAcquire (s : SubmissionLaneState) (keys : Finset SchedulingKey)
    (owner : SubmissionLaneOwner) (orderedPredecessors : Finset String) :
    SubmissionLaneAcquire × SubmissionLaneState :=
  if ∃ key ∈ keys, s.seenUnordered owner orderedPredecessors key then (.unsafeSameInstance, s)
  else if ∃ key ∈ keys, (s.active key).any fun existing => existing.inst = owner.inst then
    (.unsafeSameInstance, s)
  else if ∃ key ∈ keys, (s.active key).isSome then (.busy, s)
  else
    (.acquired,
      { s with
        active := fun key => if key ∈ keys then some owner else s.active key
        seenByInstance := fun inst key =>
          if inst = owner.inst ∧ key ∈ keys then some owner.step else s.seenByInstance inst key })

def releaseInstance (s : SubmissionLaneState) (inst : ℕ) : SubmissionLaneState :=
  { s with seenByInstance := fun i key => if i = inst then none else s.seenByInstance i key }

def markAmbiguous (s : SubmissionLaneState) (keys : Finset SchedulingKey) : SubmissionLaneState :=
  { s with ambiguous := s.ambiguous ∪ keys }

def hasAmbiguousOrderedLane (s : SubmissionLaneState) (hasOrderedNonces : Bool)
    (keys : Finset SchedulingKey) : Bool :=
  hasOrderedNonces && !Disjoint s.ambiguous keys

/-- The drop of a guard. -/
def dropGuard (s : SubmissionLaneState) (guard : SubmissionLaneGuard) : SubmissionLaneState :=
  { s with
    active := fun key =>
      if key ∈ guard.keys ∧ s.active key = some guard.owner then none else s.active key }

end SubmissionLaneState

/-- One chain's lanes, the guards that are held, the instances that have ended, and what has been
    acquired so far: by which step of which instance, and which keys. -/
structure LaneRun where
  lanes : SubmissionLaneState := {}
  guards : List SubmissionLaneGuard := []
  ended : List ℕ := []
  history : List (ℕ × ℕ × Finset SchedulingKey) := []

namespace LaneRun

inductive Label
  /-- A step of an instance that runs tries to acquire. -/
  | acquire (inst stepIndex : ℕ) (keys : Finset SchedulingKey)
  /-- The `i`-th guard is dropped. -/
  | release (i : ℕ)
  | markAmbiguous (keys : Finset SchedulingKey)
  /-- The scope of an instance ends. -/
  | releaseInstance (inst : ℕ)

/-- What `acquire` answers a step. -/
def attempt (sc : ScenarioDef) (s : LaneRun) (inst stepIndex : ℕ) (step : StepDef)
    (keys : Finset SchedulingKey) : SubmissionLaneAcquire × SubmissionLaneState :=
  s.lanes.tryAcquire keys ⟨inst, step.effectiveId stepIndex⟩ (sc.orderedPredecessorIds stepIndex)

def step (sc : ScenarioDef) (s : LaneRun) : Label → Option LaneRun
  | .acquire inst stepIndex keys =>
    match sc.steps[stepIndex]? with
    | some step =>
      if inst ∈ s.ended then none
      else
        match s.attempt sc inst stepIndex step keys with
        | (.acquired, lanes) =>
          some { s with
            lanes
            guards := s.guards ++ [⟨keys, ⟨inst, step.effectiveId stepIndex⟩⟩]
            history := s.history ++ [(inst, stepIndex, keys)] }
        | (_, lanes) => some { s with lanes }
    | none => none
  | .release i =>
    match s.guards[i]? with
    | some guard => some { s with lanes := s.lanes.dropGuard guard, guards := s.guards.eraseIdx i }
    | none => none
  | .markAmbiguous keys => some { s with lanes := s.lanes.markAmbiguous keys }
  | .releaseInstance inst =>
    some { s with lanes := s.lanes.releaseInstance inst, ended := s.ended ++ [inst] }

end LaneRun

/-- The lanes of one chain, under any interleaving of any number of instances. -/
def laneSystem (sc : ScenarioDef) : System LaneRun LaneRun.Label where
  init := {}
  step := LaneRun.step sc

end TxGen
