import TxGen.Scenario.Accumulator

set_option autoImplicit false

/-! # Aggregation in any order

What an accumulator holds after a list of outcomes is a count of them, up to saturation, or the outcomes
with the smallest instance numbers. Neither depends on the order of the list. -/

namespace TxGen

/-- A count that saturates. -/
def saturated (n : ℕ) : ℕ := min n u64Max

@[simp] theorem saturated_zero : saturated 0 = 0 := rfl

theorem saturatingAdd_saturated (n : ℕ) : saturatingAdd (saturated n) 1 = saturated (n + 1) := by
  unfold saturatingAdd saturated
  omega

namespace ScenarioAccumulator

variable (criticalPath : List StepOutcome → List String × ℕ) (stepCount limit : ℕ)

/-- The accumulator after the outcomes. -/
def after (outcomes : List InstanceOutcome) : ScenarioAccumulator :=
  (new stepCount limit).recordAll criticalPath outcomes

@[simp] theorem after_nil : after criticalPath stepCount limit [] = new stepCount limit := rfl

@[simp] theorem after_concat (outcomes : List InstanceOutcome) (outcome : InstanceOutcome) :
    after criticalPath stepCount limit (outcomes ++ [outcome]) =
      (after criticalPath stepCount limit outcomes).record criticalPath outcome := by
  simp [after, recordAll]

@[simp] theorem after_stepCount (outcomes : List InstanceOutcome) :
    (after criticalPath stepCount limit outcomes).stepCount = stepCount := by
  induction outcomes using List.reverseRecOn with
  | nil => rfl
  | append_singleton outcomes outcome ih => simp [record, ih]

@[simp] theorem after_sampleLimit (outcomes : List InstanceOutcome) :
    (after criticalPath stepCount limit outcomes).sampleLimit = limit := by
  induction outcomes using List.reverseRecOn with
  | nil => rfl
  | append_singleton outcomes outcome ih => simp [record, ih]

/-! ## Instances -/

/-- Counting on, one outcome more. -/
theorem saturated_countP_concat (p : InstanceOutcome → Bool) (outcomes : List InstanceOutcome)
    (outcome : InstanceOutcome) :
    saturated ((outcomes ++ [outcome]).countP p) =
      if p outcome = true then saturatingAdd (saturated (outcomes.countP p)) 1
      else saturated (outcomes.countP p) := by
  rw [List.countP_append, List.countP_singleton]
  split
  · rw [saturatingAdd_saturated]
  · rfl

theorem after_completed (outcomes : List InstanceOutcome) :
    (after criticalPath stepCount limit outcomes).completed =
      saturated (outcomes.countP fun outcome => outcome.failure.isNone) := by
  induction outcomes using List.reverseRecOn with
  | nil => rfl
  | append_singleton outcomes outcome ih =>
      rw [saturated_countP_concat, after_concat, ← ih]
      rfl

theorem after_failed (outcomes : List InstanceOutcome) :
    (after criticalPath stepCount limit outcomes).failed =
      saturated (outcomes.countP fun outcome => outcome.failure.isSome) := by
  induction outcomes using List.reverseRecOn with
  | nil => rfl
  | append_singleton outcomes outcome ih =>
      rw [saturated_countP_concat, after_concat, ← ih]
      cases hfailure : outcome.failure <;> simp [record, hfailure]

theorem after_timedOut (outcomes : List InstanceOutcome) :
    (after criticalPath stepCount limit outcomes).timedOut =
      saturated (outcomes.countP fun outcome => outcome.failure.any (·.timedOut)) := by
  induction outcomes using List.reverseRecOn with
  | nil => rfl
  | append_singleton outcomes outcome ih =>
      rw [saturated_countP_concat, after_concat, ← ih]
      rfl

/-! ## Steps -/

/-- The counters of the steps, with the number of steps that each has counted. -/
def stepCounters (count : ℕ → ℕ) : List ℕ := (List.range stepCount).map fun i => saturated (count i)

theorem modify_stepCounters (count : ℕ → ℕ) (index : ℕ) :
    (stepCounters stepCount count).modify index (saturatingAdd · 1) =
      stepCounters stepCount fun i => if index = i then count i + 1 else count i := by
  refine List.ext_getElem? fun i => ?_
  rw [List.getElem?_modify]
  by_cases hi : i < stepCount
  · simp only [stepCounters, List.getElem?_map, List.getElem?_range hi, Option.map_some,
      Option.map_eq_map]
    split
    · rw [saturatingAdd_saturated]
    · rfl
  · simp [stepCounters, hi]

theorem stepCounters_congr {count count' : ℕ → ℕ} (h : ∀ i < stepCount, count i = count' i) :
    stepCounters stepCount count = stepCounters stepCount count' :=
  List.map_congr_left fun i hi => congrArg saturated (h i (List.mem_range.1 hi))

/-- The steps of an index that succeeded, or those that failed. -/
def stepsOf (success : Bool) (steps : List RecordedStep) (index : ℕ) : ℕ :=
  steps.countP fun step => step.index = index && step.success = success

theorem stepsOf_concat (success : Bool) (steps : List RecordedStep) (step : RecordedStep) (i : ℕ) :
    stepsOf success (steps ++ [step]) i =
      if step.index = i ∧ step.success = success then stepsOf success steps i + 1
      else stepsOf success steps i := by
  unfold stepsOf
  rw [List.countP_append, List.countP_singleton]
  split <;> simp_all

theorem recordStep_stepCounters (earlier : List RecordedStep) (step : RecordedStep) :
    recordStep stepCount
        (stepCounters stepCount (stepsOf true earlier), stepCounters stepCount (stepsOf false earlier))
        step =
      (stepCounters stepCount (stepsOf true (earlier ++ [step])),
        stepCounters stepCount (stepsOf false (earlier ++ [step]))) := by
  -- the counters of the other result stay, and so do both for an index of no step
  have hother : ∀ success, (step.success ≠ success ∨ stepCount ≤ step.index) →
      stepCounters stepCount (stepsOf success earlier) =
        stepCounters stepCount (stepsOf success (earlier ++ [step])) := by
    intro success h
    refine stepCounters_congr stepCount fun i hi => ?_
    rw [stepsOf_concat, if_neg]
    rintro ⟨rfl, hsuccess⟩
    rcases h with hne | hle
    · exact hne hsuccess
    · omega
  have hcounted : stepCounters stepCount
      (fun i => if step.index = i then stepsOf step.success earlier i + 1
        else stepsOf step.success earlier i) =
        stepCounters stepCount (stepsOf step.success (earlier ++ [step])) :=
    stepCounters_congr stepCount fun i _ => by simp [stepsOf_concat]
  unfold recordStep
  split
  · rw [modify_stepCounters, modify_stepCounters]
    split
    · next hsuccess =>
        rw [hsuccess] at hcounted
        exact Prod.ext hcounted (hother false (.inl (by simp [hsuccess])))
    · next hfailed =>
        rw [Bool.not_eq_true] at hfailed
        rw [hfailed] at hcounted
        exact Prod.ext (hother true (.inl (by simp [hfailed]))) hcounted
  · next hindex =>
      exact Prod.ext (hother true (.inr (by omega))) (hother false (.inr (by omega)))

theorem foldl_recordStep (steps earlier : List RecordedStep) :
    steps.foldl (recordStep stepCount)
        (stepCounters stepCount (stepsOf true earlier), stepCounters stepCount (stepsOf false earlier)) =
      (stepCounters stepCount (stepsOf true (earlier ++ steps)),
        stepCounters stepCount (stepsOf false (earlier ++ steps))) := by
  induction steps generalizing earlier with
  | nil => simp
  | cons step steps ih =>
      have hconcat : earlier ++ step :: steps = (earlier ++ [step]) ++ steps := by simp
      rw [List.foldl_cons, hconcat, ← ih (earlier ++ [step]), recordStep_stepCounters]

theorem after_steps (outcomes : List InstanceOutcome) :
    (after criticalPath stepCount limit outcomes).stepSuccess =
        stepCounters stepCount (stepsOf true (outcomes.flatMap (·.steps))) ∧
      (after criticalPath stepCount limit outcomes).stepFailed =
        stepCounters stepCount (stepsOf false (outcomes.flatMap (·.steps))) := by
  induction outcomes using List.reverseRecOn with
  | nil => simp [new, stepCounters, stepsOf]
  | append_singleton outcomes outcome ih =>
      obtain ⟨hsuccess, hfailed⟩ := ih
      have hfold := foldl_recordStep stepCount outcome.steps (outcomes.flatMap (·.steps))
      rw [← hsuccess, ← hfailed] at hfold
      rw [after_concat, List.flatMap_append]
      simp only [record, after_stepCount, hfold, List.flatMap_singleton, and_self]

/-! ## Failures -/

theorem failureCount_recordFailure (acc : ScenarioAccumulator) (failure : InstanceFailure)
    (key : FailureKey) :
    (recordFailure acc.failureCounts failure key).map FailureAggregate.count =
      if failure.key = key then some (saturatingAdd ((acc.failureCount key).getD 0) 1)
      else acc.failureCount key := by
  unfold recordFailure failureCount
  by_cases hkey : failure.key = key
  · subst hkey
    cases acc.failureCounts failure.key <;> simp
  · simp [hkey, Ne.symm hkey]

theorem after_failureCount (outcomes : List InstanceOutcome) (key : FailureKey) :
    (after criticalPath stepCount limit outcomes).failureCount key =
      if outcomes.countP (fun outcome => outcome.failure.any (·.key = key)) = 0 then none
      else some (saturated (outcomes.countP fun outcome => outcome.failure.any (·.key = key))) := by
  induction outcomes using List.reverseRecOn with
  | nil => rfl
  | append_singleton outcomes outcome ih =>
      have hcount : (outcomes ++ [outcome]).countP (fun outcome => outcome.failure.any (·.key = key)) =
          outcomes.countP (fun outcome => outcome.failure.any (·.key = key)) +
            if outcome.failure.any (·.key = key) = true then 1 else 0 := by
        rw [List.countP_append, List.countP_singleton]
      rw [after_concat, hcount]
      cases hfailure : outcome.failure with
      | none =>
          simp only [Option.any_none, Bool.false_eq_true, if_false, Nat.add_zero, ← ih]
          simp [failureCount, record, hfailure]
      | some failure =>
          have hrecord : ((after criticalPath stepCount limit outcomes).record criticalPath
              outcome).failureCount key =
              if failure.key = key then
                some (saturatingAdd (((after criticalPath stepCount limit outcomes).failureCount
                  key).getD 0) 1)
              else (after criticalPath stepCount limit outcomes).failureCount key := by
            rw [← failureCount_recordFailure]
            simp only [failureCount, record, hfailure]
          rw [hrecord, ih]
          by_cases hkey : failure.key = key
          · by_cases hnone : outcomes.countP (fun outcome => outcome.failure.any (·.key = key)) = 0
            · simp [hkey, hnone, saturatingAdd, saturated]
            · simp [hkey, hnone, saturatingAdd_saturated]
          · simp [hkey]

/-! ## Samples -/

theorem recordSample_eq (sampled : List (ℕ × InstanceLifecycle)) (number : ℕ)
    (lifecycle : InstanceLifecycle) (hzero : limit = 0 → sampled = []) :
    recordSample limit sampled number lifecycle =
      Smallest.offer Prod.fst limit sampled (number, lifecycle) := by
  unfold recordSample Smallest.offer
  split
  · rfl
  · next hlimit =>
      obtain rfl : limit = 0 := Nat.eq_zero_of_not_pos hlimit
      simp [hzero rfl]

theorem after_sampledInstances {outcomes : List InstanceOutcome}
    (hdistinct : KeyedList.Keyed InstanceOutcome.number outcomes) :
    (after criticalPath stepCount limit outcomes).sampledInstances =
      (Smallest.smallest InstanceOutcome.number limit outcomes).map
        fun outcome => (outcome.number, outcome.lifecycle criticalPath) := by
  have hoffer : (after criticalPath stepCount limit outcomes).sampledInstances =
      (outcomes.map fun outcome => (outcome.number, outcome.lifecycle criticalPath)).foldl
        (Smallest.offer Prod.fst limit) [] := by
    clear hdistinct
    induction outcomes using List.reverseRecOn with
    | nil => rfl
    | append_singleton outcomes outcome ih =>
        have hsample : (after criticalPath stepCount limit (outcomes ++ [outcome])).sampledInstances =
            recordSample limit (after criticalPath stepCount limit outcomes).sampledInstances
              outcome.number (outcome.lifecycle criticalPath) := by
          rw [after_concat]
          simp only [record, after_sampleLimit]
        rw [hsample, List.map_append, List.foldl_append, ih]
        refine recordSample_eq limit _ _ _ fun hzero => ?_
        exact List.eq_nil_of_length_eq_zero
          (Nat.le_zero.1 (hzero ▸ Smallest.length_foldl_offer limit _))
  have hkeyed : KeyedList.Keyed Prod.fst
      (outcomes.map fun outcome => (outcome.number, outcome.lifecycle criticalPath)) :=
    List.pairwise_map.2 hdistinct
  rw [hoffer, Smallest.foldl_offer limit hkeyed]
  exact Smallest.smallest_map (fun _ => rfl) limit outcomes

/-- **Aggregation does not depend on completion order.** For outcomes with distinct instance numbers,
    whatever their order, the counts are the same, and the sampled instances are those with the smallest
    numbers. -/
theorem record_any_order {outcomes outcomes' : List InstanceOutcome}
    (hdistinct : KeyedList.Keyed InstanceOutcome.number outcomes) (hperm : outcomes.Perm outcomes') :
    let acc := after criticalPath stepCount limit outcomes
    let acc' := after criticalPath stepCount limit outcomes'
    acc'.completed = acc.completed ∧ acc'.failed = acc.failed ∧ acc'.timedOut = acc.timedOut ∧
      acc'.stepSuccess = acc.stepSuccess ∧ acc'.stepFailed = acc.stepFailed ∧
      (∀ key, acc'.failureCount key = acc.failureCount key) ∧
      acc'.sampledInstances = acc.sampledInstances ∧
      acc.sampledInstances = (Smallest.smallest InstanceOutcome.number limit outcomes).map
        fun outcome => (outcome.number, outcome.lifecycle criticalPath) := by
  intro acc acc'
  have hdistinct' : KeyedList.Keyed InstanceOutcome.number outcomes' := hdistinct.perm hperm Ne.symm
  have hcount (p : InstanceOutcome → Bool) : outcomes'.countP p = outcomes.countP p :=
    hperm.symm.countP_eq p
  have hsteps (success : Bool) (i : ℕ) : stepsOf success (outcomes'.flatMap (·.steps)) i =
      stepsOf success (outcomes.flatMap (·.steps)) i :=
    (hperm.symm.flatMap_right _).countP_eq _
  have hcounters (success : Bool) :
      stepCounters stepCount (stepsOf success (outcomes'.flatMap (·.steps))) =
        stepCounters stepCount (stepsOf success (outcomes.flatMap (·.steps))) :=
    stepCounters_congr stepCount fun i _ => hsteps success i
  have hsampled := after_sampledInstances criticalPath stepCount limit hdistinct
  have hsampled' := after_sampledInstances criticalPath stepCount limit hdistinct'
  refine ⟨?_, ?_, ?_, ?_, ?_, fun key => ?_, ?_, hsampled⟩
  · exact (after_completed ..).trans ((congrArg saturated (hcount _)).trans (after_completed ..).symm)
  · exact (after_failed ..).trans ((congrArg saturated (hcount _)).trans (after_failed ..).symm)
  · exact (after_timedOut ..).trans ((congrArg saturated (hcount _)).trans (after_timedOut ..).symm)
  · exact ((after_steps ..).1.trans (hcounters true)).trans (after_steps ..).1.symm
  · exact ((after_steps ..).2.trans (hcounters false)).trans (after_steps ..).2.symm
  · rw [after_failureCount, after_failureCount, hcount]
  · rw [hsampled', hsampled, Smallest.smallest_perm limit hdistinct hperm]

end ScenarioAccumulator

namespace AggregationSample

def finished (number : ℕ) : InstanceOutcome where
  number
  startedAtUnixMs := 1
  finishedAtUnixMs := 2
  elapsed := 10
  steps := [⟨⟨0, "send", [], 0, 2⟩, "send", "submit", true, 2⟩]
  failure := none

def late (number : ℕ) : InstanceOutcome where
  number
  startedAtUnixMs := 1
  finishedAtUnixMs := 3
  elapsed := 20
  steps := [⟨⟨0, "send", [], 0, 5⟩, "send", "submit", false, 5⟩]
  failure := some ⟨0, "send", "timeout", true, none⟩

end AggregationSample

open AggregationSample ScenarioAccumulator in
/-- The instance that completes last has the smaller number, and is sampled. -/
theorem record_any_order_sample :
    let acc := after (fun _ => ([], 0)) 1 1 [late 1, finished 0]
    acc.completed = 1 ∧ acc.failed = 1 ∧ acc.sampledInstances.map Prod.fst = [0] ∧
      (after (fun _ => ([], 0)) 1 1 [finished 0, late 1]).sampledInstances =
        acc.sampledInstances := by
  intro acc
  have hdistinct : KeyedList.Keyed InstanceOutcome.number [late 1, finished 0] := by
    simp [KeyedList.Keyed, late, finished]
  obtain ⟨-, -, -, -, -, -, hsampled, -⟩ :=
    record_any_order (fun _ => ([], 0)) 1 1 hdistinct (List.Perm.swap (finished 0) (late 1) [])
  exact ⟨by decide, by decide, by decide, hsampled⟩

end TxGen
