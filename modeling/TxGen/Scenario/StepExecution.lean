import TxGen.Scenario.Accumulator
import TxGen.Scenario.InstanceContext

set_option autoImplicit false

/-! # One step of an instance

`execute_one_step` and what is done with its result: the outcome that is recorded, and the save. Both ways
of running the steps of an instance use it. -/

namespace TxGen

open RuntimeContext

/-- The name of a step in reports. -/
def StepDef.name (step : StepDef) (index : ℕ) : String :=
  step.save.getD s!"step_{index + 1}_{step.action.name}"

/-- The times of an outcome. -/
structure StepTimes where
  startedOffsetMs : ℕ
  finishedOffsetMs : ℕ
  latency : ℕ

/-- What an instance leaves behind: its outcomes, and the step that failed. -/
structure StepsResult where
  steps : List RecordedStep
  failure : Option (ℕ × Report)

section Execute

variable {τ ν : Type} (abi : Abi τ ν) (sc : ScenarioDef)

def ScenarioDef.recordedStep (index : ℕ) (step : StepDef) (times : StepTimes) (success : Bool) :
    RecordedStep where
  index
  id := step.effectiveId index
  name := step.name index
  kind := step.action.name
  dependsOn := sc.stepDependencies index
  success
  latency := times.latency
  startedOffsetMs := times.startedOffsetMs
  finishedOffsetMs := times.finishedOffsetMs

/-- `execute_one_step`; a timeout is an error of the world. -/
def ScenarioDef.executeOneStep (world : World ν) (index : ℕ) (step : StepDef) (ctx : RuntimeContext)
    (times : StepTimes) : Except Report StepAnswer × RecordedStep :=
  let result := executeStep world abi step ctx
  (result, sc.recordedStep index step times result.toOption.isSome)

end Execute

/-- The save of a step that succeeded. -/
def saveResult (ctx : RuntimeContext) (step : StepDef) (answer : StepAnswer) :
    Except Report RuntimeContext :=
  match step.save with
  | some save => ctx.withPath save (answer.value step.action.chain)
  | none => .ok ctx

namespace RuntimeContext

theorem withPaths_append {ctx last : RuntimeContext} {xs ys : List SavedValue} :
    ctx.withPaths (xs ++ ys) = .ok last ↔
      ∃ mid, ctx.withPaths xs = .ok mid ∧ mid.withPaths ys = .ok last := by
  rw [withPaths, List.foldlM_append]
  exact bind_eq_ok

end RuntimeContext

section

variable {sc : ScenarioDef}

/-- Saving a result is saving what the scenario says of it. -/
theorem saveResult_iff {ctx next : RuntimeContext} {index : ℕ} {step : StepDef} {answer : StepAnswer}
    (hstep : sc.steps[index]? = some step) : saveResult ctx step answer = .ok next ↔
      ctx.withPaths (sc.savedValues [(index, answer)]) = .ok next := by
  have hsaved : sc.savedValue (index, answer) =
      step.save.map fun save => (save, answer.value step.action.chain) := by
    cases hsave : step.save <;> simp [ScenarioDef.savedValue, hstep, hsave]
  unfold saveResult
  cases hsave : step.save with
  | none =>
      have hnone : sc.savedValues [(index, answer)] = [] := by
        simp [ScenarioDef.savedValues, hsaved, hsave]
      rw [hnone]
      exact Iff.rfl
  | some save =>
      have hone : sc.savedValues [(index, answer)] = [(save, answer.value step.action.chain)] := by
        simp [ScenarioDef.savedValues, hsaved, hsave]
      rw [hone, withPaths_cons]
      constructor
      · exact fun h => ⟨next, h, rfl⟩
      · rintro ⟨mid, hmid, hlast⟩
        obtain rfl := Except.ok.inj hlast
        exact hmid

/-- With the names of an accepted scenario, the saves of distinct steps succeed and are held. -/
theorem holds_savedValues (hnames : sc.NamesApart) {draw : String → BindingDraw} {ctx₀ : RuntimeContext}
    (hbind : sc.bindInstance draw = .ok ctx₀) {succeeded : List (ℕ × StepAnswer)}
    (hnodup : (succeeded.map Prod.fst).Nodup) :
    ∃ ctx, ctx₀.withPaths (sc.savedValues succeeded) = .ok ctx ∧
      Holds ctx (sc.bindRoots draw ++ sc.savedValues succeeded) :=
  (holds_new hbind).withPaths (hnames.pathsApart draw hnodup)

end

end TxGen
