import TxGen.Lib.System
import TxGen.Scenario.Shapes
import TxGen.Scenario.StepExecution

set_option autoImplicit false

/-! # Running steps one after the other

`run_sequential_instance`: every step is given the context with the saves of all steps before it, and the
first failure ends the instance. What the chains answer and the times of the outcomes are the labels. -/

namespace TxGen

open RuntimeContext

/-- The variables of the loop; what has succeeded and the latest time are kept besides. -/
structure SequentialRun where
  context : RuntimeContext
  next : ℕ := 0
  outcomes : List RecordedStep := []
  result : Option StepsResult := none
  succeeded : List (ℕ × StepAnswer) := []
  now : ℕ := 0

namespace SequentialRun

inductive Label (ν : Type)
  /-- The next step is executed. -/
  | execute (world : World ν) (times : StepTimes)
  /-- There is no next step. -/
  | finish

variable {τ ν : Type} (abi : Abi τ ν) (sc : ScenarioDef)

def fail (s : SequentialRun) (error : Report) : SequentialRun :=
  { s with result := some ⟨s.outcomes, some (s.next, error)⟩ }

/-- What becomes of the next step. -/
def executed (s : SequentialRun) (step : StepDef) (ended : Except Report StepAnswer × RecordedStep) :
    SequentialRun :=
  let s := { s with outcomes := s.outcomes ++ [ended.2], now := ended.2.finishedOffsetMs }
  match ended.1 with
  | .error error => s.fail error
  | .ok answer =>
    match saveResult s.context step answer with
    | .error error => s.fail error
    | .ok context =>
      { s with context, next := s.next + 1, succeeded := s.succeeded ++ [(s.next, answer)] }

def step (s : SequentialRun) : Label ν → Option SequentialRun
  | .execute world times => do
    let step ← sc.steps[s.next]?
    if s.result.isNone ∧ s.now ≤ times.startedOffsetMs ∧ times.startedOffsetMs ≤ times.finishedOffsetMs then
      some (s.executed step (sc.executeOneStep abi world s.next step s.context times))
    else none
  | .finish =>
    if s.result.isNone ∧ s.next = sc.steps.length then some { s with result := some ⟨s.outcomes, none⟩ }
    else none

end SequentialRun

/-- `run_sequential_instance`, started with a context. -/
def sequentialSystem {τ ν : Type} (abi : Abi τ ν) (sc : ScenarioDef) (ctx : RuntimeContext) :
    System SequentialRun (SequentialRun.Label ν) where
  init := { context := ctx }
  step := SequentialRun.step abi sc

namespace SequentialRun

section

variable {τ ν : Type} {abi : Abi τ ν} {sc : ScenarioDef} {s t : SequentialRun} {ctx₀ : RuntimeContext}

/-- The loop is at step `next`, and all steps before it have succeeded and saved. -/
structure Inv (sc : ScenarioDef) (ctx₀ : RuntimeContext) (s : SequentialRun) : Prop where
  succeeded : s.succeeded.map Prod.fst = List.range s.next
  context : ctx₀.withPaths (sc.savedValues s.succeeded) = .ok s.context
  produced : ∀ x ∈ s.succeeded, ∃ step, sc.steps[x.1]? = some step ∧ step.Produces x.2

theorem inv_init : Inv sc ctx₀ { context := ctx₀ } := ⟨rfl, rfl, nofun⟩

theorem Inv.advance (hs : Inv sc ctx₀ s) {step : StepDef} (hstep : sc.steps[s.next]? = some step)
    {world : World ν} {answer : StepAnswer} (hexecute : executeStep world abi step s.context = .ok answer)
    {context : RuntimeContext} (hsave : saveResult s.context step answer = .ok context)
    (hcontext : t.context = context) (hnext : t.next = s.next + 1)
    (hsucceeded : t.succeeded = s.succeeded ++ [(s.next, answer)]) : Inv sc ctx₀ t := by
  refine ⟨?_, ?_, ?_⟩
  · rw [hsucceeded, hnext, List.map_append, hs.succeeded, List.range_succ]
    rfl
  · rw [hsucceeded, hcontext, ScenarioDef.savedValues, List.filterMap_append]
    exact withPaths_append.2 ⟨s.context, hs.context, (saveResult_iff hstep).1 hsave⟩
  · rw [hsucceeded]
    exact List.forall_mem_append.2 ⟨hs.produced, List.forall_mem_singleton.2
      ⟨step, hstep, executeStep_produces hexecute⟩⟩

theorem Inv.step (hs : Inv sc ctx₀ s) {l : Label ν} (h : SequentialRun.step abi sc s l = some t) :
    Inv sc ctx₀ t := by
  cases l with
  | execute world times =>
      simp only [SequentialRun.step, Option.bind_eq_bind, Option.bind_eq_some_iff,
        Option.ite_none_right_eq_some, Option.some.injEq] at h
      obtain ⟨step, hstep, -, ht⟩ := h
      unfold executed ScenarioDef.executeOneStep at ht
      dsimp only at ht
      split at ht
      · exact ht ▸ ⟨hs.succeeded, hs.context, hs.produced⟩
      · rename_i answer hexecute
        split at ht
        · exact ht ▸ ⟨hs.succeeded, hs.context, hs.produced⟩
        · rename_i context hsave
          exact hs.advance hstep hexecute hsave (ht ▸ rfl) (ht ▸ rfl) (ht ▸ rfl)
  | finish =>
      simp only [SequentialRun.step, Option.ite_none_right_eq_some, Option.some.injEq] at h
      exact h.2 ▸ ⟨hs.succeeded, hs.context, hs.produced⟩

theorem inv_reachable (h : (sequentialSystem abi sc ctx₀).Reachable s) : Inv sc ctx₀ s :=
  h.invariant inv_init fun _ _ _ hs hstep => hs.step hstep

theorem Inv.holds (hs : Inv sc ctx₀ s) (hnames : sc.NamesApart) {draw : String → BindingDraw}
    (hbind : sc.bindInstance draw = .ok ctx₀) :
    Holds s.context (sc.bindRoots draw ++ sc.savedValues s.succeeded) := by
  have hnodup : (s.succeeded.map Prod.fst).Nodup := hs.succeeded ▸ List.nodup_range
  obtain ⟨ctx, hctx, hholds⟩ := holds_savedValues hnames hbind hnodup
  obtain rfl := Except.ok.inj (hs.context.symm.trans hctx)
  exact hholds

end

end SequentialRun

end TxGen
