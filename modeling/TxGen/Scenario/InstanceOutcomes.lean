import TxGen.Scenario.DagOutcome
import TxGen.Scenario.SequentialRun

set_option autoImplicit false

/-! # The outcomes of an instance

The critical path of an instance is computed from its outcomes. What the computation needs of them is what
the two ways of running the steps leave behind when no step fails. -/

namespace TxGen

open RuntimeContext

/-! ## DAGs -/

namespace DagRun

section

variable {τ ν : Type} {abi : Abi τ ν} {sc : ScenarioDef} {ids : StepIds} {h : sc.DagIds ids}
variable {s t : DagRun} {ctx₀ : RuntimeContext}

/-- A step is started after its dependencies have ended, by the clock of the run. -/
structure Clocked (h : sc.DagIds ids) (s : DagRun) : Prop where
  observed : ∀ o ∈ s.outcomes, o.startedOffsetMs ≤ o.finishedOffsetMs ∧ o.finishedOffsetMs ≤ s.now
  waits : ∀ run ∈ s.running, ∀ o ∈ s.outcomes, o.index ∈ h.graph.deps run.index →
    o.finishedOffsetMs ≤ run.since
  ordered : ∀ o ∈ s.outcomes, ∀ o' ∈ s.outcomes, o'.index ∈ h.graph.deps o.index →
    o'.finishedOffsetMs ≤ o.startedOffsetMs

theorem Clocked.ended (hc : Clocked h s) (hs : Scheduled sc h s) {place : ℕ} {run : RunningStep}
    {step : StepDef} {times : StepTimes} (hends : Ends sc s place run step times) (success : Bool)
    (houtcomes : t.outcomes = s.outcomes ++ [sc.recordedStep run.index step times success])
    (hrunning : t.running = s.running.eraseIdx place)
    (hnow : t.now = max s.now times.finishedOffsetMs) : Clocked h t := by
  have hrun : run ∈ s.running := List.mem_of_getElem? hends.place
  -- nothing that has been started waits for a step that still runs
  have hnot : ∀ i ∈ s.taken, run.index ∉ h.graph.deps i := fun i hi hdep =>
    hs.not_done_of_run hrun (hs.progress.closed i hi _ hdep)
  have htaken : ∀ o ∈ s.outcomes, o.index ∈ s.taken := fun o ho =>
    mem_taken.2 (hs.accounted.mem_iff.2 (List.mem_append_right _ (List.mem_map_of_mem ho)))
  have hself := hs.mem_taken_of_run hrun
  refine ⟨?_, fun r hr => ?_, ?_⟩
  · rw [houtcomes, hnow]
    refine List.forall_mem_append.2 ⟨fun o ho => ?_, List.forall_mem_singleton.2 ?_⟩
    · exact ⟨(hc.observed o ho).1, (hc.observed o ho).2.trans (le_max_left _ _)⟩
    · exact ⟨hends.ordered, le_max_right _ _⟩
  · rw [hrunning] at hr
    have hr' : r ∈ s.running := List.eraseIdx_subset hr
    rw [houtcomes]
    refine List.forall_mem_append.2 ⟨hc.waits r hr', List.forall_mem_singleton.2 fun hdep => ?_⟩
    exact absurd hdep (hnot _ (hs.mem_taken_of_run hr'))
  · rw [houtcomes]
    refine List.forall_mem_append.2 ⟨fun o ho => ?_, List.forall_mem_singleton.2 ?_⟩
    · refine List.forall_mem_append.2 ⟨hc.ordered o ho, List.forall_mem_singleton.2 fun hdep => ?_⟩
      exact absurd hdep (hnot _ (htaken o ho))
    · refine List.forall_mem_append.2 ⟨fun o ho hdep => ?_, List.forall_mem_singleton.2 fun hdep => ?_⟩
      · exact (hc.waits run hrun o ho hdep).trans hends.since
      · exact absurd hdep (hnot _ hself)

theorem Clocked.step (hc : Clocked h s) (hs : Scheduled sc h s) {l : Label ν}
    (hstep : DagRun.step abi sc s l = some t) : Clocked h t := by
  cases step_move hstep with
  | start index _ _ _ ht =>
      subst ht
      refine ⟨hc.observed, List.forall_mem_append.2 ⟨hc.waits, List.forall_mem_singleton.2 ?_⟩, hc.ordered⟩
      exact fun o ho _ => (hc.observed o ho).2
  | succeed _ _ _ _ _ _ _ hends _ _ _ ht => exact hc.ended hs hends true (ht ▸ rfl) (ht ▸ rfl) (ht ▸ rfl)
  | collide _ _ _ _ _ _ _ hends _ _ _ ht => exact hc.ended hs hends true (ht ▸ rfl) (ht ▸ rfl) (ht ▸ rfl)
  | discard _ _ _ _ hends _ ht => exact hc.ended hs hends true (ht ▸ rfl) (ht ▸ rfl) (ht ▸ rfl)
  | fail _ _ _ _ _ hends ht => exact hc.ended hs hends false (ht ▸ rfl) (ht ▸ rfl) (ht ▸ rfl)
  | finish _ _ _ ht =>
      subst ht
      exact ⟨hc.observed, hc.waits, hc.ordered⟩

theorem clocked_reachable (h : sc.DagIds ids) (hs : (dagSystem abi sc ctx₀).Reachable s) :
    Scheduled sc h s ∧ Clocked h s :=
  hs.invariant (I := fun s => Scheduled sc h s ∧ Clocked h s)
    ⟨scheduled_initial h ctx₀, by constructor <;> simp [dagSystem, initial]⟩
    fun _ _ _ hs hstep => ⟨hs.1.step hstep, hs.2.step hs.1 hstep⟩

/-- The reported outcomes of all steps are in the order of the steps. -/
theorem finished_indices (hperm : (s.finished.steps.map (·.index)).Perm (List.range sc.steps.length)) :
    s.finished.steps.map (·.index) = List.range sc.steps.length := by
  have hsorted : (s.finished.steps.map (·.index)).Pairwise (· ≤ ·) :=
    List.pairwise_map.2 (List.pairwise_insertionSort (fun a b : RecordedStep => a.index ≤ b.index) s.outcomes)
  exact hperm.eq_of_pairwise (fun _ _ _ _ hab hba => Nat.le_antisymm hab hba) hsorted
    (List.pairwise_lt_range.imp fun hlt => hlt.le)

end

end DagRun

namespace ScenarioDef

variable {sc : ScenarioDef} {outcomes : List RecordedStep}

/-- Outcomes in the order of the steps, each of its own step and after those it waits for. -/
theorem succeeded_of_recorded (hindices : outcomes.map (·.index) = List.range sc.steps.length)
    (hrecorded : ∀ o ∈ outcomes, ∃ step, sc.steps[o.index]? = some step ∧
      o.id = step.effectiveId o.index ∧ o.dependsOn = sc.stepDependencies o.index)
    (hstarted : ∀ o ∈ outcomes, o.startedOffsetMs ≤ o.finishedOffsetMs)
    (hordered : ∀ o ∈ outcomes, ∀ o' ∈ outcomes, sc.DirectlyPrecedes o'.index o.index →
      o'.finishedOffsetMs ≤ o.startedOffsetMs) :
    sc.Succeeded (outcomes.map (·.toStepOutcome)) := by
  have hlength : outcomes.length = sc.steps.length := by
    simpa using congrArg List.length hindices
  have hplace : ∀ {i : ℕ} {a : StepOutcome}, (outcomes.map (·.toStepOutcome))[i]? = some a →
      ∃ o ∈ outcomes, o.toStepOutcome = a ∧ o.index = i := by
    intro i a ha
    rw [List.getElem?_map, Option.map_eq_some_iff] at ha
    obtain ⟨o, ho, rfl⟩ := ha
    refine ⟨o, List.mem_of_getElem? ho, rfl, ?_⟩
    have hindex : (outcomes.map (·.index))[i]? = some o.index := by rw [List.getElem?_map, ho]; rfl
    rw [hindices] at hindex
    obtain ⟨_, hi⟩ := List.getElem?_eq_some_iff.1 hindex
    simpa using hi.symm
  refine ⟨by simpa using hlength, fun i a ha => ?_, fun i a ha => ?_, fun i a ha => ?_, fun a ha => ?_,
    fun i j a b ha hb hprecedes => ?_⟩
  · obtain ⟨o, -, rfl, hindex⟩ := hplace ha
    exact hindex
  · obtain ⟨o, ho, rfl, rfl⟩ := hplace ha
    obtain ⟨step, hstep, hid, -⟩ := hrecorded o ho
    rw [stepIds_getElem?, hstep, Option.map_some, ← hid]
  · obtain ⟨o, ho, rfl, rfl⟩ := hplace ha
    obtain ⟨step, -, -, hdependsOn⟩ := hrecorded o ho
    exact hdependsOn
  · obtain ⟨o, ho, rfl⟩ := List.mem_map.1 ha
    exact hstarted o ho
  · obtain ⟨o', ho', rfl, rfl⟩ := hplace ha
    obtain ⟨o, ho, rfl, rfl⟩ := hplace hb
    exact hordered o ho o' ho' hprecedes

end ScenarioDef

/-! ## Sequences -/

namespace SequentialRun

section

variable {τ ν : Type} {abi : Abi τ ν} {sc : ScenarioDef} {s t : SequentialRun} {ctx₀ : RuntimeContext}

/-- The outcomes of the steps up to the next one, one after the other. -/
structure Timed (sc : ScenarioDef) (s : SequentialRun) : Prop where
  observed : ∀ o ∈ s.outcomes, o.startedOffsetMs ≤ o.finishedOffsetMs ∧ o.finishedOffsetMs ≤ s.now
  ordered : s.outcomes.Pairwise fun a b => a.index < b.index ∧ a.finishedOffsetMs ≤ b.startedOffsetMs
  recorded : ∀ o ∈ s.outcomes, ∃ step, sc.steps[o.index]? = some step ∧
    o.id = step.effectiveId o.index ∧ o.dependsOn = sc.stepDependencies o.index
  bounded : ∀ o ∈ s.outcomes, o.index ≤ s.next ∧ (s.result = none → o.index < s.next)
  indices : s.result = none → s.outcomes.map (·.index) = List.range s.next
  ended : ∀ r, s.result = some r → r.steps = s.outcomes ∧
    (r.failure = none → s.outcomes.map (·.index) = List.range sc.steps.length)

/-- One more outcome, after which the instance goes on or ends with a failure. -/
theorem Timed.execute (hs : Timed sc s) (hresult : s.result = none) {step : StepDef}
    (hstep : sc.steps[s.next]? = some step) {times : StepTimes} {success : Bool}
    (hnow : s.now ≤ times.startedOffsetMs) (hordered : times.startedOffsetMs ≤ times.finishedOffsetMs)
    (houtcomes : t.outcomes = s.outcomes ++ [sc.recordedStep s.next step times success])
    (htime : t.now = times.finishedOffsetMs)
    (hend : (t.next = s.next ∧ ∃ error, t.result = some ⟨t.outcomes, some (s.next, error)⟩) ∨
      (t.next = s.next + 1 ∧ t.result = none)) : Timed sc t := by
  have hbefore : ∀ o ∈ s.outcomes, o.index < s.next := fun o ho => (hs.bounded o ho).2 hresult
  refine ⟨?_, ?_, ?_, ?_, fun hnone => ?_, fun r hr => ?_⟩
  · rw [houtcomes, htime]
    refine List.forall_mem_append.2 ⟨fun o ho => ?_, List.forall_mem_singleton.2 ⟨hordered, le_refl _⟩⟩
    obtain ⟨hle, hobserved⟩ := hs.observed o ho
    exact ⟨hle, (hobserved.trans hnow).trans hordered⟩
  · rw [houtcomes]
    refine List.pairwise_append.2 ⟨hs.ordered, List.pairwise_singleton _ _, fun o ho o' ho' => ?_⟩
    obtain rfl := List.mem_singleton.1 ho'
    exact ⟨hbefore o ho, (hs.observed o ho).2.trans hnow⟩
  · rw [houtcomes]
    exact List.forall_mem_append.2 ⟨hs.recorded, List.forall_mem_singleton.2 ⟨step, hstep, rfl, rfl⟩⟩
  · rw [houtcomes]
    rcases hend with ⟨hnext, error, hresult'⟩ | ⟨hnext, -⟩
    · refine List.forall_mem_append.2 ⟨fun o ho => ?_, List.forall_mem_singleton.2 ⟨hnext.ge, ?_⟩⟩
      · exact ⟨hnext ▸ (hbefore o ho).le, fun _ => hnext ▸ hbefore o ho⟩
      · intro hnone
        rw [hresult'] at hnone
        cases hnone
    · refine List.forall_mem_append.2 ⟨fun o ho => ?_, List.forall_mem_singleton.2 ?_⟩
      · have := hbefore o ho
        exact ⟨by omega, fun _ => by omega⟩
      · have hindex : (sc.recordedStep s.next step times success).index = s.next := rfl
        exact ⟨by omega, fun _ => by omega⟩
  · rcases hend with ⟨-, error, hresult'⟩ | ⟨hnext, -⟩
    · rw [hresult'] at hnone
      cases hnone
    · rw [houtcomes, hnext, List.map_append, hs.indices hresult, List.range_succ]
      rfl
  · rcases hend with ⟨-, error, hresult'⟩ | ⟨-, hnone⟩
    · obtain rfl := Option.some.inj (hresult'.symm.trans hr)
      exact ⟨rfl, nofun⟩
    · rw [hnone] at hr
      cases hr

theorem Timed.step (hs : Timed sc s) {l : Label ν} (h : SequentialRun.step abi sc s l = some t) :
    Timed sc t := by
  cases l with
  | execute world times =>
      simp only [SequentialRun.step, Option.bind_eq_bind, Option.bind_eq_some_iff,
        Option.ite_none_right_eq_some, Option.some.injEq] at h
      obtain ⟨step, hstep, ⟨hresult, hnow, hordered⟩, ht⟩ := h
      have hnone := Option.isNone_iff_eq_none.1 hresult
      unfold executed ScenarioDef.executeOneStep at ht
      dsimp only at ht
      split at ht
      · subst ht
        exact hs.execute hnone hstep hnow hordered rfl rfl (Or.inl ⟨rfl, _, rfl⟩)
      · split at ht
        · subst ht
          exact hs.execute hnone hstep hnow hordered rfl rfl (Or.inl ⟨rfl, _, rfl⟩)
        · subst ht
          exact hs.execute hnone hstep hnow hordered rfl rfl (Or.inr ⟨rfl, hnone⟩)
  | finish =>
      simp only [SequentialRun.step, Option.ite_none_right_eq_some, Option.some.injEq] at h
      obtain ⟨⟨hresult, hnext⟩, ht⟩ := h
      have hnone := Option.isNone_iff_eq_none.1 hresult
      subst ht
      refine { hs with bounded := fun o ho => ?_, indices := by rintro ⟨⟩, ended := fun r hr => ?_ }
      · exact ⟨(hs.bounded o ho).1, by rintro ⟨⟩⟩
      · obtain rfl := Option.some.inj hr
        exact ⟨rfl, fun _ => hnext ▸ hs.indices hnone⟩

theorem timed_reachable (h : (sequentialSystem abi sc ctx₀).Reachable s) : Timed sc s :=
  h.invariant (by constructor <;> simp [sequentialSystem]) fun _ _ _ hs hstep => hs.step hstep

end

end SequentialRun

/-- The outcomes of an instance in which no step failed are what the critical path is computed from: each
step once, in order, after the steps it waits for. So the observed critical path of every such instance of a
DAG is well defined, and that of a sequential one just if no two steps have the same ID. -/
theorem instance_outcomes_succeeded {spec : ScenarioSpec} {parseUrl : String → Option String}
    (hok : spec.validate parseUrl = .ok ()) {τ ν : Type} (abi : Abi τ ν) (ctx₀ : RuntimeContext) :
    (spec.scenario.execution = .dag → ∀ s r, (dagSystem abi spec.scenario ctx₀).Reachable s →
      s.result = some r → r.failure = none →
      spec.scenario.Succeeded (r.steps.map (·.toStepOutcome)) ∧
        CriticalPath.Correct (r.steps.map (·.toStepOutcome))) ∧
    (spec.scenario.execution = .sequential → ∀ s r, (sequentialSystem abi spec.scenario ctx₀).Reachable s →
      s.result = some r → r.failure = none →
      spec.scenario.Succeeded (r.steps.map (·.toStepOutcome)) ∧
        (CriticalPath.Correct (r.steps.map (·.toStepOutcome)) ↔ spec.scenario.stepIds.Nodup)) := by
  refine ⟨fun hdag s r hs hr hnone => ?_, fun hmode s r hs hr hnone => ?_⟩
  · obtain ⟨ids, h, hacyclic, -⟩ := spec.checked_dag hok hdag
    obtain ⟨hscheduled, hclocked⟩ := DagRun.clocked_reachable h hs
    obtain ⟨rfl, hrunning, hsettled⟩ := DagRun.ended_reachable hs hr
    have hall := (hscheduled.all_started hacyclic (DagRun.finished_failure.1 hnone) hrunning hsettled).1
    have hindices := DagRun.finished_indices ((hscheduled.finished_perm hrunning).trans hall)
    have hsucceeded : spec.scenario.Succeeded (s.finished.steps.map (·.toStepOutcome)) := by
      refine ScenarioDef.succeeded_of_recorded hindices
        (fun o ho => hscheduled.recorded o (DagRun.mem_finished.1 ho))
        (fun o ho => (hclocked.observed o (DagRun.mem_finished.1 ho)).1) fun o ho o' ho' hprecedes => ?_
      exact hclocked.ordered o (DagRun.mem_finished.1 ho) o' (DagRun.mem_finished.1 ho')
        ((h.edge_iff hdag).2 hprecedes).2
    exact ⟨hsucceeded, (observedCriticalPath_correct_iff hok hsucceeded).2 h.stepIds_nodup⟩
  · have htimed := SequentialRun.timed_reachable hs
    obtain ⟨hsteps, hindices⟩ := htimed.ended r hr
    have hsucceeded : spec.scenario.Succeeded (r.steps.map (·.toStepOutcome)) := by
      rw [hsteps]
      refine ScenarioDef.succeeded_of_recorded (hindices hnone) htimed.recorded
        (fun o ho => (htimed.observed o ho).1) fun o ho o' ho' hprecedes => ?_
      have hlt : o'.index < o.index := by
        unfold ScenarioDef.DirectlyPrecedes at hprecedes
        rw [hmode] at hprecedes
        exact hprecedes.1
      -- the outcome of the earlier step stands first
      obtain ⟨i, hi⟩ := List.mem_iff_getElem?.1 ho'
      obtain ⟨j, hj⟩ := List.mem_iff_getElem?.1 ho
      obtain ⟨hi', rfl⟩ := List.getElem?_eq_some_iff.1 hi
      obtain ⟨hj', rfl⟩ := List.getElem?_eq_some_iff.1 hj
      rcases Nat.lt_trichotomy i j with hij | rfl | hij
      · exact (List.pairwise_iff_getElem.1 htimed.ordered i j hi' hj' hij).2
      · exact absurd hlt (lt_irrefl _)
      · exact absurd hlt (List.pairwise_iff_getElem.1 htimed.ordered j i hj' hi' hij).1.not_gt
    exact ⟨hsucceeded, observedCriticalPath_correct_iff hok hsucceeded⟩

open DagSample in
theorem instance_outcomes_succeeded_sample : ∃ (s : DagRun) (r : StepsResult),
    (run "config").Reachable s ∧ s.result = some r ∧
      CriticalPath.Correct (r.steps.map (·.toStepOutcome)) := by
  have hok : (spec "config").validate (fun _ => none) = .ok () := by decide
  obtain ⟨s, r, hs, hr, hnone, -⟩ := early_run "config" (Or.inr rfl)
  exact ⟨s, r, hs, hr, ((instance_outcomes_succeeded hok abi {}).1 rfl s r hs hr hnone).2⟩

end TxGen
