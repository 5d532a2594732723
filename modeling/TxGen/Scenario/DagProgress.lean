import TxGen.Scenario.DagRun

set_option autoImplicit false

/-! # The schedule of a DAG

Counters and ready set are those of the steps that have succeeded, whatever the running steps do: a step is
started once, after its dependencies, and every start has its outcome or still runs. -/

namespace TxGen

namespace DagRun

/-! ## Moves -/

/-- A step among those running ends, whatever becomes of its result. -/
def ended (s : DagRun) (place : ℕ) (outcome : RecordedStep) : DagRun :=
  { s with
    running := s.running.eraseIdx place
    outcomes := s.outcomes ++ [outcome]
    now := max s.now outcome.finishedOffsetMs }

/-- A running step whose turn it is to end, with the times of its outcome. -/
structure Ends (sc : ScenarioDef) (s : DagRun) (place : ℕ) (run : RunningStep) (step : StepDef)
    (times : StepTimes) : Prop where
  place : s.running[place]? = some run
  step : sc.steps[run.index]? = some step
  settled : s.settled = true
  result : s.result = none
  since : run.since ≤ times.startedOffsetMs
  ordered : times.startedOffsetMs ≤ times.finishedOffsetMs

/-- What one step of the loop does. -/
inductive Move {τ ν : Type} (abi : Abi τ ν) (sc : ScenarioDef) (s t : DagRun) : Prop
  | start (index : ℕ) : s.failures = [] → s.result = none → index ∈ s.ready →
      t = { s with
        ready := s.ready.erase index
        running := s.running ++ [⟨index, s.context, s.now⟩]
        started := s.started ++ [(index, s.context)] } → Move abi sc s t
  /-- A step succeeds before any has failed. -/
  | succeed (place : ℕ) (run : RunningStep) (step : StepDef) (times : StepTimes) (world : World ν)
      (answer : StepAnswer) (next : RuntimeContext) : Ends sc s place run step times → s.failures = [] →
      executeStep world abi step run.context = .ok answer → saveResult s.context step answer = .ok next →
      t = { s.ended place (sc.recordedStep run.index step times true) with
        context := next
        remainingDependencies := (DepGraph.release (dependentsOf sc.effectiveIds sc.steps run.index)
          s.remainingDependencies s.ready).1
        ready := (DepGraph.release (dependentsOf sc.effectiveIds sc.steps run.index)
          s.remainingDependencies s.ready).2
        succeeded := s.succeeded ++ [(run.index, answer)] } → Move abi sc s t
  /-- A step succeeds, but its value cannot be saved. -/
  | collide (place : ℕ) (run : RunningStep) (step : StepDef) (times : StepTimes) (world : World ν)
      (answer : StepAnswer) (error : Report) : Ends sc s place run step times → s.failures = [] →
      executeStep world abi step run.context = .ok answer →
      saveResult s.context step answer = .error error →
      t = { s.ended place (sc.recordedStep run.index step times true) with
        failures := s.failures ++ [(run.index, error)] } → Move abi sc s t
  /-- A step succeeds after another has failed. -/
  | discard (place : ℕ) (run : RunningStep) (step : StepDef) (times : StepTimes) :
      Ends sc s place run step times → s.failures ≠ [] →
      t = s.ended place (sc.recordedStep run.index step times true) → Move abi sc s t
  | fail (place : ℕ) (run : RunningStep) (step : StepDef) (times : StepTimes) (error : Report) :
      Ends sc s place run step times →
      t = { s.ended place (sc.recordedStep run.index step times false) with
        failures := s.failures ++ [(run.index, error)] } → Move abi sc s t
  | finish : s.settled = true → s.running = [] → s.result = none →
      t = { s with result := some s.finished } → Move abi sc s t

section

variable {τ ν : Type} {abi : Abi τ ν} {sc : ScenarioDef} {s t : DagRun}

theorem complete_move {place : ℕ} {run : RunningStep} {step : StepDef} {times : StepTimes}
    {world : World ν} (hends : Ends sc s place run step times)
    (h : complete sc s place run.index step
      (sc.executeOneStep abi world run.index step run.context times) = t) : Move abi sc s t := by
  unfold complete ScenarioDef.executeOneStep at h
  dsimp only at h
  cases hexecute : executeStep world abi step run.context with
  | error error =>
      rw [hexecute] at h
      exact .fail place run step times error hends h.symm
  | ok answer =>
      rw [hexecute] at h
      dsimp only at h
      split at h
      · rename_i hfailures
        unfold succeed at h
        dsimp only at h
        split at h
        · rename_i error hsave
          exact .collide place run step times world answer error hends hfailures hexecute hsave h.symm
        · rename_i next hsave
          exact .succeed place run step times world answer next hends hfailures hexecute hsave h.symm
      · rename_i hfailures
        exact .discard place run step times hends hfailures h.symm

theorem step_move {l : Label ν} (h : DagRun.step abi sc s l = some t) : Move abi sc s t := by
  cases l with
  | start =>
      simp only [DagRun.step, Option.ite_none_right_eq_some] at h
      obtain ⟨⟨hfailures, hresult⟩, hstart⟩ := h
      obtain ⟨⟨index, ready⟩, hpop, rfl⟩ := Option.map_eq_some_iff.1 hstart
      obtain ⟨hready, rfl⟩ := DepGraph.popFirst_some hpop
      exact .start index hfailures (Option.isNone_iff_eq_none.1 hresult) hready rfl
  | complete place world times =>
      simp only [DagRun.step, Option.bind_eq_bind, Option.bind_eq_some_iff,
        Option.ite_none_right_eq_some, Option.some.injEq] at h
      obtain ⟨run, hplace, step, hstep, ⟨hsettled, hresult, hsince, hordered⟩, ht⟩ := h
      exact complete_move ⟨hplace, hstep, hsettled, Option.isNone_iff_eq_none.1 hresult, hsince,
        hordered⟩ ht
  | finish =>
      simp only [DagRun.step, Option.ite_none_right_eq_some, Option.some.injEq] at h
      obtain ⟨⟨hsettled, hrunning, hresult⟩, ht⟩ := h
      exact .finish hsettled hrunning (Option.isNone_iff_eq_none.1 hresult) ht.symm

/-! ## Counters -/

variable {ids : StepIds}

theorem toFinset_names_concat {α : Type} (l : List (ℕ × α)) (x : ℕ × α) :
    ((l ++ [x]).map Prod.fst).toFinset = insert x.1 (l.map Prod.fst).toFinset := by
  ext i
  simp only [List.map_append, List.map_cons, List.map_nil, List.toFinset_append, List.toFinset_cons,
    List.toFinset_nil, Finset.mem_union, Finset.mem_insert, Finset.notMem_empty, or_false]
  exact or_comm

theorem nodup_names_concat {α : Type} {l : List (ℕ × α)} {x : ℕ × α} (hl : (l.map Prod.fst).Nodup)
    (hx : x.1 ∉ l.map Prod.fst) : ((l ++ [x]).map Prod.fst).Nodup := by
  rw [List.map_append, List.nodup_append]
  refine ⟨hl, List.nodup_singleton _, fun i hi j hj heq => hx ?_⟩
  rw [List.map_singleton, List.mem_singleton] at hj
  exact hj ▸ heq ▸ hi

def taken (s : DagRun) : Finset ℕ := (s.started.map Prod.fst).toFinset

def done (s : DagRun) : Finset ℕ := (s.succeeded.map Prod.fst).toFinset

theorem mem_taken {i : ℕ} : i ∈ s.taken ↔ i ∈ s.started.map Prod.fst := List.mem_toFinset

theorem mem_done {i : ℕ} : i ∈ s.done ↔ i ∈ s.succeeded.map Prod.fst := List.mem_toFinset

/-- The counters are right, and every start is accounted for. -/
structure Scheduled (sc : ScenarioDef) (h : sc.DagIds ids) (s : DagRun) : Prop where
  progress : h.graph.Progress s.taken s.done s.remainingDependencies s.ready
  startedOnce : (s.started.map Prod.fst).Nodup
  accounted : (s.started.map Prod.fst).Perm (s.running.map (·.index) ++ s.outcomes.map (·.index))
  runs : ∀ run ∈ s.running, (run.index, run.context) ∈ s.started
  succeededOnce : (s.succeeded.map Prod.fst).Nodup
  succeeded : ∀ i ∈ s.succeeded.map Prod.fst, ∃ o ∈ s.outcomes, o.index = i ∧ o.success = true
  unfailed : s.failures = [] → ∀ o ∈ s.outcomes, o.index ∈ s.succeeded.map Prod.fst
  /-- The outcomes are those of the steps. -/
  recorded : ∀ o ∈ s.outcomes, ∃ step, sc.steps[o.index]? = some step ∧
    o.id = step.effectiveId o.index ∧ o.dependsOn = sc.stepDependencies o.index

theorem scheduled_initial (h : sc.DagIds ids) (ctx : RuntimeContext) :
    Scheduled sc h (initial sc ctx) := by
  refine ⟨?_, List.nodup_nil, List.Perm.nil, nofun, List.nodup_nil, nofun, fun _ => nofun, nofun⟩
  refine .init (fun v _ => (ScenarioDef.length_deps h v).symm) fun v => ?_
  simp only [initial, Finset.mem_filter, Finset.mem_range]
  exact Iff.rfl

/-- Ending moves one index from those running to the outcomes. -/
theorem perm_ended {place : ℕ} {run : RunningStep} {outcome : RecordedStep}
    (hplace : s.running[place]? = some run) (hindex : outcome.index = run.index) :
    (s.running.map (·.index) ++ s.outcomes.map (·.index)).Perm
      ((s.ended place outcome).running.map (·.index) ++ (s.ended place outcome).outcomes.map (·.index)) := by
  obtain ⟨hlt, rfl⟩ := List.getElem?_eq_some_iff.1 hplace
  have hperm := ((List.getElem_cons_eraseIdx_perm hlt).map (·.index)).symm
  refine (hperm.append_right _).trans ?_
  simp only [ended, List.map_cons, List.cons_append, List.map_append, hindex, List.map_nil,
    ← List.append_assoc]
  exact @List.perm_append_comm _ [s.running[place].index] _

namespace Scheduled

variable {h : sc.DagIds ids}

theorem mem_taken_of_run (hs : Scheduled sc h s) {run : RunningStep} (hrun : run ∈ s.running) :
    run.index ∈ s.taken :=
  mem_taken.2 (List.mem_map.2 ⟨_, hs.runs run hrun, rfl⟩)

/-- What still runs has no outcome. -/
theorem outcome_ne (hs : Scheduled sc h s) {run : RunningStep} (hrun : run ∈ s.running)
    {o : RecordedStep} (ho : o ∈ s.outcomes) : o.index ≠ run.index := by
  have hnodup := (hs.accounted.nodup_iff.1 hs.startedOnce)
  exact fun heq => (List.nodup_append.1 hnodup).2.2 _ (List.mem_map_of_mem hrun) _
    (List.mem_map_of_mem ho) heq.symm

theorem not_done_of_run (hs : Scheduled sc h s) {run : RunningStep} (hrun : run ∈ s.running) :
    run.index ∉ s.done := by
  intro hdone
  obtain ⟨o, ho, heq, -⟩ := hs.succeeded _ (mem_done.1 hdone)
  exact hs.outcome_ne hrun ho heq

theorem start (hs : Scheduled sc h s) {index : ℕ} (hready : index ∈ s.ready) :
    Scheduled sc h { s with
      ready := s.ready.erase index
      running := s.running ++ [⟨index, s.context, s.now⟩]
      started := s.started ++ [(index, s.context)] } := by
  have hfresh : index ∉ s.taken := ((hs.progress.ready_iff index).1 hready).2.1
  refine { hs with
    progress := ?_, startedOnce := ?_, accounted := ?_, runs := fun run hrun => ?_ }
  · rw [taken, toFinset_names_concat]
    exact hs.progress.take hready
  · exact nodup_names_concat hs.startedOnce fun hin => hfresh (mem_taken.2 hin)
  · have hstarted := hs.accounted.append_right [index]
    simp only [List.map_append, List.map_cons, List.map_nil]
    refine hstarted.trans ?_
    rw [List.append_assoc, List.append_assoc]
    exact List.perm_append_comm.append_left _
  · rcases List.mem_append.1 hrun with hrun | hrun
    · exact List.mem_append_left _ (hs.runs run hrun)
    · rw [List.mem_singleton.1 hrun]
      exact List.mem_append_right _ List.mem_cons_self

/-- The outcome of a step is added to the others. -/
theorem recordedStep_ended (hs : Scheduled sc h s) {place : ℕ} {run : RunningStep} {step : StepDef}
    {times : StepTimes} (hends : Ends sc s place run step times) (success : Bool) :
    ∀ o ∈ (s.ended place (sc.recordedStep run.index step times success)).outcomes,
      ∃ step, sc.steps[o.index]? = some step ∧ o.id = step.effectiveId o.index ∧
        o.dependsOn = sc.stepDependencies o.index :=
  List.forall_mem_append.2 ⟨hs.recorded, List.forall_mem_singleton.2 ⟨step, hends.step, rfl, rfl⟩⟩

/-- A step ends without releasing its dependents. -/
theorem ended (hs : Scheduled sc h s) {place : ℕ} {run : RunningStep} {step : StepDef}
    {times : StepTimes} (hends : Ends sc s place run step times) (success : Bool)
    {failures : List (ℕ × Report)} (hfailures : failures ≠ []) :
    Scheduled sc h { s.ended place (sc.recordedStep run.index step times success) with failures } where
  progress := hs.progress
  startedOnce := hs.startedOnce
  accounted := hs.accounted.trans (perm_ended hends.place rfl)
  runs r hr := hs.runs r (List.eraseIdx_subset hr)
  succeededOnce := hs.succeededOnce
  succeeded i hi := by
    obtain ⟨o, ho, hindex, hsuccess⟩ := hs.succeeded i hi
    exact ⟨o, List.mem_append_left _ ho, hindex, hsuccess⟩
  unfailed hnone := absurd hnone hfailures
  recorded := hs.recordedStep_ended hends success

theorem succeed (hs : Scheduled sc h s) {place : ℕ} {run : RunningStep} {step : StepDef}
    {times : StepTimes} (hends : Ends sc s place run step times) (hfailures : s.failures = [])
    (answer : StepAnswer) (next : RuntimeContext) :
    Scheduled sc h { s.ended place (sc.recordedStep run.index step times true) with
      context := next
      remainingDependencies := (DepGraph.release (dependentsOf sc.effectiveIds sc.steps run.index)
        s.remainingDependencies s.ready).1
      ready := (DepGraph.release (dependentsOf sc.effectiveIds sc.steps run.index)
        s.remainingDependencies s.ready).2
      succeeded := s.succeeded ++ [(run.index, answer)] } := by
  have hrun : run ∈ s.running := List.mem_of_getElem? hends.place
  have hnot := hs.not_done_of_run hrun
  have hids : sc.effectiveIds = fun id => ids.lookup id := funext h.effectiveIds_eq
  refine ⟨?_, hs.startedOnce, hs.accounted.trans (perm_ended hends.place rfl),
    fun r hr => hs.runs r (List.eraseIdx_subset hr), ?_, fun i hi => ?_, fun hnone => ?_,
    hs.recordedStep_ended hends true⟩
  · have hprogress := hs.progress.complete (hs.mem_taken_of_run hrun) hnot
      (ScenarioDef.dependentsOf_nodup h run.index) fun v => ScenarioDef.mem_dependentsOf h
    rw [← hids] at hprogress
    rw [done, toFinset_names_concat]
    exact hprogress
  · exact nodup_names_concat hs.succeededOnce fun hin => hnot (mem_done.2 hin)
  · rw [List.map_append] at hi
    rcases List.mem_append.1 hi with hi | hi
    · obtain ⟨o, ho, hindex, hsuccess⟩ := hs.succeeded i hi
      exact ⟨o, List.mem_append_left _ ho, hindex, hsuccess⟩
    · rw [List.map_singleton, List.mem_singleton] at hi
      exact ⟨_, List.mem_append_right _ List.mem_cons_self, hi.symm, rfl⟩
  · rw [List.map_append]
    refine List.forall_mem_append.2 ⟨fun o ho => ?_, List.forall_mem_singleton.2 ?_⟩
    · exact List.mem_append_left _ (hs.unfailed hfailures o ho)
    · exact List.mem_append_right _ (List.mem_singleton_self _)

theorem step (hs : Scheduled sc h s) {l : Label ν} (hstep : DagRun.step abi sc s l = some t) :
    Scheduled sc h t := by
  cases step_move hstep with
  | start index _ _ hready ht => exact ht ▸ hs.start hready
  | succeed place run step times world answer next hends hfailures _ _ ht =>
      exact ht ▸ hs.succeed hends hfailures answer next
  | collide place run step times world answer error hends _ _ _ ht =>
      exact ht ▸ hs.ended hends true (by simp)
  | discard place run step times hends hfailures ht => exact ht ▸ hs.ended hends true hfailures
  | fail place run step times error hends ht => exact ht ▸ hs.ended hends false (by simp)
  | finish _ _ _ ht =>
      subst ht
      exact { hs with }

end Scheduled

theorem scheduled_reachable {ctx : RuntimeContext} (h : sc.DagIds ids)
    (hs : (dagSystem abi sc ctx).Reachable s) : Scheduled sc h s :=
  hs.invariant (scheduled_initial h ctx) fun _ _ _ hs hstep => hs.step hstep

/-! ## Ends -/

/-- What a run knows of its end: after it nothing happens, and nothing ran before. -/
theorem ended_reachable {ctx : RuntimeContext} (hs : (dagSystem abi sc ctx).Reachable s)
    {r : StepsResult} (hr : s.result = some r) :
    r = s.finished ∧ s.running = [] ∧ s.settled = true := by
  have hinv : ∀ r, s.result = some r → r = s.finished ∧ s.running = [] ∧ s.settled = true := by
    refine hs.invariant (I := fun s => ∀ r, s.result = some r →
      r = s.finished ∧ s.running = [] ∧ s.settled = true) nofun fun s l t _ hstep => ?_
    have hnone : ∀ {u : DagRun}, u.result = none → ∀ r, u.result = some r →
        r = u.finished ∧ u.running = [] ∧ u.settled = true := by
      intro u hu r hr
      rw [hu] at hr
      cases hr
    cases step_move hstep with
    | start _ _ hresult _ ht => exact ht ▸ hnone hresult
    | succeed _ _ _ _ _ _ _ hends _ _ _ ht => exact ht ▸ hnone hends.result
    | collide _ _ _ _ _ _ _ hends _ _ _ ht => exact ht ▸ hnone hends.result
    | discard _ _ _ _ hends _ ht => exact ht ▸ hnone hends.result
    | fail _ _ _ _ _ hends ht => exact ht ▸ hnone hends.result
    | finish hsettled hrunning _ ht =>
        subst ht
        rintro r hr
        exact ⟨(Option.some.inj hr).symm, hrunning, hsettled⟩
  exact hinv r hr

/-- After a failure has been seen nothing is started. -/
theorem started_of_failed {ls : List (Label ν)} {ctx : RuntimeContext}
    (h : (dagSystem abi sc ctx).Run System.anyStep s ls t) (hs : s.failures ≠ []) :
    t.started = s.started ∧ t.failures ≠ [] := by
  refine h.invariant (I := fun u => u.started = s.started ∧ u.failures ≠ [])
    (fun u l v _ hu hstep => ?_) ⟨rfl, hs⟩
  cases step_move hstep with
  | start _ hfailures => exact absurd hfailures hu.2
  | succeed _ _ _ _ _ _ _ _ hfailures => exact absurd hfailures hu.2
  | collide _ _ _ _ _ _ _ _ hfailures => exact absurd hfailures hu.2
  | discard _ _ _ _ _ _ ht => exact ht ▸ hu
  | fail _ _ _ _ _ _ ht => exact ht ▸ ⟨hu.1, by simp⟩
  | finish _ _ _ ht => exact ht ▸ hu

end

end DagRun

end TxGen
