import TxGen.Scenario.DagProgress
import TxGen.Scenario.References
import TxGen.Scenario.Shapes

set_option autoImplicit false

/-! # The contexts of a DAG

The context of the loop holds the bindings and the saves of the steps that have succeeded. A step is given
the context of a set of steps that contains its ancestors and none of its descendants. -/

namespace TxGen

open RuntimeContext

namespace DagRun

section

variable {τ ν : Type} {abi : Abi τ ν} {sc : ScenarioDef} {ids : StepIds} {s t : DagRun}

/-- The context that a step is given is that of `done`, a set of steps between its ancestors and those that
do not depend on it. -/
structure Given (h : sc.DagIds ids) (ctx₀ : RuntimeContext) (done : List (ℕ × StepAnswer)) (index : ℕ)
    (ctx : RuntimeContext) : Prop where
  context : ctx₀.withPaths (sc.savedValues done) = .ok ctx
  dependencies : ∀ u ∈ h.graph.deps index, u ∈ done.map Prod.fst
  closed : ∀ v ∈ done.map Prod.fst, ∀ u ∈ h.graph.deps v, u ∈ done.map Prod.fst
  later : index ∉ done.map Prod.fst

theorem Given.ancestors {h : sc.DagIds ids} {ctx₀ ctx : RuntimeContext} {done : List (ℕ × StepAnswer)}
    {index : ℕ} (hg : Given h ctx₀ done index ctx) {u : ℕ} (hu : h.graph.Precedes u index) :
    u ∈ done.map Prod.fst := by
  induction hu using Relation.TransGen.head_induction_on with
  | single hedge => exact hg.dependencies _ hedge.2
  | head hedge _ ih => exact hg.closed _ ih _ hedge.2

theorem Given.not_descendant {h : sc.DagIds ids} {ctx₀ ctx : RuntimeContext}
    {done : List (ℕ × StepAnswer)} {index : ℕ} (hg : Given h ctx₀ done index ctx) {v : ℕ}
    (hv : v ∈ done.map Prod.fst) : ¬ h.graph.Precedes index v := by
  intro hprecedes
  refine hg.later ?_
  induction hprecedes with
  | single hedge => exact hg.closed _ hv _ hedge.2
  | tail _ hedge ih => exact ih (hg.closed _ hv _ hedge.2)

/-- What the contexts of a run hold. -/
structure Filled (abi : Abi τ ν) (h : sc.DagIds ids) (ctx₀ : RuntimeContext) (s : DagRun) : Prop where
  context : ctx₀.withPaths (sc.savedValues s.succeeded) = .ok s.context
  given : ∀ x ∈ s.started, ∃ done, done <+: s.succeeded ∧ Given h ctx₀ done x.1 x.2
  produced : ∀ x ∈ s.succeeded, ∃ step ctx request, sc.steps[x.1]? = some step ∧ step.Produces x.2 ∧
    (x.1, ctx) ∈ s.started ∧ step.prepare abi ctx = .ok request

theorem filled_initial (h : sc.DagIds ids) (ctx₀ : RuntimeContext) :
    Filled abi h ctx₀ (initial sc ctx₀) :=
  ⟨rfl, nofun, nofun⟩

namespace Filled

variable {h : sc.DagIds ids} {ctx₀ : RuntimeContext}

theorem start (hf : Filled abi h ctx₀ s) (hs : Scheduled sc h s) {index : ℕ} (hready : index ∈ s.ready) :
    Filled abi h ctx₀ { s with
      ready := s.ready.erase index
      running := s.running ++ [⟨index, s.context, s.now⟩]
      started := s.started ++ [(index, s.context)] } := by
  refine ⟨hf.context, ?_, fun x hx => ?_⟩
  · refine List.forall_mem_append.2 ⟨hf.given, List.forall_mem_singleton.2 ?_⟩
    have hdone := hs.progress.ready_done hready
    have hfresh := ((hs.progress.ready_iff index).1 hready).2.1
    exact ⟨s.succeeded, List.prefix_refl _, hf.context, fun u hu => mem_done.1 (hdone u hu),
      fun v hv u hu => mem_done.1 (hs.progress.closed v (hs.progress.done_taken (mem_done.2 hv)) u hu),
      fun hin => hfresh (hs.progress.done_taken (mem_done.2 hin))⟩
  · obtain ⟨step, ctx, request, hstep, hproduces, hstarted, hrequest⟩ := hf.produced x hx
    exact ⟨step, ctx, request, hstep, hproduces, List.mem_append_left _ hstarted, hrequest⟩

theorem succeed (hf : Filled abi h ctx₀ s) (hs : Scheduled sc h s) {place : ℕ} {run : RunningStep}
    {step : StepDef} {times : StepTimes} {world : World ν} {answer : StepAnswer} {next : RuntimeContext}
    (hends : Ends sc s place run step times) (hexecute : executeStep world abi step run.context = .ok answer)
    (hsave : saveResult s.context step answer = .ok next)
    (hcontext : t.context = next) (hstarted : t.started = s.started)
    (hsucceeded : t.succeeded = s.succeeded ++ [(run.index, answer)]) : Filled abi h ctx₀ t := by
  refine ⟨?_, fun x hx => ?_, ?_⟩
  · rw [hcontext, hsucceeded, ScenarioDef.savedValues, List.filterMap_append]
    exact withPaths_append.2 ⟨s.context, hf.context, (saveResult_iff hends.step).1 hsave⟩
  · rw [hstarted] at hx
    obtain ⟨done, hbefore, hgiven⟩ := hf.given x hx
    exact ⟨done, hsucceeded ▸ hbefore.trans (List.prefix_append _ _), hgiven⟩
  · rw [hsucceeded, hstarted]
    refine List.forall_mem_append.2 ⟨hf.produced, List.forall_mem_singleton.2 ?_⟩
    obtain ⟨request, hrequest, -⟩ := bind_eq_ok.1 (show (step.prepare abi run.context >>= fun request =>
      perform world step.action.chain request) = .ok answer from hexecute)
    exact ⟨step, run.context, request, hends.step, executeStep_produces hexecute,
      hs.runs run (List.mem_of_getElem? hends.place), hrequest⟩

theorem step (hf : Filled abi h ctx₀ s) (hs : Scheduled sc h s) {l : Label ν}
    (hstep : DagRun.step abi sc s l = some t) : Filled abi h ctx₀ t := by
  cases step_move hstep with
  | start index _ _ hready ht => exact ht ▸ hf.start hs hready
  | succeed place run step times world answer next hends _ hexecute hsave ht =>
      exact hf.succeed hs hends hexecute hsave (ht ▸ rfl) (ht ▸ rfl) (ht ▸ rfl)
  | collide _ _ _ _ _ _ _ _ _ _ _ ht => exact ht ▸ ⟨hf.context, hf.given, hf.produced⟩
  | discard _ _ _ _ _ _ ht => exact ht ▸ ⟨hf.context, hf.given, hf.produced⟩
  | fail _ _ _ _ _ _ ht => exact ht ▸ ⟨hf.context, hf.given, hf.produced⟩
  | finish _ _ _ ht => exact ht ▸ ⟨hf.context, hf.given, hf.produced⟩

end Filled

theorem filled_reachable (h : sc.DagIds ids) {ctx₀ : RuntimeContext}
    (hs : (dagSystem abi sc ctx₀).Reachable s) : Scheduled sc h s ∧ Filled abi h ctx₀ s :=
  hs.invariant (I := fun s => Scheduled sc h s ∧ Filled abi h ctx₀ s)
    ⟨scheduled_initial h ctx₀, filled_initial h ctx₀⟩
    fun _ _ _ hs hstep => ⟨hs.1.step hstep, hs.2.step hs.1 hstep⟩

/-! ## Saving -/

/-- The context of the loop holds the bindings and the saves. -/
theorem Filled.holds (hnames : sc.NamesApart) {draw : String → BindingDraw} {ctx₀ : RuntimeContext}
    (hbind : sc.bindInstance draw = .ok ctx₀) {h : sc.DagIds ids} (hs : Scheduled sc h s)
    (hf : Filled abi h ctx₀ s) : Holds s.context (sc.bindRoots draw ++ sc.savedValues s.succeeded) := by
  obtain ⟨ctx, hctx, hholds⟩ := holds_savedValues hnames hbind hs.succeededOnce
  obtain rfl := Except.ok.inj (hf.context.symm.trans hctx)
  exact hholds

/-- The result of a step that still runs can be saved, whatever it is. -/
theorem withPath_isOk_of_run (hnames : sc.NamesApart) {draw : String → BindingDraw}
    {ctx₀ : RuntimeContext} (hbind : sc.bindInstance draw = .ok ctx₀) {h : sc.DagIds ids}
    (hs : Scheduled sc h s) (hf : Filled abi h ctx₀ s) {run : RunningStep} (hrun : run ∈ s.running)
    {step : StepDef} (hstep : sc.steps[run.index]? = some step) {save : String}
    (hsave : step.save = some save) (value : RuntimeValue) :
    ∃ next, s.context.withPath save value = .ok next := by
  have hnot : run.index ∉ s.succeeded.map Prod.fst := fun hin =>
    hs.not_done_of_run hrun (mem_done.2 hin)
  obtain ⟨next, hnext, -⟩ := (hf.holds hnames hbind hs).extend
    (hnames.admits draw hstep hsave hnot) value
  exact ⟨next, hnext⟩

/-- Failures are those of outcomes without success. -/
theorem failures_reachable (hnames : sc.NamesApart) {draw : String → BindingDraw} {ctx₀ : RuntimeContext}
    (hbind : sc.bindInstance draw = .ok ctx₀) (h : sc.DagIds ids)
    (hs : (dagSystem abi sc ctx₀).Reachable s) :
    (∀ f ∈ s.failures, ∃ o ∈ s.outcomes, o.index = f.1 ∧ o.success = false) ∧
      ∀ o ∈ s.outcomes, o.success = false → ∃ f ∈ s.failures, f.1 = o.index := by
  refine (hs.invariant (I := fun s => (Scheduled sc h s ∧ Filled abi h ctx₀ s) ∧
    (∀ f ∈ s.failures, ∃ o ∈ s.outcomes, o.index = f.1 ∧ o.success = false) ∧
      ∀ o ∈ s.outcomes, o.success = false → ∃ f ∈ s.failures, f.1 = o.index)
    ⟨⟨scheduled_initial h ctx₀, filled_initial h ctx₀⟩, by simp [dagSystem, initial]⟩
    fun s l t hI hstep => ?_).2
  obtain ⟨⟨hs, hf⟩, hfailed, hrecorded⟩ := hI
  refine ⟨⟨hs.step hstep, hf.step hs hstep⟩, ?_⟩
  -- the outcome of a success changes nothing
  have hsuccess : ∀ {u : DagRun} {o : RecordedStep}, o.success = true →
      u.outcomes = s.outcomes ++ [o] → u.failures = s.failures →
      (∀ f ∈ u.failures, ∃ o ∈ u.outcomes, o.index = f.1 ∧ o.success = false) ∧
        ∀ o ∈ u.outcomes, o.success = false → ∃ f ∈ u.failures, f.1 = o.index := by
    intro u o ho houtcomes hfailures
    rw [houtcomes, hfailures]
    refine ⟨fun f hfm => ?_, List.forall_mem_append.2 ⟨hrecorded, List.forall_mem_singleton.2 ?_⟩⟩
    · obtain ⟨o', ho', hindex, hfalse⟩ := hfailed f hfm
      exact ⟨o', List.mem_append_left _ ho', hindex, hfalse⟩
    · intro hfalse
      rw [ho] at hfalse
      cases hfalse
  cases step_move hstep with
  | start _ _ _ _ ht => exact ht ▸ ⟨hfailed, hrecorded⟩
  | succeed _ _ _ _ _ _ _ _ _ _ _ ht =>
      subst ht
      exact hsuccess rfl rfl rfl
  | collide place run step times world answer error hends _ _ hsave _ =>
      unfold saveResult at hsave
      split at hsave
      · rename_i save hpath
        obtain ⟨next, hnext⟩ := withPath_isOk_of_run hnames hbind hs hf
          (List.mem_of_getElem? hends.place) hends.step hpath (answer.value step.action.chain)
        rw [hnext] at hsave
        cases hsave
      · cases hsave
  | discard _ _ _ _ _ _ ht =>
      subst ht
      exact hsuccess rfl rfl rfl
  | fail place run step times error hends ht =>
      subst ht
      refine ⟨List.forall_mem_append.2 ⟨fun f hfm => ?_, List.forall_mem_singleton.2 ?_⟩,
        List.forall_mem_append.2 ⟨fun o ho hfalse => ?_, List.forall_mem_singleton.2 fun _ => ?_⟩⟩
      · obtain ⟨o, ho, hindex, hfalse⟩ := hfailed f hfm
        exact ⟨o, List.mem_append_left _ ho, hindex, hfalse⟩
      · exact ⟨_, List.mem_append_right _ List.mem_cons_self, rfl, rfl⟩
      · obtain ⟨f, hfm, hindex⟩ := hrecorded o ho hfalse
        exact ⟨f, List.mem_append_left _ hfm, hindex⟩
      · exact ⟨_, List.mem_append_right _ List.mem_cons_self, rfl⟩
  | finish _ _ _ ht => exact ht ▸ ⟨hfailed, hrecorded⟩

end

end DagRun

end TxGen
