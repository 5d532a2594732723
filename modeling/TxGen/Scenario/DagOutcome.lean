import TxGen.Scenario.DagIndependence

set_option autoImplicit false

/-! # What a DAG run leaves behind

The outcomes of an instance, and the theorem about its runs: each step is started once and after its
dependencies, nothing is started after a failure, everything runs without one, and the order in which the
steps end decides nothing. -/

namespace TxGen

open RuntimeContext

namespace DagRun

section

variable {τ ν : Type} {abi : Abi τ ν} {sc : ScenarioDef} {ids : StepIds} {h : sc.DagIds ids} {s : DagRun}

/-- The dependencies of a step that has been started have succeeded. -/
theorem Scheduled.dependency_succeeded (hs : Scheduled sc h s)
    {x : ℕ × RuntimeContext} (hx : x ∈ s.started) {step : StepDef} (hstep : sc.steps[x.1]? = some step)
    {d : String} (hd : d ∈ step.dependsOn) : ∃ o ∈ s.outcomes, o.id = d ∧ o.success = true := by
  obtain ⟨u, a, hu, rfl⟩ := h.step_of_dependency hstep hd
  have hdep : u ∈ h.graph.deps x.1 := h.mem_depIndices.2 ⟨a, step, hu, hstep, hd⟩
  have hdone := hs.progress.closed x.1 (mem_taken.2 (List.mem_map_of_mem hx)) u hdep
  obtain ⟨o, ho, rfl, hsuccess⟩ := hs.succeeded u (mem_done.1 hdone)
  obtain ⟨b, hb, hid, -⟩ := hs.recorded o ho
  obtain rfl := Option.some.inj (hu.symm.trans hb)
  exact ⟨o, ho, hid, hsuccess⟩

/-- Without a failure everything has run when nothing runs and nothing is ready. -/
theorem Scheduled.all_started (hs : Scheduled sc h s) (hacyclic : h.graph.Acyclic)
    (hfailures : s.failures = []) (hrunning : s.running = []) (hsettled : s.settled = true) :
    (s.started.map Prod.fst).Perm (List.range sc.steps.length) ∧
      (s.succeeded.map Prod.fst).Perm (List.range sc.steps.length) := by
  have hready : s.ready = ∅ := by
    simpa [settled, hfailures] using hsettled
  have hsame : s.taken = s.done := by
    refine Finset.Subset.antisymm (fun i hi => ?_) hs.progress.done_taken
    have houtcome := hs.accounted.mem_iff.1 (mem_taken.1 hi)
    rw [hrunning, List.map_nil, List.nil_append] at houtcome
    obtain ⟨o, ho, rfl⟩ := List.mem_map.1 houtcome
    exact mem_done.2 (hs.unfailed hfailures o ho)
  have hprogress := hs.progress
  rw [hready] at hprogress
  have hall := hprogress.all_done hsame hacyclic
  have hdone : ∀ i, i ∈ s.done ↔ i ∈ List.range sc.steps.length := fun i =>
    ⟨fun hi => List.mem_range.2 (hs.progress.taken_lt i (hs.progress.done_taken hi)),
      fun hi => hall i (List.mem_range.1 hi)⟩
  refine ⟨(List.perm_ext_iff_of_nodup hs.startedOnce List.nodup_range).2 fun i => ?_,
    (List.perm_ext_iff_of_nodup hs.succeededOnce List.nodup_range).2 fun i => ?_⟩
  · rw [← mem_taken, hsame, hdone]
  · rw [← mem_done, hdone]

/-- The outcomes that are reported are those of the steps that were started. -/
theorem Scheduled.finished_perm (hs : Scheduled sc h s) (hrunning : s.running = []) :
    (s.finished.steps.map (·.index)).Perm (s.started.map Prod.fst) := by
  have haccounted := hs.accounted
  rw [hrunning, List.map_nil, List.nil_append] at haccounted
  exact ((List.perm_insertionSort _ _).map _).trans haccounted.symm

theorem mem_finished {o : RecordedStep} : o ∈ s.finished.steps ↔ o ∈ s.outcomes :=
  (List.perm_insertionSort _ _).mem_iff

theorem finished_failure : s.finished.failure = none ↔ s.failures = [] := by
  rw [finished, List.head?_eq_none_iff]
  exact ⟨fun hnil => List.Perm.eq_nil (hnil ▸ (List.perm_insertionSort _ _).symm), fun hnil => by rw [hnil]; rfl⟩

end

/-! ## Requests -/

section

variable {τ ν : Type} {abi : Abi τ ν}

/-- A step whose arguments are a reference resolves it. -/
theorem get_of_prepare {ctx : RuntimeContext} {step : StepDef} {path : String} {request : StepRequest ν}
    (hwhole : step.wholeReference = some path) (h : step.prepare abi ctx = .ok request) :
    ∃ value, ctx.get path = .ok value := by
  unfold StepDef.wholeReference at hwhole
  unfold StepDef.prepare at h
  cases haction : step.action with
  | invoke invoke =>
      simp only [haction] at hwhole h
      obtain ⟨arguments, harguments, -⟩ := bind_eq_ok.1 h
      split at hwhole
      · rename_i heq
        obtain rfl := Option.some.inj hwhole
        rw [heq] at harguments
        obtain ⟨value, hvalue, -⟩ := bind_eq_ok.1 (show (ctx.get _ >>= fun value =>
          Except.ok (toYaml abi value)) = .ok arguments from harguments)
        exact ⟨value, hvalue⟩
      · cases hwhole
  | _ => simp [haction] at hwhole

variable {sc : ScenarioDef} {ids : StepIds} {h : sc.DagIds ids} {s₁ s₂ : DagRun}
variable {ctx₀ : RuntimeContext} {draw : String → BindingDraw} {values : ℕ → RuntimeValue}

/-- Two runs whose steps have the same values give a step requests that are alike. -/
theorem prepare_same (hnames : sc.NamesApart) (hbind : sc.bindInstance draw = .ok ctx₀)
    (hdag : sc.execution = .dag) (hsettled : sc.WholeReferencesSettled)
    (hs₁ : Scheduled sc h s₁) (hs₂ : Scheduled sc h s₂)
    (hf₁ : Filled abi h ctx₀ s₁) (hf₂ : Filled abi h ctx₀ s₂)
    (hv₁ : sc.WithValues values s₁.succeeded) (hv₂ : sc.WithValues values s₂.succeeded)
    {index : ℕ} {ctx₁ ctx₂ : RuntimeContext} (hx₁ : (index, ctx₁) ∈ s₁.started)
    (hx₂ : (index, ctx₂) ∈ s₂.started) {step : StepDef} (hstep : sc.steps[index]? = some step)
    {ancestors : List ℕ} (hancestors : ∀ i, i ∈ ancestors ↔ h.graph.Precedes i index)
    (hchecked : step.Checked sc ancestors)
    (hok₁ : ∃ request, step.prepare abi ctx₁ = .ok request)
    (hok₂ : ∃ request, step.prepare abi ctx₂ = .ok request) :
    step.prepare abi ctx₁ = step.prepare abi ctx₂ := by
  obtain ⟨done₁, hbefore₁, hg₁⟩ := hf₁.given _ hx₁
  obtain ⟨done₂, hbefore₂, hg₂⟩ := hf₂.given _ hx₂
  have hn₁ := hs₁.succeededOnce.sublist (hbefore₁.sublist.map Prod.fst)
  have hn₂ := hs₂.succeededOnce.sublist (hbefore₂.sublist.map Prod.fst)
  have hw₁ := hv₁.subset fun x hx => hbefore₁.subset hx
  have hw₂ := hv₂.subset fun x hx => hbefore₂.subset hx
  refine prepare_alike (fun e he => ?_) fun path hwhole => ?_
  · obtain ⟨paths, hpaths, hvalid⟩ := hchecked e he
    refine alike_of_sameAt hpaths fun p hp => ?_
    obtain ⟨j, saves, below, hreference⟩ := hvalid p hp
    exact get_checked hnames hbind hg₁ hg₂ hn₁ hn₂ hw₁ hw₂ hancestors
      (variablePaths_valid hpaths p hp) hreference
  · obtain ⟨request₁, hrequest₁⟩ := hok₁
    obtain ⟨request₂, hrequest₂⟩ := hok₂
    obtain ⟨value₁, hget₁⟩ := get_of_prepare hwhole hrequest₁
    obtain ⟨value₂, hget₂⟩ := get_of_prepare hwhole hrequest₂
    rw [hget₁, hget₂, get_whole hnames hbind hdag hsettled hg₁ hg₂ hn₁ hn₂ hw₁ hw₂ hancestors hstep
      hwhole hget₁ hget₂]

/-- A step that has succeeded resolved its expressions. -/
theorem Filled.prepared (hs : Scheduled sc h s₁) (hf : Filled abi h ctx₀ s₁) {index : ℕ}
    (hsucceeded : index ∈ s₁.succeeded.map Prod.fst) {ctx : RuntimeContext}
    (hx : (index, ctx) ∈ s₁.started) {step : StepDef} (hstep : sc.steps[index]? = some step) :
    ∃ request, step.prepare abi ctx = .ok request := by
  obtain ⟨x, hin, rfl⟩ := List.mem_map.1 hsucceeded
  obtain ⟨other, ctx', request, hother, -, hstarted, hrequest⟩ := hf.produced x hin
  obtain rfl := Option.some.inj (hstep.symm.trans hother)
  have hsame := List.inj_on_of_nodup_map hs.startedOnce hx hstarted rfl
  rw [(Prod.mk.inj hsame).2]
  exact ⟨request, hrequest⟩

/-- The final contexts are the same. -/
theorem context_same (hnames : sc.NamesApart) (hs₁ : Scheduled sc h s₁)
    (hf₁ : Filled abi h ctx₀ s₁) (hf₂ : Filled abi h ctx₀ s₂)
    (hv₁ : sc.WithValues values s₁.succeeded) (hv₂ : sc.WithValues values s₂.succeeded)
    (hperm : (s₁.succeeded.map Prod.fst).Perm (s₂.succeeded.map Prod.fst)) :
    s₁.context = s₂.context := by
  have hapart := hnames.pathsApart (fun _ => ⟨0, 0, 0⟩) hs₁.succeededOnce
  have hsaves : PathsApart (sc.savedValues s₁.succeeded) :=
    ⟨fun e he => hapart.1 e (List.mem_append_right _ he), (List.pairwise_append.1 hapart.2).2.1⟩
  have hcontext := (withPaths_perm (hv₁.perm hv₂ hperm) hsaves).1 hf₁.context
  exact Except.ok.inj (hcontext.symm.trans hf₂.context)

end

end DagRun

open DagRun in
/-- In every run of an accepted DAG, whichever running step ends next and whatever the chains answer: every
step is started once, after its dependencies have succeeded and not after a failure; every start has one
outcome in the end, and without a failure every step has run. If all steps succeed with the same values, and
no arguments of an `invoke` are a reference to a namespace that grows meanwhile, then every step resolves
the same and the final context is the same in all such runs. -/
theorem dag_runs {spec : ScenarioSpec} {parseUrl : String → Option String}
    (hok : spec.validate parseUrl = .ok ()) (hdag : spec.scenario.execution = .dag) {τ ν : Type}
    (abi : Abi τ ν) {draw : String → BindingDraw} {ctx₀ : RuntimeContext}
    (hbind : spec.scenario.bindInstance draw = .ok ctx₀) :
    (∀ s, (dagSystem abi spec.scenario ctx₀).Reachable s →
      (s.started.map Prod.fst).Nodup ∧
      (∀ x ∈ s.started, ∀ step, spec.scenario.steps[x.1]? = some step → ∀ d ∈ step.dependsOn,
        ∃ o ∈ s.outcomes, o.id = d ∧ o.success = true) ∧
      ((∃ o ∈ s.outcomes, o.success = false) → ∀ ls t,
        (dagSystem abi spec.scenario ctx₀).Run System.anyStep s ls t → t.started = s.started) ∧
      ∀ r, s.result = some r → (r.steps.map (·.index)).Perm (s.started.map Prod.fst) ∧
        (r.failure = none ↔ ∀ o ∈ r.steps, o.success = true) ∧
        (r.failure = none → (s.started.map Prod.fst).Perm (List.range spec.scenario.steps.length))) ∧
    (spec.scenario.WholeReferencesSettled → ∀ (values : ℕ → RuntimeValue) (s₁ s₂ : DagRun)
      (r₁ r₂ : StepsResult), (dagSystem abi spec.scenario ctx₀).Reachable s₁ →
      (dagSystem abi spec.scenario ctx₀).Reachable s₂ → s₁.result = some r₁ → s₂.result = some r₂ →
      r₁.failure = none → r₂.failure = none → spec.scenario.WithValues values s₁.succeeded →
      spec.scenario.WithValues values s₂.succeeded →
      s₁.context = s₂.context ∧ ∀ index step ctx₁ ctx₂, spec.scenario.steps[index]? = some step →
        (index, ctx₁) ∈ s₁.started → (index, ctx₂) ∈ s₂.started →
        step.prepare abi ctx₁ = step.prepare abi ctx₂) := by
  have hnames := spec.namesApart hok
  obtain ⟨ids, h, hacyclic, hchecked⟩ := spec.checked_dag hok hdag
  refine ⟨fun s hs => ?_, fun hsettled values s₁ s₂ r₁ r₂ hs₁ hs₂ hr₁ hr₂ hnone₁ hnone₂ hv₁ hv₂ => ?_⟩
  · have hscheduled := scheduled_reachable h hs
    obtain ⟨hfailed, hrecorded⟩ := failures_reachable hnames hbind h hs
    have hfailures : (∃ o ∈ s.outcomes, o.success = false) ↔ s.failures ≠ [] := by
      constructor
      · rintro ⟨o, ho, hfalse⟩
        obtain ⟨f, hf, -⟩ := hrecorded o ho hfalse
        exact List.ne_nil_of_mem hf
      · intro hne
        obtain ⟨f, hf⟩ := List.exists_mem_of_ne_nil _ hne
        obtain ⟨o, ho, -, hfalse⟩ := hfailed f hf
        exact ⟨o, ho, hfalse⟩
    refine ⟨hscheduled.startedOnce, fun x hx step hstep d hd =>
      hscheduled.dependency_succeeded hx hstep hd, fun hfail ls t hrun =>
      (started_of_failed hrun (hfailures.1 hfail)).1, fun r hr => ?_⟩
    obtain ⟨rfl, hrunning, hsettled⟩ := ended_reachable hs hr
    refine ⟨hscheduled.finished_perm hrunning, ?_, fun hnone =>
      (hscheduled.all_started hacyclic (finished_failure.1 hnone) hrunning hsettled).1⟩
    rw [finished_failure, ← not_iff_not]
    refine hfailures.symm.trans ?_
    constructor
    · rintro ⟨o, ho, hfalse⟩ hall
      rw [hall o (mem_finished.2 ho)] at hfalse
      cases hfalse
    · intro hall
      by_contra hnone
      refine hall fun o ho => ?_
      cases hsuccess : o.success with
      | true => rfl
      | false => exact absurd ⟨o, mem_finished.1 ho, hsuccess⟩ hnone
  · obtain ⟨hscheduled₁, hfilled₁⟩ := filled_reachable h hs₁
    obtain ⟨hscheduled₂, hfilled₂⟩ := filled_reachable h hs₂
    obtain ⟨rfl, hrunning₁, hsettled₁⟩ := ended_reachable hs₁ hr₁
    obtain ⟨rfl, hrunning₂, hsettled₂⟩ := ended_reachable hs₂ hr₂
    have hall₁ := (hscheduled₁.all_started hacyclic (finished_failure.1 hnone₁) hrunning₁ hsettled₁).2
    have hall₂ := (hscheduled₂.all_started hacyclic (finished_failure.1 hnone₂) hrunning₂ hsettled₂).2
    refine ⟨context_same hnames hscheduled₁ hfilled₁ hfilled₂ hv₁ hv₂ (hall₁.trans hall₂.symm),
      fun index step ctx₁ ctx₂ hstep hx₁ hx₂ => ?_⟩
    have hin : index ∈ List.range spec.scenario.steps.length :=
      List.mem_range.2 (List.getElem?_eq_some_iff.1 hstep).1
    obtain ⟨ancestors, -, hancestors, hreferences⟩ := hchecked index step hstep
    exact prepare_same hnames hbind hdag hsettled hscheduled₁ hscheduled₂ hfilled₁ hfilled₂ hv₁ hv₂ hx₁ hx₂
      hstep hancestors hreferences (hfilled₁.prepared hscheduled₁ (hall₁.mem_iff.2 hin) hx₁ hstep)
      (hfilled₂.prepared hscheduled₂ (hall₂.mem_iff.2 hin) hx₂ hstep)

/-! ## Two orders of three steps -/

namespace DagSample

def chain : ChainDef :=
  { network := "dev", rpcUrl := "rpc", observation := { pollInterval := 1 }, workload := "w.yml" }

def checkpoint (id save : String) : StepDef :=
  { id := some id, action := .checkpoint { chain := "main" }, save := some save }

/-- The third step waits for the first one only; the second one may save below the path meanwhile. -/
def spec (argument : String) : ScenarioSpec where
  version := 1
  chains := [("main", chain)]
  scenario :=
    { name := "sample"
      execution := .dag
      steps := [checkpoint "first" "ns.a", checkpoint "second" "ns.b",
        { id := some "third", dependsOn := ["first"],
          action := .invoke { chain := "main", action := "run", withValue := [(argument, .string "ns")] } }] }

def abi : Abi Unit Unit where
  parseAbiType _ := .ok ()
  coerceDynSol _ _ := .ok ()
  inferDynSol _ := .ok ()
  encode _ _ := []
  keccak256 _ := 0
  displayAddress _ := ""

def receipt : ConfirmedReceipt := ⟨0, 0, 0, none, true, 0, 0, 0, 0, 0⟩

/-- Every checkpoint is the same, and every action returns nothing. -/
def world : World Unit where
  checkpoint _ := .ok ⟨0, none, 0⟩
  invokeScenarioAction _ _ := .ok (.mapping [])
  submit _ _ := bail "no submission"
  waitForSubmitted _ _ := .ok receipt
  waitForReceipt _ _ _ := .ok receipt
  waitForLog _ _ := bail "no log"
  waitForEvents _ _ _ _ := bail "no events"

def times : StepTimes := ⟨0, 0, 0⟩

def run (argument : String) : System DagRun (DagRun.Label Unit) := dagSystem abi (spec argument).scenario {}

/-- The third step is started before the second one ends. -/
def early : List (DagRun.Label Unit) :=
  [.start, .start, .complete 0 world times, .start, .complete 0 world times, .complete 0 world times,
    .finish]

def late : List (DagRun.Label Unit) :=
  [.start, .start, .complete 1 world times, .complete 0 world times, .start, .complete 0 world times,
    .finish]

def checkpointAnswer : StepAnswer := .checkpoint ⟨0, none, 0⟩

def values (i : ℕ) : RuntimeValue :=
  if i = 2 then (StepAnswer.invoke "run" []).value "main" else checkpointAnswer.value "main"

/-- The context when the first step alone has been saved. -/
def oneSaved : RuntimeContext := ⟨[("ns", .object [("a", values 0)])]⟩

def bothSaved : RuntimeContext := ⟨[("ns", .object [("a", values 0), ("b", values 1)])]⟩

theorem early_run (argument : String) (h : argument = "var" ∨ argument = "config") :
    ∃ s r, (run argument).Reachable s ∧ s.result = some r ∧ r.failure = none ∧
      s.succeeded = [(0, checkpointAnswer), (1, checkpointAnswer), (2, .invoke "run" [])] ∧
      (2, oneSaved) ∈ s.started := by
  rcases h with rfl | rfl <;>
    exact ⟨_, _, ⟨early, System.run_of_exec rfl⟩, rfl, rfl, rfl, List.mem_of_getElem? (i := 2) rfl⟩

theorem late_run (argument : String) (h : argument = "var" ∨ argument = "config") :
    ∃ s r, (run argument).Reachable s ∧ s.result = some r ∧ r.failure = none ∧
      s.succeeded = [(1, checkpointAnswer), (0, checkpointAnswer), (2, .invoke "run" [])] ∧
      (2, bothSaved) ∈ s.started := by
  rcases h with rfl | rfl <;>
    exact ⟨_, _, ⟨late, System.run_of_exec rfl⟩, rfl, rfl, rfl, List.mem_of_getElem? (i := 2) rfl⟩

theorem withValues (argument : String) {succeeded : List (ℕ × StepAnswer)}
    (h : ∀ x ∈ succeeded, x = (0, checkpointAnswer) ∨ x = (1, checkpointAnswer) ∨
      x = (2, .invoke "run" [])) : (spec argument).scenario.WithValues values succeeded := by
  intro x hx step hstep
  rcases h x hx with rfl | rfl | rfl <;>
  · obtain rfl := Option.some.inj hstep
    rfl

/-- How many arguments there are. -/
def argumentCount : Except Report (StepRequest Unit) → ℕ
  | .ok (.invoke _ (.mapping entries)) => entries.length
  | _ => 0

theorem settled : (spec "config").scenario.WholeReferencesSettled := by
  intro i j step other path save hstep hwhole
  match j with
  | 0 | 1 | 2 =>
    obtain rfl := Option.some.inj hstep
    cases hwhole
  | j + 3 => simp [spec] at hstep

end DagSample

open DagSample in
/-- The third step resolves its arguments to one entry or to two, according to which step ends first. -/
theorem dag_order_matters : (spec "var").validate (fun _ => none) = .ok () ∧
    (spec "var").scenario.bindInstance (fun _ => ⟨0, 0, 0⟩) = .ok {} ∧
    ∃ (s₁ s₂ : DagRun) (r₁ r₂ : StepsResult), (run "var").Reachable s₁ ∧ (run "var").Reachable s₂ ∧
      s₁.result = some r₁ ∧ s₂.result = some r₂ ∧ r₁.failure = none ∧ r₂.failure = none ∧
      (spec "var").scenario.WithValues values s₁.succeeded ∧
      (spec "var").scenario.WithValues values s₂.succeeded ∧
      ∃ step ctx₁ ctx₂, (spec "var").scenario.steps[2]? = some step ∧ (2, ctx₁) ∈ s₁.started ∧
        (2, ctx₂) ∈ s₂.started ∧ step.prepare abi ctx₁ ≠ step.prepare abi ctx₂ := by
  obtain ⟨s₁, r₁, hs₁, hr₁, hnone₁, hsucceeded₁, hx₁⟩ := early_run "var" (Or.inl rfl)
  obtain ⟨s₂, r₂, hs₂, hr₂, hnone₂, hsucceeded₂, hx₂⟩ := late_run "var" (Or.inl rfl)
  refine ⟨by decide, rfl, s₁, s₂, r₁, r₂, hs₁, hs₂, hr₁, hr₂, hnone₁, hnone₂, withValues "var" ?_,
    withValues "var" ?_, _, oneSaved, bothSaved, rfl, hx₁, hx₂, fun heq => ?_⟩
  · simp [hsucceeded₁]
  · simp [hsucceeded₂]
  · exact absurd (congrArg argumentCount heq) (by decide)

open DagSample in
theorem dag_runs_sample : ∃ s₁ s₂ : DagRun, (run "config").Reachable s₁ ∧ (run "config").Reachable s₂ ∧
    (2, oneSaved) ∈ s₁.started ∧ (2, bothSaved) ∈ s₂.started ∧ s₁.context = s₂.context ∧
    ∀ step, (spec "config").scenario.steps[2]? = some step →
      step.prepare abi oneSaved = step.prepare abi bothSaved := by
  have hok : (spec "config").validate (fun _ => none) = .ok () := by decide
  obtain ⟨s₁, r₁, hs₁, hr₁, hnone₁, hsucceeded₁, hx₁⟩ := early_run "config" (Or.inr rfl)
  obtain ⟨s₂, r₂, hs₂, hr₂, hnone₂, hsucceeded₂, hx₂⟩ := late_run "config" (Or.inr rfl)
  have hbind : (spec "config").scenario.bindInstance (fun _ => ⟨0, 0, 0⟩) = .ok {} := rfl
  obtain ⟨hcontext, hprepare⟩ := (dag_runs hok rfl abi hbind).2 settled values s₁ s₂ r₁ r₂ hs₁ hs₂ hr₁ hr₂
    hnone₁ hnone₂ (withValues "config" (by simp [hsucceeded₁])) (withValues "config" (by simp [hsucceeded₂]))
  exact ⟨s₁, s₂, hs₁, hs₂, hx₁, hx₂, hcontext, fun step hstep => hprepare 2 step _ _ hstep hx₁ hx₂⟩

end TxGen
