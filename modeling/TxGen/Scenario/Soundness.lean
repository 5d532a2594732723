import TxGen.Scenario.DagContexts
import TxGen.Scenario.SequentialRun

set_option autoImplicit false

/-! # Accepted references resolve

The validator reads types off the kinds of the steps, the engine hands values around. In every run of an
accepted scenario the two agree: what was accepted resolves when the step starts, to a value of the type
that was computed. -/

namespace TxGen

open RuntimeContext

namespace ScenarioDef

/-- The path descends into a part of a saved result that has no static shape. -/
def DescendsDynamically (sc : ScenarioDef) (path : String) : Prop :=
  ∃ (i : ℕ) (step : StepDef) (root tail : String), sc.steps[i]? = some step ∧ step.save = some root ∧
    path = root ++ "." ++ tail ∧ step.DynamicBelow tail

/-- The path is that of a field which the RPC omitted. -/
def OmittedIn (sc : ScenarioDef) (succeeded : List (ℕ × StepAnswer)) (path : String) : Prop :=
  ∃ x ∈ succeeded, ∃ (step : StepDef) (root tail : String), sc.steps[x.1]? = some step ∧
    step.save = some root ∧ path = root ++ "." ++ tail ∧ x.2.omits tail

/-- Every reference of the expressions of step `index` resolves in the context, unless it descends into
something without static shape, and its value has the type that the validator computed. -/
def Resolves (sc : ScenarioDef) (index : ℕ) (step : StepDef) (succeeded : List (ℕ × StepAnswer))
    (ctx : RuntimeContext) : Prop :=
  ∀ e ∈ step.expressions, ∃ paths, variablePaths e = .ok paths ∧ ∀ p ∈ paths,
    ¬ sc.DescendsDynamically p → ∃ v, ctx.get p = .ok v ∧
      ∀ ty, staticReferenceType p (sc.referenceRoots index) = some ty →
        ty.Admits v ∨ v = .null ∧ sc.OmittedIn succeeded p

variable {sc : ScenarioDef} {draw : String → BindingDraw} {steps : List ℕ} {root path : String}

theorem get?_map_snd {α β : Type} (f : String × α → β) (l : List (String × α)) (k : String) :
    OrdMap.get? k (l.map fun b => (b.1, f b)) = (l.find? fun b => k = b.1).map f := by
  induction l with
  | nil => rfl
  | cons b l ih =>
      rw [List.map_cons, OrdMap.get?, List.find?_cons]
      by_cases hk : k = b.1 <;> simp [hk, ih]

/-- A root of the validator is a binding with its value, or the save of one of the steps. -/
theorem root_of_available {kind : AvailableRoot} (draw : String → BindingDraw)
    (h : (root, kind) ∈ sc.availableRoots steps) :
    (∃ binding : BindingDef, kind = binding.root ∧ (root, binding.value (draw root)) ∈ sc.bindRoots draw) ∨
      ∃ i ∈ steps, ∃ step, sc.steps[i]? = some step ∧ step.save = some root ∧
        kind = .saved step.savedKind := by
  have hget := OrdMap.get?_reverse_of_mem_ofList h
  rw [List.reverse_append, OrdMap.get?_append] at hget
  cases hsave : OrdMap.get? root (steps.filterMap sc.savedRoot).reverse with
  | some kind' =>
      rw [hsave, Option.some_or] at hget
      obtain rfl := Option.some.inj hget
      have hmem := List.mem_reverse.1 (OrdMap.mem_of_get? hsave)
      obtain ⟨i, hi, hroot⟩ := List.mem_filterMap.1 hmem
      simp only [savedRoot, Option.bind_eq_bind, Option.bind_eq_some_iff, Option.pure_def,
        Option.some.injEq, Prod.mk.injEq] at hroot
      obtain ⟨step, hstep, save, hpath, rfl, rfl⟩ := hroot
      exact Or.inr ⟨i, hi, step, hstep, hpath, rfl⟩
  | none =>
      rw [hsave, Option.none_or, ← List.map_reverse] at hget
      replace hget := (get?_map_snd (fun b : String × BindingDef => b.2.root) _ _).symm.trans hget
      obtain ⟨b, hb, rfl⟩ := Option.map_eq_some_iff.1 hget
      have hname : root = b.1 := by simpa using List.find?_some hb
      refine Or.inl ⟨b.2, rfl, OrdMap.mem_of_get? ?_⟩
      rw [bindRoots, OrdMap.ofList, OrdMap.get?_foldl_set, ← List.map_reverse,
        get?_map_snd fun b : String × BindingDef => b.2.value (draw b.1), hb, hname]
      rfl

/-- What follows a root in a well-formed path is not empty. -/
theorem tail_ne_empty {tail : String} (hpath : validateVariablePath path = .ok ())
    (htail : path = root ++ "." ++ tail) : tail ≠ "" := by
  rintro rfl
  obtain ⟨⟨⟩, -, hcomponents⟩ := bind_eq_ok.1 hpath
  refine bailIf_eq_ok.1 hcomponents ?_
  rw [htail, components_dot]
  exact List.mem_append_right _ List.mem_cons_self

/-- An accepted reference resolves where its ancestors have been saved. -/
theorem resolves_of_valid {ctx : RuntimeContext} {done : List (ℕ × StepAnswer)}
    (hholds : Holds ctx (sc.bindRoots draw ++ sc.savedValues done))
    (hsub : ∀ i ∈ steps, i ∈ done.map Prod.fst)
    (hproduced : ∀ x ∈ done, ∃ step, sc.steps[x.1]? = some step ∧ step.Produces x.2)
    (hevents : ∀ {i : ℕ} {step : StepDef}, sc.steps[i]? = some step → ∀ wait, step.action = .waitLog wait →
      ∀ id ∈ wait.events.map Prod.fst, '.' ∉ id.toList)
    (hpath : validateVariablePath path = .ok ()) {j : ℕ} {saves : List (String × ℕ)}
    {below : Option (List ℕ)} (hvalid : validateReference path j saves (sc.availableRoots steps) below = .ok ())
    (hstatic : ¬ sc.DescendsDynamically path) : ∃ v, ctx.get path = .ok v ∧
      ∀ ty, staticReferenceType path (sc.availableRoots steps) = some ty →
        ty.Admits v ∨ v = .null ∧ sc.OmittedIn done path := by
  obtain ⟨root, kind, tail, hmatch⟩ := validateReference_ok hvalid
  obtain ⟨havailable, htail⟩ := longestPathMatch_mem hmatch
  have htype : ∀ ty, staticReferenceType path (sc.availableRoots steps) = some ty →
      kind.fieldType (tail.getD "") = some ty := by
    intro ty hty
    simpa only [staticReferenceType, hmatch, Option.bind_eq_bind, Option.bind_some] using hty
  -- what is found at the root, and where the path goes on from there
  have hget : ∀ {v : RuntimeValue} {rest : List String},
      (root, v) ∈ sc.bindRoots draw ++ sc.savedValues done → components path = components root ++ rest →
        ctx.get path = v.walk path rest := fun hmem hrest =>
    get_of_find hpath hrest (hholds.found _ hmem)
  have hself : path = root → components path = components root ++ [] := by
    rintro rfl
    rw [List.append_nil]
  have hbelow : ∀ {t : String}, path = root ++ "." ++ t →
      components path = components root ++ components t := by
    rintro t rfl
    exact components_dot root t
  unfold validateReference at hvalid
  rw [hmatch] at hvalid
  rcases root_of_available draw havailable with ⟨binding, rfl, hroot⟩ |
    ⟨i, hi, step, hstep, hsave, rfl⟩
  · have hmem := List.mem_append_left (sc.savedValues done) hroot
    cases binding with
    | account pool select =>
        rcases pathTail_eq_some htail with ⟨heq, rfl⟩ | ⟨t, rfl, heq⟩
        · refine ⟨_, (hget hmem (hself heq)).trans rfl, fun ty hty => Or.inl ?_⟩
          obtain rfl := Option.some.inj ((htype ty hty).symm.trans rfl)
          trivial
        · obtain ⟨v, hwalk, hadmits⟩ := account_resolves pool (draw root).index (draw root).address path hvalid
          exact ⟨v, (hget hmem (hbelow heq)).trans hwalk, fun ty hty => Or.inl (hadmits ty (htype ty hty))⟩
    | bytes32 randomBytes =>
        have hnone : tail = none := by
          have hfields := bailIf_eq_ok.1 (show bailIf _ _ = .ok () from hvalid)
          simpa using hfields
        subst hnone
        obtain ⟨heq, -⟩ := (pathTail_eq_some htail).resolve_right (by rintro ⟨t, ht, -⟩; cases ht)
        refine ⟨_, (hget hmem (hself heq)).trans rfl, fun ty hty => Or.inl ?_⟩
        obtain rfl := Option.some.inj ((htype ty hty).symm.trans rfl)
        trivial
  · obtain ⟨x, hx, rfl⟩ := List.mem_map.1 (hsub i hi)
    obtain ⟨other, hother, hproduces⟩ := hproduced x hx
    obtain rfl := Option.some.inj (hstep.symm.trans hother)
    have hmem : (root, x.2.value step.action.chain) ∈ sc.bindRoots draw ++ sc.savedValues done :=
      List.mem_append_right _ (mem_savedValues.2 ⟨x, hx, savedValue_eq_some.2 ⟨step, hstep, hsave, rfl⟩⟩)
    rcases pathTail_eq_some htail with ⟨heq, rfl⟩ | ⟨t, rfl, heq⟩
    · exact ⟨_, (hget hmem (hself heq)).trans rfl, fun ty hty =>
        Or.inl (StepAnswer.admits_root hproduces _ (htype ty hty))⟩
    · have hnot : ¬ step.DynamicBelow t := fun hdynamic =>
        hstatic ⟨x.1, step, root, t, hstep, hsave, heq, hdynamic⟩
      obtain ⟨v, hwalk, hadmits⟩ := StepAnswer.resolves hproduces (hevents hstep) step.action.chain path
        (tail_ne_empty hpath heq) hvalid hnot
      refine ⟨v, (hget hmem (hbelow heq)).trans hwalk, fun ty hty => (hadmits ty (htype ty hty)).imp_right ?_⟩
      rintro ⟨hnull, homits⟩
      exact ⟨hnull, x, hx, step, root, t, hstep, hsave, heq, homits⟩

/-- The references of a step that has been checked resolve. -/
theorem resolves_of_checked {index : ℕ} {step : StepDef} (hroots : sc.referenceRoots index = sc.availableRoots steps)
    (hchecked : step.Checked sc steps) {ctx : RuntimeContext} {done : List (ℕ × StepAnswer)}
    (hholds : Holds ctx (sc.bindRoots draw ++ sc.savedValues done))
    (hsub : ∀ i ∈ steps, i ∈ done.map Prod.fst)
    (hproduced : ∀ x ∈ done, ∃ step, sc.steps[x.1]? = some step ∧ step.Produces x.2)
    (hevents : ∀ {i : ℕ} {step : StepDef}, sc.steps[i]? = some step → ∀ wait, step.action = .waitLog wait →
      ∀ id ∈ wait.events.map Prod.fst, '.' ∉ id.toList) : sc.Resolves index step done ctx := by
  intro e he
  obtain ⟨paths, hpaths, hvalid⟩ := hchecked e he
  refine ⟨paths, hpaths, fun p hp hstatic => ?_⟩
  obtain ⟨j, saves, below, hreference⟩ := hvalid p hp
  rw [hroots]
  exact resolves_of_valid hholds hsub hproduced hevents (variablePaths_valid hpaths p hp) hreference hstatic

/-- More may have succeeded since. -/
theorem Resolves.mono {index : ℕ} {step : StepDef} {done succeeded : List (ℕ × StepAnswer)}
    {ctx : RuntimeContext} (h : sc.Resolves index step done ctx) (hsub : ∀ x ∈ done, x ∈ succeeded) :
    sc.Resolves index step succeeded ctx := by
  intro e he
  obtain ⟨paths, hpaths, hresolves⟩ := h e he
  refine ⟨paths, hpaths, fun p hp hstatic => ?_⟩
  obtain ⟨v, hget, htype⟩ := hresolves p hp hstatic
  refine ⟨v, hget, fun ty hty => (htype ty hty).imp_right ?_⟩
  rintro ⟨hnull, x, hx, homitted⟩
  exact ⟨hnull, x, hsub x hx, homitted⟩

end ScenarioDef

/-- **Accepted references resolve.** In every run of an accepted scenario, sequential or DAG, every
reference of the expressions of a step resolves in the context that the step is given, unless it descends
into a part without static shape; its value has the type that the validator computed, or is null because the
RPC omitted the field. A result can always be saved. -/
theorem references_resolve {spec : ScenarioSpec} {parseUrl : String → Option String}
    (hok : spec.validate parseUrl = .ok ()) {τ ν : Type} (abi : Abi τ ν) {draw : String → BindingDraw}
    {ctx₀ : RuntimeContext} (hbind : spec.scenario.bindInstance draw = .ok ctx₀) :
    (spec.scenario.execution = .dag → ∀ s, (dagSystem abi spec.scenario ctx₀).Reachable s →
      (∀ x ∈ s.started, ∀ step, spec.scenario.steps[x.1]? = some step →
        spec.scenario.Resolves x.1 step s.succeeded x.2) ∧
      ∀ run ∈ s.running, ∀ step save value, spec.scenario.steps[run.index]? = some step →
        step.save = some save → ∃ next, s.context.withPath save value = .ok next) ∧
    (spec.scenario.execution = .sequential → ∀ s, (sequentialSystem abi spec.scenario ctx₀).Reachable s →
      ∀ step, spec.scenario.steps[s.next]? = some step →
        spec.scenario.Resolves s.next step s.succeeded s.context ∧
        ∀ save value, step.save = some save → ∃ next, s.context.withPath save value = .ok next) := by
  have hnames := spec.namesApart hok
  have hevents : ∀ {i : ℕ} {step : StepDef}, spec.scenario.steps[i]? = some step → ∀ wait,
      step.action = .waitLog wait → ∀ id ∈ wait.events.map Prod.fst, '.' ∉ id.toList :=
    fun hstep wait hwait => ScenarioSpec.event_names hok hstep hwait
  refine ⟨fun hdag s hs => ?_, fun hmode s hs step hstep => ?_⟩
  · obtain ⟨ids, h, -, hchecked⟩ := spec.checked_dag hok hdag
    obtain ⟨hscheduled, hfilled⟩ := DagRun.filled_reachable h hs
    refine ⟨fun x hx step hstep => ?_, fun run hrun step save value hstep hsave =>
      DagRun.withPath_isOk_of_run hnames hbind hscheduled hfilled hrun hstep hsave value⟩
    obtain ⟨done, hbefore, hgiven⟩ := hfilled.given x hx
    obtain ⟨ancestors, hroots, hancestors, hreferences⟩ := hchecked x.1 step hstep
    have hnodup := hscheduled.succeededOnce.sublist (hbefore.sublist.map Prod.fst)
    obtain ⟨ctx, hctx, hholds⟩ := holds_savedValues hnames hbind hnodup
    obtain rfl := Except.ok.inj (hgiven.context.symm.trans hctx)
    refine ScenarioDef.Resolves.mono (ScenarioDef.resolves_of_checked hroots hreferences hholds
      (fun i hi => hgiven.ancestors ((hancestors i).1 hi)) (fun y hy => ?_) hevents)
      fun y hy => hbefore.subset hy
    obtain ⟨other, -, -, hother, hproduces, -⟩ := hfilled.produced y (hbefore.subset hy)
    exact ⟨other, hother, hproduces⟩
  · obtain ⟨hroots, hreferences⟩ := spec.checked_sequential hok hmode hstep
    have hinv := SequentialRun.inv_reachable hs
    have hholds := hinv.holds hnames hbind
    refine ⟨ScenarioDef.resolves_of_checked hroots hreferences hholds (fun i hi => hinv.succeeded ▸ hi)
      hinv.produced hevents, fun save value hsave => ?_⟩
    have hnot : s.next ∉ s.succeeded.map Prod.fst := by
      rw [hinv.succeeded]
      exact List.not_mem_range_self
    obtain ⟨next, hnext, -⟩ := hholds.extend (hnames.admits draw hstep hsave hnot) value
    exact ⟨next, hnext⟩

/-! ## A reference to an event that is not declared -/

namespace SoundnessSample

def chain : ChainDef :=
  { network := "dev", rpcUrl := "rpc", observation := { pollInterval := 1 }, workload := "w.yml" }

def wait : StepDef where
  action := .waitLog
    { chain := "main", transactionHash := some (.string "hash"),
      events := [("transfer", { abi := "token", event := "Transfer" })] }
  save := some "log"

/-- The second step refers to a path below the result of the first one. -/
def spec (path : String) : ScenarioSpec where
  version := 1
  chains := [("main", chain)]
  scenario :=
    { name := "sample"
      steps := [wait,
        { action := .submit
            { chain := "main", template := "t", withValue := .mapping [(.string "var", .string path)] } }] }

def abi : Abi Unit Unit where
  parseAbiType _ := .ok ()
  coerceDynSol _ _ := .ok ()
  inferDynSol _ := .ok ()
  encode _ _ := []
  keccak256 _ := 0
  displayAddress _ := ""

def receipt : ConfirmedReceipt := ⟨0, 0, 0, none, true, 0, 0, 0, 0, 0⟩

def log : EventLog := ⟨0, none, none, none, none, none, "Transfer", []⟩

def world : World Unit where
  checkpoint _ := .ok ⟨0, none, 0⟩
  invokeScenarioAction _ _ := .ok (.mapping [])
  submit _ _ := bail "no submission"
  waitForSubmitted _ _ := .ok receipt
  waitForReceipt _ _ _ := .ok receipt
  waitForLog _ _ := bail "no log"
  waitForEvents _ _ _ _ := .ok (receipt, fun _ => log)

def run (path : String) : System SequentialRun (SequentialRun.Label Unit) :=
  sequentialSystem abi (spec path).scenario {}

/-- What the first step has saved. -/
def saved : RuntimeContext :=
  ⟨[("log", (StepAnswer.events receipt [("transfer", log)]).value "main")]⟩

theorem waited (path : String) : ∃ s, (run path).Reachable s ∧ s.next = 1 ∧ s.context = saved :=
  ⟨_, ⟨[.execute world ⟨0, 0, 0⟩], System.run_of_exec rfl⟩, rfl, rfl⟩

end SoundnessSample

open SoundnessSample in
/-- The reference is accepted and is neither an output of an `invoke` nor a decoded argument, but it does not
resolve. -/
theorem undeclared_event_accepted :
    (spec "log.events.missing").validate (fun _ => none) = .ok () ∧
    (spec "log.events.missing").scenario.bindInstance (fun _ => ⟨0, 0, 0⟩) = .ok {} ∧
    ∃ (s : SequentialRun) (step : StepDef), (run "log.events.missing").Reachable s ∧
      (spec "log.events.missing").scenario.steps[s.next]? = some step ∧
      (∃ e ∈ step.expressions, variablePaths e = .ok ["log.events.missing"]) ∧
      ∀ v, s.context.get "log.events.missing" ≠ .ok v := by
  obtain ⟨s, hs, hnext, hcontext⟩ := waited "log.events.missing"
  refine ⟨by decide, rfl, s, _, hs, by rw [hnext]; rfl, ⟨_, List.mem_cons_self, rfl⟩, fun v hget => ?_⟩
  rw [hcontext] at hget
  cases (show _ = Except.error _ from rfl).symm.trans hget

open SoundnessSample in
theorem references_resolve_sample : ∃ v, saved.get "log.block_number" = .ok v ∧
    ((.uint : StaticValueType).Admits v ∨
      v = .null ∧ ∃ s, (run "log.block_number").Reachable s ∧
        (spec "log.block_number").scenario.OmittedIn s.succeeded "log.block_number") := by
  have hok : (spec "log.block_number").validate (fun _ => none) = .ok () := by decide
  have hbind : (spec "log.block_number").scenario.bindInstance (fun _ => ⟨0, 0, 0⟩) = .ok {} := rfl
  obtain ⟨s, hs, hnext, hcontext⟩ := waited "log.block_number"
  obtain ⟨hresolves, -⟩ := (references_resolve hok abi hbind).2 rfl s hs _ (by rw [hnext]; rfl)
  obtain ⟨paths, hpaths, hresolved⟩ := hresolves _ List.mem_cons_self
  obtain rfl := Except.ok.inj (hpaths.symm.trans rfl)
  have hstatic : ¬ (spec "log.block_number").scenario.DescendsDynamically "log.block_number" := by
    rintro ⟨i, step, root, tail, hstep, hsave, hpath, hdynamic⟩
    match i with
    | 0 =>
      obtain rfl := Option.some.inj hstep
      obtain rfl := Option.some.inj hsave
      obtain ⟨rest, rfl, -⟩ := hdynamic
      have hlist := congrArg String.toList hpath
      simp at hlist
    | 1 =>
      obtain rfl := Option.some.inj hstep
      cases hsave
    | i + 2 => simp [spec] at hstep
  obtain ⟨v, hget, htype⟩ := hresolved _ List.mem_cons_self hstatic
  rw [hcontext] at hget
  rw [hnext] at htype
  exact ⟨v, hget, (htype .uint (by decide)).imp_right fun h => ⟨h.1, s, hs, h.2⟩⟩

end TxGen
