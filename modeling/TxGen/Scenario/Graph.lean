import TxGen.Lib.Lists
import TxGen.Scenario.Schema

set_option autoImplicit false

/-! # Accepted step graphs

What the checks of the step graph establish: in a DAG scenario every step has an ID of its own, every
dependency names a step, the graph has no cycle, and the ancestors that were computed are those of the
graph. -/

namespace TxGen

/-! ## Step IDs -/

/-- `ids` are the IDs of `steps`, and no ID stands for two steps. -/
def Declared (steps : List StepDef) (ids : StepIds) : Prop :=
  ∀ id i, ids.lookup id = some i ↔ ∃ step, steps[i]? = some step ∧ step.id = some id

theorem declared_nil : Declared [] [] := fun _ _ => by simp

theorem Declared.push_none {steps : List StepDef} {ids : StepIds} (h : Declared steps ids)
    {step : StepDef} (hid : step.id = none) : Declared (steps ++ [step]) ids := by
  intro id i
  rw [h]
  refine exists_congr fun other => and_congr_left fun hother => ?_
  constructor
  · intro hi
    rw [List.getElem?_append_left (List.getElem?_eq_some_iff.1 hi).1, hi]
  · intro hi
    rcases List.getElem?_concat_cases hi with hi | ⟨-, rfl⟩
    · exact hi
    · rw [hid] at hother
      cases hother

theorem Declared.push {steps : List StepDef} {ids : StepIds} (h : Declared steps ids)
    {step : StepDef} {id : String} (hid : step.id = some id) (hnew : ids.lookup id = none) :
    Declared (steps ++ [step]) (ids ++ [(id, steps.length)]) := by
  intro id' i
  rw [List.lookup_append]
  by_cases hsame : id' = id
  · subst hsame
    rw [hnew]
    constructor
    · intro hi
      have : i = steps.length := by simpa [eq_comm] using hi
      subst this
      exact ⟨step, by simp, hid⟩
    · rintro ⟨other, hother, hid'⟩
      rcases List.getElem?_concat_cases hother with hother | ⟨rfl, -⟩
      · have := (h id' i).2 ⟨other, hother, hid'⟩
        rw [hnew] at this
        cases this
      · simp
  · have hlast : List.lookup id' [(id, steps.length)] = none := by
      simp [List.lookup, beq_eq_false_iff_ne.2 hsame]
    rw [hlast, Option.or_none, h]
    refine exists_congr fun other => and_congr_left fun hother => ?_
    constructor
    · intro hi
      rw [List.getElem?_append_left (List.getElem?_eq_some_iff.1 hi).1, hi]
    · intro hi
      rcases List.getElem?_concat_cases hi with hi | ⟨-, rfl⟩
      · exact hi
      · rw [hid, Option.some.injEq] at hother
        exact absurd hother.symm hsame

theorem validateDeclaredStepIds_ok {requireAll : Bool} {all rest : List StepDef}
    {steps : List StepDef} {ids result : StepIds} (h : Declared steps ids)
    (hall : requireAll = true → ∀ step ∈ steps, step.id.isSome)
    (hok : validateDeclaredStepIds requireAll all rest steps.length ids = .ok result) :
    Declared (steps ++ rest) result ∧
      (requireAll = true → ∀ step ∈ steps ++ rest, step.id.isSome) := by
  induction rest generalizing steps ids with
  | nil =>
      obtain rfl := Except.ok.inj hok
      simpa using ⟨h, hall⟩
  | cons step rest ih =>
      rw [validateDeclaredStepIds] at hok
      have hnext : steps.length + 1 = (steps ++ [step]).length := by simp
      split at hok
      · rename_i hid
        split at hok
        · cases hok
        · rename_i hreq
          rw [hnext] at hok
          have := ih (h.push_none hid) (fun hr => absurd hr hreq) hok
          simpa using this
      · rename_i id hid
        obtain ⟨-, -, hok⟩ := bind_eq_ok.1 hok
        split at hok
        · cases hok
        · rename_i hnew
          rw [hnext] at hok
          have hall' : requireAll = true → ∀ x ∈ steps ++ [step], x.id.isSome := by
            intro hr x hx
            rcases List.mem_append.1 hx with hx | hx
            · exact hall hr x hx
            · rw [List.mem_singleton.1 hx, hid]
              rfl
          have := ih (h.push hid hnew) hall' hok
          simpa using this

theorem validateDependencies_ok {ids : StepIds} {label : String} {seen deps : List String}
    (hseen : seen.Nodup) (hok : validateDependencies ids label seen deps = .ok ()) :
    (seen ++ deps).Nodup ∧ ∀ d ∈ deps, (ids.lookup d).isSome := by
  induction deps generalizing seen with
  | nil => simpa using hseen
  | cons d deps ih =>
      rw [validateDependencies, bind_eq_ok] at hok
      obtain ⟨-, -, hok⟩ := hok
      obtain ⟨_, hcheck, hok⟩ := bind_eq_ok.1 hok
      have hd := bailIf_eq_ok.1 hcheck
      split at hok
      · cases hok
      · rename_i hfound
        have hnodup : (seen ++ [d]).Nodup := by
          rw [List.nodup_append]
          exact ⟨hseen, List.nodup_singleton _, by
            rintro a ha b hb rfl
            exact hd (List.mem_singleton.1 hb ▸ ha)⟩
        obtain ⟨hall, hdeps⟩ := ih hnodup hok
        refine ⟨by simpa using hall, fun x hx => ?_⟩
        rcases List.mem_cons.1 hx with rfl | hx
        · rw [hfound]
          rfl
        · exact hdeps x hx

theorem forSteps_ok {check : ℕ → StepDef → Except Report Unit} {steps : List StepDef} {index : ℕ}
    (hok : forSteps check steps index = .ok ()) {i : ℕ} {step : StepDef}
    (hstep : steps[i]? = some step) : check (index + i) step = .ok () := by
  induction steps generalizing index i with
  | nil => simp at hstep
  | cons first steps ih =>
      rw [forSteps, bind_eq_ok] at hok
      obtain ⟨⟨⟩, hfirst, hok⟩ := hok
      cases i with
      | zero =>
          obtain rfl := Option.some.inj hstep
          exact hfirst
      | succ i =>
          have := ih hok (i := i) hstep
          rwa [show index + 1 + i = index + (i + 1) by omega] at this

/-! ## The order of the steps -/

namespace ScenarioDef

/-- Step `i` must finish before step `j` starts. -/
def DirectlyPrecedes (sc : ScenarioDef) (i j : ℕ) : Prop :=
  match sc.execution with
  | .sequential => i < j ∧ j < sc.steps.length
  | .dag => ∃ a b, sc.steps[i]? = some a ∧ sc.steps[j]? = some b ∧ a.effectiveId i ∈ b.dependsOn

/-- The transitive dependency order. -/
def Precedes (sc : ScenarioDef) : ℕ → ℕ → Prop := Relation.TransGen sc.DirectlyPrecedes

/-- The dependencies of step `v`, as indices. -/
def depIndices (sc : ScenarioDef) (ids : StepIds) (v : ℕ) : List ℕ :=
  ((sc.steps[v]?.map StepDef.dependsOn).getD []).filterMap fun d => ids.lookup d

/-- What the checks of a DAG establish. -/
structure DagIds (sc : ScenarioDef) (ids : StepIds) : Prop where
  declared : Declared sc.steps ids
  all : ∀ step ∈ sc.steps, step.id.isSome
  nodup : ∀ step ∈ sc.steps, step.dependsOn.Nodup
  found : ∀ step ∈ sc.steps, ∀ d ∈ step.dependsOn, (ids.lookup d).isSome

variable {sc : ScenarioDef} {ids : StepIds}

theorem DagIds.effectiveId (h : sc.DagIds ids) {i : ℕ} {step : StepDef}
    (hstep : sc.steps[i]? = some step) : step.id = some (step.effectiveId i) := by
  obtain ⟨id, hid⟩ := Option.isSome_iff_exists.1 (h.all step (List.mem_of_getElem? hstep))
  simp [StepDef.effectiveId, hid]

/-- An ID stands for the step that has it. -/
theorem DagIds.lookup_iff (h : sc.DagIds ids) (id : String) (i : ℕ) :
    ids.lookup id = some i ↔ ∃ step, sc.steps[i]? = some step ∧ step.effectiveId i = id := by
  rw [h.declared]
  refine exists_congr fun step => and_congr_right fun hstep => ?_
  rw [h.effectiveId hstep, Option.some.injEq]

theorem DagIds.effectiveId_inj (h : sc.DagIds ids) {i j : ℕ} {a b : StepDef}
    (ha : sc.steps[i]? = some a) (hb : sc.steps[j]? = some b)
    (hsame : a.effectiveId i = b.effectiveId j) : i = j := by
  have hi := (h.lookup_iff _ i).2 ⟨a, ha, rfl⟩
  have hj := (h.lookup_iff _ j).2 ⟨b, hb, hsame.symm⟩
  exact Option.some.inj (hi.symm.trans hj)

theorem DagIds.mem_depIndices (h : sc.DagIds ids) {u v : ℕ} :
    u ∈ sc.depIndices ids v ↔
      ∃ a b, sc.steps[u]? = some a ∧ sc.steps[v]? = some b ∧ a.effectiveId u ∈ b.dependsOn := by
  constructor
  · intro hu
    obtain ⟨d, hd, hdu⟩ := List.mem_filterMap.1 hu
    obtain ⟨a, ha, rfl⟩ := (h.lookup_iff _ u).1 hdu
    cases hb : sc.steps[v]? with
    | none =>
        rw [hb] at hd
        cases hd
    | some b =>
        rw [hb] at hd
        exact ⟨a, b, ha, rfl, hd⟩
  · rintro ⟨a, b, ha, hb, hin⟩
    refine List.mem_filterMap.2 ⟨a.effectiveId u, ?_, (h.lookup_iff _ u).2 ⟨a, ha, rfl⟩⟩
    rw [hb]
    exact hin

/-- The graph that the counters are about. -/
def DagIds.graph (h : sc.DagIds ids) : DepGraph where
  size := sc.steps.length
  deps := sc.depIndices ids
  nodup v := by
    unfold depIndices
    cases hv : sc.steps[v]? with
    | none => exact List.nodup_nil
    | some step =>
        refine List.Nodup.filterMap ?_ (h.nodup step (List.mem_of_getElem? hv))
        intro d d' i hd hd'
        obtain ⟨a, ha, rfl⟩ := (h.lookup_iff d i).1 hd
        obtain ⟨b, hb, rfl⟩ := (h.lookup_iff d' i).1 hd'
        rw [Option.some.inj (ha.symm.trans hb)]
  deps_lt v u hu := by
    obtain ⟨a, -, ha, -, -⟩ := h.mem_depIndices.1 hu
    exact (List.getElem?_eq_some_iff.1 ha).1

theorem DagIds.edge_iff (h : sc.DagIds ids) (hdag : sc.execution = .dag) {u v : ℕ} :
    h.graph.Edge u v ↔ sc.DirectlyPrecedes u v := by
  unfold DirectlyPrecedes DepGraph.Edge
  rw [hdag]
  show v < sc.steps.length ∧ u ∈ sc.depIndices ids v ↔ _
  rw [h.mem_depIndices]
  refine and_iff_right_of_imp ?_
  rintro ⟨-, b, -, hb, -⟩
  exact (List.getElem?_eq_some_iff.1 hb).1

/-! ## The topological sort -/

theorem mem_dependentsOf (h : sc.DagIds ids) {u v : ℕ} :
    v ∈ dependentsOf (fun id => ids.lookup id) sc.steps u ↔ h.graph.Edge u v := by
  show _ ↔ v < sc.steps.length ∧ u ∈ sc.depIndices ids v
  simp only [dependentsOf, depIndices, List.mem_flatMap, List.mem_map, List.mem_filter,
    decide_eq_true_eq, List.mem_filterMap, Prod.exists]
  constructor
  · rintro ⟨step, w, hw, d, ⟨hd, hdu⟩, rfl⟩
    have hstep := List.mk_mem_zipIdx_iff_getElem?.1 hw
    refine ⟨(List.getElem?_eq_some_iff.1 hstep).1, d, ?_, hdu⟩
    rw [hstep]
    exact hd
  · rintro ⟨hv, d, hd, hdu⟩
    rw [List.getElem?_eq_getElem hv] at hd
    exact ⟨sc.steps[v], v, List.mk_mem_zipIdx_iff_getElem?.2 (List.getElem?_eq_getElem hv),
      d, ⟨hd, hdu⟩, rfl⟩

/-- No step lists a dependency twice, so that it is a dependent once. -/
theorem dependentsOf_nodup (h : sc.DagIds ids) (u : ℕ) :
    (dependentsOf (fun id => ids.lookup id) sc.steps u).Nodup := by
  unfold dependentsOf
  rw [List.nodup_flatMap]
  constructor
  · rintro ⟨step, v⟩ hv
    have hstep := List.mk_mem_zipIdx_iff_getElem?.1 hv
    have hnodup := (h.nodup step (List.mem_of_getElem? hstep)).filter
      fun d => decide (ids.lookup d = some u)
    show ((step.dependsOn.filter fun d => decide (ids.lookup d = some u)).map fun _ => v).Nodup
    -- only the ID of step `u` stands for it
    have hsame : ∀ d ∈ step.dependsOn.filter (fun d => decide (ids.lookup d = some u)),
        ∀ d' ∈ step.dependsOn.filter (fun d => decide (ids.lookup d = some u)), d = d' := by
      intro d hd d' hd'
      simp only [List.mem_filter, decide_eq_true_eq] at hd hd'
      obtain ⟨a, ha, rfl⟩ := (h.lookup_iff d u).1 hd.2
      obtain ⟨b, hb, rfl⟩ := (h.lookup_iff d' u).1 hd'.2
      rw [Option.some.inj (ha.symm.trans hb)]
    exact (List.nodup_map_iff_inj_on hnodup).2 fun d hd d' hd' _ => hsame d hd d' hd'
  · have hplaces : (sc.steps.zipIdx.map Prod.snd).Nodup := by
      rw [List.zipIdx_map_snd]
      exact List.nodup_range' _
    refine List.Pairwise.imp_of_mem ?_ (List.Nodup.of_map _ hplaces)
    rintro ⟨a, v⟩ ⟨b, w⟩ hv hw hne
    rw [Function.onFun, List.disjoint_left]
    simp only [List.mem_map, List.mem_filter, not_exists, not_and, forall_exists_index, and_imp]
    rintro _ _ _ _ rfl _ _ _ rfl
    have hva := List.mk_mem_zipIdx_iff_getElem?.1 hv
    have hvb := List.mk_mem_zipIdx_iff_getElem?.1 hw
    rw [Option.some.inj (hva.symm.trans hvb)] at hne
    exact hne rfl

theorem length_deps (h : sc.DagIds ids) (v : ℕ) :
    (h.graph.deps v).length = dependencyCount sc.steps v := by
  show (sc.depIndices ids v).length = _
  unfold depIndices dependencyCount
  cases hv : sc.steps[v]? with
  | none => rfl
  | some step =>
      exact List.filterMap_length_eq_length.2 (h.found step (List.mem_of_getElem? hv))

end ScenarioDef

theorem inherit_spec {index : ℕ} {dependents : List ℕ} (hnodup : dependents.Nodup)
    (hnot : index ∉ dependents) (ancestors : ℕ → Finset ℕ) (v : ℕ) :
    inherit index dependents ancestors v =
      if v ∈ dependents then insert index (ancestors v) ∪ ancestors index else ancestors v := by
  induction dependents generalizing ancestors with
  | nil => simp [inherit]
  | cons d dependents ih =>
      obtain ⟨hd, hnodup⟩ := List.nodup_cons.1 hnodup
      rw [List.mem_cons, not_or] at hnot
      have := ih hnodup hnot.2
        (Function.update ancestors d (insert index (ancestors d) ∪ ancestors index))
      rw [inherit, List.foldl_cons]
      refine this.trans ?_
      rw [Function.update_of_ne hnot.1]
      by_cases hv : v = d
      · subst hv
        simp [hd]
      · simp [hv]

/-- Whatever has been visited is sorted, and the counters are right. -/
structure DagSort.Inv (g : DepGraph) (s : DagSort) (done : Finset ℕ) : Prop where
  progress : g.Progress done done s.indegree s.ready
  sorted : g.Sorted done s.ancestors
  visited : s.visited = done.card

theorem DagSort.Inv.visit {g : DepGraph} {dependents : ℕ → List ℕ}
    (hnodup : ∀ u, (dependents u).Nodup) (hdependents : ∀ u v, v ∈ dependents u ↔ g.Edge u v)
    {fuel : ℕ} {s : DagSort} {done : Finset ℕ} (h : s.Inv g done) :
    ∃ done', (visit dependents fuel s).Inv g done' := by
  induction fuel generalizing s done with
  | zero => exact ⟨done, h⟩
  | succ fuel ih =>
      rw [TxGen.visit]
      split
      · exact ⟨done, h⟩
      · rename_i index ready hpop
        obtain ⟨hready, rfl⟩ := DepGraph.popFirst_some hpop
        obtain ⟨hlt, hnot, -⟩ := (h.progress.ready_iff index).1 hready
        have hdone := h.progress.ready_done hready
        have hself : index ∉ dependents index := fun hin =>
          hnot (hdone index ((hdependents index index).1 hin).2)
        have hprogress := (h.progress.take hready).complete (Finset.mem_insert_self _ _) hnot
          (hnodup index) (hdependents index)
        refine ih ⟨hprogress, ?_, ?_⟩
        · refine h.sorted.complete hlt hnot hdone (fun v hv => ?_) fun v hv => ?_
          · exact (inherit_spec (hnodup index) hself s.ancestors v).trans
              (if_neg (mt (hdependents index v).1 hv))
          · exact (inherit_spec (hnodup index) hself s.ancestors v).trans
              (if_pos ((hdependents index v).2 hv))
        · rw [Finset.card_insert_of_notMem hnot, h.visited]

namespace ScenarioDef

variable {sc : ScenarioDef} {ids : StepIds}

/-- What an accepted DAG is: the checks hold, there is no cycle, and the ancestors are right. -/
theorem validateDagGraph_ok {ancestors : ℕ → Finset ℕ}
    (hok : sc.validateDagGraph = .ok ancestors) : ∃ (ids : StepIds) (h : sc.DagIds ids),
      h.graph.Acyclic ∧ ∀ v < sc.steps.length, ∀ w, w ∈ ancestors v ↔ h.graph.Precedes w v := by
  unfold validateDagGraph at hok
  obtain ⟨ids, hids, hok⟩ := bind_eq_ok.1 hok
  obtain ⟨⟨⟩, hdeps, hok⟩ := bind_eq_ok.1 hok
  obtain ⟨⟨⟩, hvisited, hok⟩ := bind_eq_ok.1 hok
  rw [bailIf_eq_ok, not_not] at hvisited
  obtain ⟨hdeclared, hall⟩ := validateDeclaredStepIds_ok declared_nil
    (fun _ _ hmem => absurd hmem List.not_mem_nil) hids
  have hstep : ∀ step ∈ sc.steps, step.dependsOn.Nodup ∧
      ∀ d ∈ step.dependsOn, (ids.lookup d).isSome := by
    intro step hmem
    obtain ⟨i, hi⟩ := List.mem_iff_getElem?.1 hmem
    simpa using validateDependencies_ok List.nodup_nil (forSteps_ok hdeps hi)
  have h : sc.DagIds ids :=
    ⟨hdeclared, hall rfl, fun s hs => (hstep s hs).1, fun s hs => (hstep s hs).2⟩
  refine ⟨ids, h, ?_⟩
  have hinit : DagSort.Inv h.graph
      { ready := (Finset.range sc.steps.length).filter fun i => dependencyCount sc.steps i = 0
        indegree := dependencyCount sc.steps
        ancestors := fun _ => ∅
        visited := 0 } ∅ :=
    ⟨.init (fun v _ => (length_deps h v).symm) (fun v => by
      rw [Finset.mem_filter, Finset.mem_range]; rfl), .init _, rfl⟩
  obtain ⟨done, hfinal⟩ : ∃ done, (sortSteps (fun id => ids.lookup id) sc.steps).Inv h.graph done :=
    hinit.visit (dependentsOf_nodup h) fun u v => mem_dependentsOf h
  have hsub : done ⊆ Finset.range sc.steps.length := fun v hv =>
    Finset.mem_range.2 (hfinal.progress.taken_lt v hv)
  have hcard : done.card = (Finset.range sc.steps.length).card := by
    rw [Finset.card_range, ← hfinal.visited]
    exact hvisited
  have heq := Finset.eq_of_subset_of_card_le hsub hcard.ge
  obtain rfl := Except.ok.inj hok
  exact hfinal.sorted.finished fun v hv => heq ▸ Finset.mem_range.2 hv

end ScenarioDef

end TxGen
