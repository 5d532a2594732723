import TxGen.Scenario.Lanes

set_option autoImplicit false

/-! # Submission lanes exclude, and never race two unordered steps

For each key the last step of an instance is remembered. It stands for all steps of the instance that
ever held the key: each of them is that step or comes before it, because a step is only accepted when
the one that was remembered comes before it, and the order is transitive. -/

namespace TxGen

/-! ## The predecessors of a step -/

namespace ScenarioDef

variable {sc : ScenarioDef} {ids : StepIds}

/-- The map of effective IDs finds the step that has the ID. -/
theorem DagIds.effectiveIds_eq (h : sc.DagIds ids) (id : String) :
    sc.effectiveIds id = ids.lookup id := by
  have hfold : ∀ (l : List (StepDef × ℕ)) (m : String → Option ℕ),
      (∀ p ∈ l, sc.steps[p.2]? = some p.1) →
      l.foldl (fun (m : String → Option ℕ) (p : StepDef × ℕ) =>
          Function.update m (p.1.effectiveId p.2) (some p.2)) m id =
        if ∃ p ∈ l, p.1.effectiveId p.2 = id then ids.lookup id else m id := by
    intro l
    induction l with
    | nil => simp
    | cons p l ih =>
        intro m hl
        obtain ⟨step, index⟩ := p
        rw [List.foldl_cons, ih _ fun q hq => hl q (List.mem_cons_of_mem _ hq)]
        have hp := hl _ List.mem_cons_self
        by_cases hrest : ∃ q ∈ l, q.1.effectiveId q.2 = id
        · obtain ⟨q, hq, hid⟩ := hrest
          rw [if_pos ⟨q, hq, hid⟩, if_pos ⟨q, List.mem_cons_of_mem _ hq, hid⟩]
        · rw [if_neg hrest]
          by_cases hid : step.effectiveId index = id
          · rw [if_pos ⟨(step, index), List.mem_cons_self, hid⟩, ← hid, Function.update_self]
            exact ((h.lookup_iff _ index).2 ⟨step, hp, rfl⟩).symm
          · rw [Function.update_of_ne (Ne.symm hid), if_neg]
            rintro ⟨q, hq, hq'⟩
            rcases List.mem_cons.1 hq with rfl | hq
            · exact hid hq'
            · exact hrest ⟨q, hq, hq'⟩
  rw [effectiveIds, hfold _ _ fun p hp => List.mk_mem_zipIdx_iff_getElem?.1 hp]
  split
  · rfl
  · rename_i hnone
    cases hlookup : ids.lookup id with
    | none => rfl
    | some i =>
        obtain ⟨step, hstep, hid⟩ := (h.lookup_iff id i).1 hlookup
        exact absurd ⟨(step, i), List.mk_mem_zipIdx_iff_getElem?.2 hstep, hid⟩ hnone

/-- The dependencies of an ID are those of the step that has it. -/
theorem DagIds.dependenciesOf_eq (h : sc.DagIds ids) {i : ℕ} {step : StepDef}
    (hstep : sc.steps[i]? = some step) :
    sc.dependenciesOf (step.effectiveId i) = step.dependsOn := by
  have hi : sc.effectiveIds (step.effectiveId i) = some i := by
    rw [h.effectiveIds_eq]
    exact (h.lookup_iff _ i).2 ⟨step, hstep, rfl⟩
  simp [dependenciesOf, hi, hstep]

/-- A dependency of a step is a step. -/
theorem DagIds.step_of_dependency (h : sc.DagIds ids) {i : ℕ} {step : StepDef}
    (hstep : sc.steps[i]? = some step) {d : String} (hd : d ∈ step.dependsOn) :
    ∃ (j : ℕ) (a : StepDef), sc.steps[j]? = some a ∧ a.effectiveId j = d := by
  obtain ⟨j, hj⟩ :=
    Option.isSome_iff_exists.1 (h.found step (List.mem_of_getElem? hstep) d hd)
  obtain ⟨a, ha, hid⟩ := (h.lookup_iff d j).1 hj
  exact ⟨j, a, ha, hid⟩

/-- Following dependencies from a dependency of step `j` leads to steps before step `j`. -/
theorem DagIds.reach_iff (h : sc.DagIds ids) (hdag : sc.execution = .dag) {j : ℕ} {step : StepDef}
    (hstep : sc.steps[j]? = some step) (id : String) :
    (∃ d ∈ step.dependsOn,
        Relation.ReflTransGen (fun x y => y ∈ sc.dependenciesOf x) d id) ↔
      ∃ (i : ℕ) (a : StepDef), sc.steps[i]? = some a ∧ a.effectiveId i = id ∧
        sc.Precedes i j := by
  have hdirect : ∀ {i k : ℕ} {a b : StepDef}, sc.steps[i]? = some a → sc.steps[k]? = some b →
      a.effectiveId i ∈ b.dependsOn → sc.DirectlyPrecedes i k := by
    intro i k a b ha hb hin
    unfold DirectlyPrecedes
    rw [hdag]
    exact ⟨a, b, ha, hb, hin⟩
  constructor
  · rintro ⟨d, hd, hreach⟩
    induction hreach with
    | refl =>
        obtain ⟨i, a, ha, rfl⟩ := h.step_of_dependency hstep hd
        exact ⟨i, a, ha, rfl, .single (hdirect ha hstep hd)⟩
    | tail _ hnext ih =>
        obtain ⟨k, b, hb, rfl, hkj⟩ := ih
        rw [h.dependenciesOf_eq hb] at hnext
        obtain ⟨i, a, ha, rfl⟩ := h.step_of_dependency hb hnext
        exact ⟨i, a, ha, rfl, .head (hdirect ha hb hnext) hkj⟩
  · rintro ⟨i, a, ha, rfl, hij⟩
    have hedge : ∀ {i k : ℕ}, sc.DirectlyPrecedes i k → ∃ a b, sc.steps[i]? = some a ∧
        sc.steps[k]? = some b ∧ a.effectiveId i ∈ b.dependsOn := by
      intro i k hik
      unfold DirectlyPrecedes at hik
      rwa [hdag] at hik
    induction hij using Relation.TransGen.head_induction_on generalizing a with
    | single hij =>
        obtain ⟨a', b, ha', hb, hin⟩ := hedge hij
        obtain rfl := Option.some.inj (ha.symm.trans ha')
        obtain rfl := Option.some.inj (hstep.symm.trans hb)
        exact ⟨_, hin, .refl⟩
    | head hik _ ih =>
        obtain ⟨a', b, ha', hb, hin⟩ := hedge hik
        obtain rfl := Option.some.inj (ha.symm.trans ha')
        obtain ⟨d, hd, hreach⟩ := ih b hb
        exact ⟨d, hd, hreach.tail (by rw [h.dependenciesOf_eq hb]; exact hin)⟩

/-- The graph has been validated. -/
theorem validateGraph_dag (hok : sc.validateGraph = .ok ()) (hdag : sc.execution = .dag) :
    ∃ (ids : StepIds) (h : sc.DagIds ids), h.graph.Acyclic := by
  unfold validateGraph at hok
  rw [hdag] at hok
  cases hval : sc.validateDagGraph with
  | error e =>
      rw [hval] at hok
      cases hok
  | ok ancestors =>
      obtain ⟨ids, h, hacyclic, -⟩ := validateDagGraph_ok hval
      exact ⟨ids, h, hacyclic⟩

/-- All steps and the IDs they depend on. -/
def names (sc : ScenarioDef) : Finset String :=
  (sc.steps.zipIdx.map fun p => p.1.effectiveId p.2).toFinset

theorem DagIds.mem_names {i : ℕ} {step : StepDef} (hstep : sc.steps[i]? = some step) :
    step.effectiveId i ∈ sc.names :=
  List.mem_toFinset.2 (List.mem_map.2
    ⟨(step, i), List.mk_mem_zipIdx_iff_getElem?.2 hstep, rfl⟩)

/-- The fuel is enough: each name is expanded once. -/
theorem DagIds.explore_isSome (h : sc.DagIds ids) {j : ℕ} {step : StepDef}
    (hstep : sc.steps[j]? = some step) :
    (DepGraph.explore sc.dependenciesOf
      (step.dependsOn.length + (sc.steps.map fun s => s.dependsOn.length).sum) ∅
      step.dependsOn.reverse).isSome := by
  have hname : ∀ {x : String}, x ∈ sc.names →
      ∃ (i : ℕ) (a : StepDef), sc.steps[i]? = some a ∧ a.effectiveId i = x := by
    intro x hx
    obtain ⟨⟨a, i⟩, ha, rfl⟩ := List.mem_map.1 (List.mem_toFinset.1 hx)
    exact ⟨i, a, List.mk_mem_zipIdx_iff_getElem?.1 ha, rfl⟩
  have hdep : ∀ {i : ℕ} {a : StepDef}, sc.steps[i]? = some a → ∀ d ∈ a.dependsOn, d ∈ sc.names := by
    intro i a ha d hd
    obtain ⟨k, b, hb, rfl⟩ := h.step_of_dependency ha hd
    exact mem_names hb
  refine DepGraph.explore_isSome (fun x (hx : x ∈ sc.names) y hy => ?_)
    (fun d hd => hdep hstep d (List.mem_reverse.1 hd)) ?_
  · obtain ⟨i, a, ha, rfl⟩ := hname hx
    rw [h.dependenciesOf_eq ha] at hy
    exact hdep ha y hy
  · have hsum : ∑ x ∈ sc.names, (sc.dependenciesOf x).length =
        (sc.steps.map fun s => s.dependsOn.length).sum := by
      have hnodup : (sc.steps.zipIdx.map fun p => p.1.effectiveId p.2).Nodup := by
        have hplaces : (sc.steps.zipIdx.map Prod.snd).Nodup := by
          rw [List.zipIdx_map_snd]
          exact List.nodup_range' _
        refine (List.nodup_map_iff_inj_on (List.Nodup.of_map _ hplaces)).2 ?_
        rintro ⟨a, i⟩ hi ⟨b, k⟩ hk hsame
        have ha := List.mk_mem_zipIdx_iff_getElem?.1 hi
        have hb := List.mk_mem_zipIdx_iff_getElem?.1 hk
        obtain rfl := h.effectiveId_inj ha hb hsame
        rw [Option.some.inj (ha.symm.trans hb)]
      rw [names, List.sum_toFinset _ hnodup, List.map_map]
      have hmap : sc.steps.zipIdx.map
          ((fun x => (sc.dependenciesOf x).length) ∘ fun p => p.1.effectiveId p.2) =
          (sc.steps.zipIdx.map Prod.fst).map fun s => s.dependsOn.length := by
        rw [List.map_map]
        refine List.map_congr_left fun p hp => ?_
        rw [Function.comp_apply, h.dependenciesOf_eq (List.mk_mem_zipIdx_iff_getElem?.1 hp)]
        rfl
      rw [hmap, List.zipIdx_map_fst]
    rw [List.length_reverse, Finset.sdiff_empty, hsum]

theorem precedes_sequential (hseq : sc.execution = .sequential) {i j : ℕ} :
    sc.Precedes i j ↔ i < j ∧ j < sc.steps.length := by
  have hdirect : ∀ {i j : ℕ}, sc.DirectlyPrecedes i j ↔ i < j ∧ j < sc.steps.length := by
    intro i j
    unfold DirectlyPrecedes
    rw [hseq]
  constructor
  · intro hij
    induction hij with
    | single hij => exact hdirect.1 hij
    | tail _ hjk ih => exact ⟨ih.1.trans (hdirect.1 hjk).1, (hdirect.1 hjk).2⟩
  · exact fun hij => .single (hdirect.2 hij)

/-- The predecessors of step `j` are the steps before it. -/
theorem mem_orderedPredecessorIds (hok : sc.validateGraph = .ok ()) {j : ℕ} {step : StepDef}
    (hstep : sc.steps[j]? = some step) (id : String) :
    id ∈ sc.orderedPredecessorIds j ↔
      ∃ (i : ℕ) (a : StepDef), sc.steps[i]? = some a ∧ a.effectiveId i = id ∧
        sc.Precedes i j := by
  unfold orderedPredecessorIds
  split
  · rename_i hseq
    rw [List.mem_toFinset, List.mem_map]
    have hj := (List.getElem?_eq_some_iff.1 hstep).1
    constructor
    · rintro ⟨⟨a, i⟩, hi, rfl⟩
      have hi := List.mk_mem_zipIdx_iff_getElem?.1 hi
      rw [List.getElem?_take, Option.ite_none_right_eq_some] at hi
      exact ⟨i, a, hi.2, rfl, (precedes_sequential hseq).2 ⟨hi.1, hj⟩⟩
    · rintro ⟨i, a, ha, rfl, hij⟩
      refine ⟨(a, i), List.mk_mem_zipIdx_iff_getElem?.2 ?_, rfl⟩
      rw [List.getElem?_take, Option.ite_none_right_eq_some]
      exact ⟨((precedes_sequential hseq).1 hij).1, ha⟩
  · rename_i hdag
    obtain ⟨ids, h, -⟩ := validateGraph_dag hok hdag
    obtain ⟨result, hresult⟩ := Option.isSome_iff_exists.1 (h.explore_isSome hstep)
    rw [hstep]
    show id ∈ (DepGraph.explore _ (step.dependsOn.length + _) _ step.dependsOn.reverse).getD ∅ ↔ _
    rw [hresult, Option.getD_some, DepGraph.explore_spec hresult (by simp), ← h.reach_iff hdag hstep]
    simp

end ScenarioDef

/-! ## What a step of the lanes can do -/

namespace SubmissionLaneState

variable {s t : SubmissionLaneState} {keys : Finset SchedulingKey} {owner : SubmissionLaneOwner}
  {orderedPredecessors : Finset String}

/-- All keys are free, and each was last seen with the owner's step or one before it. -/
theorem tryAcquire_acquired (h : s.tryAcquire keys owner orderedPredecessors = (.acquired, t)) :
    (∀ key ∈ keys, s.seenUnordered owner orderedPredecessors key = false) ∧
    (∀ key ∈ keys, s.active key = none) ∧
    t = { s with
      active := fun key => if key ∈ keys then some owner else s.active key
      seenByInstance := fun inst key =>
        if inst = owner.inst ∧ key ∈ keys then some owner.step else s.seenByInstance inst key } := by
  unfold tryAcquire at h
  split at h
  · cases h
  · rename_i hseen
    split at h
    · cases h
    · split at h
      · cases h
      · rename_i hbusy
        push Not at hseen hbusy
        refine ⟨fun key hkey => ?_, fun key hkey => ?_, (Prod.mk.inj h).2.symm⟩
        · simpa using hseen key hkey
        · simpa using hbusy key hkey

/-- An acquire that fails leaves the lanes as they were. -/
theorem tryAcquire_refused {answer : SubmissionLaneAcquire}
    (h : s.tryAcquire keys owner orderedPredecessors = (answer, t)) (hne : answer ≠ .acquired) :
    t = s := by
  unfold tryAcquire at h
  split at h
  · exact (Prod.mk.inj h).2.symm
  · split at h
    · exact (Prod.mk.inj h).2.symm
    · split at h
      · exact (Prod.mk.inj h).2.symm
      · exact absurd (Prod.mk.inj h).1.symm hne

theorem tryAcquire_unsafe {key : SchedulingKey} (hkey : key ∈ keys)
    (h : s.seenUnordered owner orderedPredecessors key = true) :
    (s.tryAcquire keys owner orderedPredecessors).1 = .unsafeSameInstance := by
  unfold tryAcquire
  rw [if_pos ⟨key, hkey, h⟩]

end SubmissionLaneState

namespace LaneRun

variable {sc : ScenarioDef} {s t : LaneRun}

/-- Step `i` is step `j` or comes before it. -/
def NotAfter (sc : ScenarioDef) (i j : ℕ) : Prop := i = j ∨ sc.Precedes i j

structure Inv (sc : ScenarioDef) (s : LaneRun) : Prop where
  active : ∀ g ∈ s.guards, ∀ k ∈ g.keys, s.lanes.active k = some g.owner
  disjoint : s.guards.Pairwise fun g g' => Disjoint g.keys g'.keys
  /-- A key that is taken is in a guard. -/
  held : ∀ k o, s.lanes.active k = some o → ∃ g ∈ s.guards, k ∈ g.keys ∧ g.owner = o
  steps : ∀ x ∈ s.history, x.2.1 < sc.steps.length
  /-- The step that is remembered for a key comes after all others that held it. -/
  last : sc.execution = .dag → ∀ x ∈ s.history, x.1 ∉ s.ended → ∀ k ∈ x.2.2,
    ∃ (j : ℕ) (a : StepDef), sc.steps[j]? = some a ∧
      s.lanes.seenByInstance x.1 k = some (a.effectiveId j) ∧ NotAfter sc x.2.1 j
  comparable : ∀ x ∈ s.history, ∀ y ∈ s.history, x.1 = y.1 → ¬ Disjoint x.2.2 y.2.2 →
    NotAfter sc x.2.1 y.2.1 ∨ NotAfter sc y.2.1 x.2.1

theorem inv_init (sc : ScenarioDef) : Inv sc {} := by
  refine ⟨?_, ?_, ?_, ?_, ?_, ?_⟩ <;> simp

theorem NotAfter.trans_precedes {i j k : ℕ} (hij : NotAfter sc i j) (hjk : sc.Precedes j k) :
    sc.Precedes i k := by
  rcases hij with rfl | hij
  · exact hjk
  · exact hij.trans hjk

/-- In a DAG, whoever held a key that the next step gets is that step or comes before it. -/
theorem Inv.notAfter (h : s.Inv sc) (hok : sc.validateGraph = .ok ()) (hdag : sc.execution = .dag)
    {inst j : ℕ} {step : StepDef} (hstep : sc.steps[j]? = some step) (hlive : inst ∉ s.ended)
    {k : SchedulingKey}
    (hseen : s.lanes.seenUnordered ⟨inst, step.effectiveId j⟩ (sc.orderedPredecessorIds j) k = false)
    {x : ℕ × ℕ × Finset SchedulingKey} (hx : x ∈ s.history) (hinst : x.1 = inst)
    (hk : k ∈ x.2.2) : NotAfter sc x.2.1 j := by
  obtain ⟨ids, hids, -⟩ := ScenarioDef.validateGraph_dag hok hdag
  obtain ⟨l, a, ha, hlast, hxl⟩ := h.last hdag x hx (hinst ▸ hlive) k hk
  rw [hinst] at hlast
  simp only [SubmissionLaneState.seenUnordered, hlast, Option.any_some, Bool.and_eq_false_iff,
    decide_eq_false_iff_not, not_not] at hseen
  rcases hseen with hsame | hpred
  · rw [← hids.effectiveId_inj ha hstep hsame]
    exact hxl
  · obtain ⟨i, b, hb, hid, hij⟩ :=
      (ScenarioDef.mem_orderedPredecessorIds hok hstep _).1 hpred
    obtain rfl := hids.effectiveId_inj hb ha hid
    exact Or.inr (hxl.trans_precedes hij)

/-- Any two steps of a sequential scenario are ordered. -/
theorem notAfter_sequential (hseq : sc.execution = .sequential) {i j : ℕ}
    (hi : i < sc.steps.length) (hj : j < sc.steps.length) : NotAfter sc i j ∨ NotAfter sc j i := by
  rcases Nat.lt_trichotomy i j with hij | rfl | hji
  · exact Or.inl (Or.inr ((ScenarioDef.precedes_sequential hseq).2 ⟨hij, hj⟩))
  · exact Or.inl (Or.inl rfl)
  · exact Or.inr (Or.inr ((ScenarioDef.precedes_sequential hseq).2 ⟨hji, hi⟩))

theorem Inv.acquire (h : s.Inv sc) (hok : sc.validateGraph = .ok ()) {inst j : ℕ} {step : StepDef}
    (hstep : sc.steps[j]? = some step) (hlive : inst ∉ s.ended) {keys : Finset SchedulingKey}
    {lanes : SubmissionLaneState} (hacq : s.attempt sc inst j step keys = (.acquired, lanes)) :
    Inv sc { s with
      lanes
      guards := s.guards ++ [⟨keys, ⟨inst, step.effectiveId j⟩⟩]
      history := s.history ++ [(inst, j, keys)] } := by
  obtain ⟨hseen, hfree, rfl⟩ := SubmissionLaneState.tryAcquire_acquired hacq
  have hj := (List.getElem?_eq_some_iff.1 hstep).1
  have hfresh : ∀ g ∈ s.guards, ∀ k ∈ g.keys, k ∉ keys := by
    intro g hg k hk hin
    have := hfree k hin
    rw [h.active g hg k hk] at this
    cases this
  have hnew : ∀ x ∈ s.history, x.1 = inst → ¬ Disjoint x.2.2 keys →
      NotAfter sc x.2.1 j ∨ NotAfter sc j x.2.1 := by
    intro x hx hinst hmeet
    cases hexec : sc.execution with
    | sequential => exact notAfter_sequential hexec (h.steps x hx) hj
    | dag =>
        obtain ⟨k, hkx, hk⟩ := Finset.not_disjoint_iff.1 hmeet
        exact Or.inl (h.notAfter hok hexec hstep hlive (hseen k hk) hx hinst hkx)
  refine ⟨fun g hg k hk => ?_, ?_, fun k o hk => ?_, fun x hx => ?_, fun hdag x hx hend k hk => ?_,
    fun x hx y hy hinst hmeet => ?_⟩
  · rcases List.mem_append.1 hg with hg | hg
    · exact (if_neg (hfresh g hg k hk)).trans (h.active g hg k hk)
    · obtain rfl := List.mem_singleton.1 hg
      exact if_pos hk
  · refine List.pairwise_append.2 ⟨h.disjoint, List.pairwise_singleton _ _, fun g hg g' hg' => ?_⟩
    obtain rfl := List.mem_singleton.1 hg'
    exact Finset.disjoint_left.2 (hfresh g hg)
  · by_cases hin : k ∈ keys
    · exact ⟨_, List.mem_append_right _ List.mem_cons_self, hin,
        Option.some.inj ((if_pos hin).symm.trans hk)⟩
    · obtain ⟨g, hg, hkg, ho⟩ := h.held k o ((if_neg hin).symm.trans hk)
      exact ⟨g, List.mem_append_left _ hg, hkg, ho⟩
  · rcases List.mem_append.1 hx with hx | hx
    · exact h.steps x hx
    · obtain rfl := List.mem_singleton.1 hx
      exact hj
  · rcases List.mem_append.1 hx with hx | hx
    · by_cases hin : x.1 = inst ∧ k ∈ keys
      · exact ⟨j, step, hstep, if_pos hin,
          h.notAfter hok hdag hstep hlive (hseen k hin.2) hx hin.1 hk⟩
      · obtain ⟨l, a, ha, hlast, hxl⟩ := h.last hdag x hx hend k hk
        exact ⟨l, a, ha, (if_neg hin).trans hlast, hxl⟩
    · obtain rfl := List.mem_singleton.1 hx
      exact ⟨j, step, hstep, if_pos ⟨rfl, hk⟩, Or.inl rfl⟩
  · rcases List.mem_append.1 hx with hx | hx <;> rcases List.mem_append.1 hy with hy | hy
    · exact h.comparable x hx y hy hinst hmeet
    · obtain rfl := List.mem_singleton.1 hy
      exact hnew x hx hinst hmeet
    · obtain rfl := List.mem_singleton.1 hx
      exact (hnew y hy hinst.symm fun hd => hmeet hd.symm).symm
    · obtain rfl := List.mem_singleton.1 hx
      obtain rfl := List.mem_singleton.1 hy
      exact Or.inl (Or.inl rfl)

theorem Inv.release (h : s.Inv sc) {i : ℕ} {guard : SubmissionLaneGuard}
    (hguard : s.guards[i]? = some guard) :
    Inv sc { s with lanes := s.lanes.dropGuard guard, guards := s.guards.eraseIdx i } := by
  obtain ⟨pre, post, hsplit, herase⟩ := List.split_at hguard
  have hpairs := h.disjoint
  rw [hsplit, List.pairwise_append, List.pairwise_cons] at hpairs
  obtain ⟨hpre, ⟨hguardPost, hpost⟩, hcross⟩ := hpairs
  have hmem : ∀ {g : SubmissionLaneGuard}, g ∈ pre ++ post → g ∈ s.guards ∧
      Disjoint guard.keys g.keys := by
    intro g hg
    rw [hsplit]
    rcases List.mem_append.1 hg with hg | hg
    · exact ⟨List.mem_append_left _ hg, (hcross g hg guard List.mem_cons_self).symm⟩
    · exact ⟨List.mem_append_right _ (List.mem_cons_of_mem _ hg), hguardPost g hg⟩
  refine ⟨fun g hg k hk => ?_, ?_, fun k o hk => ?_, h.steps, h.last, h.comparable⟩
  · obtain ⟨hg', hdisj⟩ := hmem (herase ▸ hg)
    have hnot : ¬ (k ∈ guard.keys ∧ s.lanes.active k = some guard.owner) := fun hin =>
      Finset.disjoint_left.1 hdisj hin.1 hk
    exact (if_neg hnot).trans (h.active g hg' k hk)
  · show (s.guards.eraseIdx i).Pairwise _
    rw [herase]
    exact List.pairwise_append.2 ⟨hpre, hpost, fun g hg g' hg' =>
      hcross g hg g' (List.mem_cons_of_mem _ hg')⟩
  · have hk' : (if k ∈ guard.keys ∧ s.lanes.active k = some guard.owner then none
        else s.lanes.active k) = some o := hk
    split at hk'
    · cases hk'
    · rename_i hnot
      obtain ⟨g, hg, hkg, ho⟩ := h.held k o hk'
      refine ⟨g, ?_, hkg, ho⟩
      show g ∈ s.guards.eraseIdx i
      rw [hsplit] at hg
      rw [herase]
      rcases List.mem_append.1 hg with hg | hg
      · exact List.mem_append_left _ hg
      · rcases List.mem_cons.1 hg with rfl | hg
        · exact absurd ⟨hkg, ho ▸ hk'⟩ hnot
        · exact List.mem_append_right _ hg

theorem Inv.step (h : s.Inv sc) (hok : sc.validateGraph = .ok ()) {l : Label}
    (hst : s.step sc l = some t) : t.Inv sc := by
  cases l with
  | acquire inst j keys =>
      simp only [LaneRun.step] at hst
      split at hst
      · rename_i step hstep
        split at hst
        · cases hst
        · rename_i hlive
          split at hst
          · rename_i hacq
            obtain rfl := Option.some.inj hst
            exact h.acquire hok hstep hlive hacq
          · rename_i answer lanes hne hacq
            obtain rfl := Option.some.inj hst
            obtain rfl := SubmissionLaneState.tryAcquire_refused hacq fun ha => hne (by rw [ha])
            exact h
      · cases hst
  | release i =>
      simp only [LaneRun.step] at hst
      split at hst
      · rename_i hguard
        obtain rfl := Option.some.inj hst
        exact h.release hguard
      · cases hst
  | markAmbiguous keys =>
      obtain rfl := Option.some.inj hst
      exact ⟨h.active, h.disjoint, h.held, h.steps, h.last, h.comparable⟩
  | releaseInstance inst =>
      obtain rfl := Option.some.inj hst
      refine ⟨h.active, h.disjoint, h.held, h.steps, fun hdag x hx hend k hk => ?_, h.comparable⟩
      have hne : x.1 ≠ inst := fun he => hend (List.mem_append_right _ (he ▸ List.mem_cons_self))
      obtain ⟨j, a, ha, hlast, hxj⟩ :=
        h.last hdag x hx (fun hin => hend (List.mem_append_left _ hin)) k hk
      exact ⟨j, a, ha, (if_neg hne).trans hlast, hxj⟩

theorem inv_reachable (hok : sc.validateGraph = .ok ()) (h : (laneSystem sc).Reachable s) :
    s.Inv sc :=
  h.invariant (inv_init sc) fun _ _ _ hs hst => hs.step hok hst

/-- What the lanes guarantee. -/
structure Safe (sc : ScenarioDef) (s : LaneRun) : Prop where
  exclusive : s.guards.Pairwise fun g g' => Disjoint g.keys g'.keys
  /-- An acquire is granted whole, or leaves the lanes as they were. -/
  refused : ∀ inst j step keys, (s.attempt sc inst j step keys).1 ≠ .acquired →
    (s.attempt sc inst j step keys).2 = s.lanes
  /-- Two steps of an instance that held a common key are ordered. -/
  comparable : ∀ x ∈ s.history, ∀ y ∈ s.history, x.1 = y.1 → x.2.1 ≠ y.2.1 →
    ¬ Disjoint x.2.2 y.2.2 → sc.Precedes x.2.1 y.2.1 ∨ sc.Precedes y.2.1 x.2.1
  /-- A step that meets a key which a step held that is not ordered with it is told so. -/
  reported : ∀ x ∈ s.history, x.1 ∉ s.ended → ∀ j step keys, sc.steps[j]? = some step →
    x.2.1 ≠ j → ¬ sc.Precedes x.2.1 j → ¬ sc.Precedes j x.2.1 → ¬ Disjoint x.2.2 keys →
    (s.attempt sc x.1 j step keys).1 = .unsafeSameInstance

namespace Sample

/-- Steps `a` and `b` are not ordered, `c` waits for both. -/
def diamond : ScenarioDef where
  name := "diamond"
  execution := .dag
  steps :=
    [{ id := some "a", action := .checkpoint ⟨"x"⟩ }, { id := some "b", action := .checkpoint ⟨"x"⟩ },
      { id := some "c", dependsOn := ["a", "b"], action := .checkpoint ⟨"x"⟩ }]

def key (n : ℕ) : SchedulingKey := ⟨n⟩

/-- Two instances; `b` of the first meets the key that `a` held, `c` may have it. -/
def meeting : List Label :=
  [.acquire 0 0 {key 1, key 2}, .acquire 1 1 {key 2}, .markAmbiguous {key 1}, .release 0,
    .acquire 0 1 {key 1}, .acquire 0 2 {key 1}, .acquire 1 1 {key 2}]

end Sample

end LaneRun

open LaneRun

/-- Under every interleaving of any number of instances of a validated scenario. -/
theorem submission_lanes_safe {sc : ScenarioDef} (hok : sc.validateGraph = .ok ()) {s : LaneRun}
    (h : (laneSystem sc).Reachable s) : s.Safe sc := by
  have hinv := inv_reachable hok h
  refine ⟨hinv.disjoint, fun inst j step keys hne => ?_, fun x hx y hy hinst hne hmeet => ?_,
    fun x hx hlive j step keys hstep hne hxj hjx hmeet => ?_⟩
  · exact SubmissionLaneState.tryAcquire_refused rfl hne
  · rcases hinv.comparable x hx y hy hinst hmeet with (heq | hxy) | (heq | hyx)
    · exact absurd heq hne
    · exact Or.inl hxy
    · exact absurd heq.symm hne
    · exact Or.inr hyx
  · obtain ⟨k, hkx, hk⟩ := Finset.not_disjoint_iff.1 hmeet
    refine SubmissionLaneState.tryAcquire_unsafe hk ?_
    by_contra hseen
    rw [Bool.not_eq_true] at hseen
    cases hexec : sc.execution with
    | sequential =>
        have hj := (List.getElem?_eq_some_iff.1 hstep).1
        rcases notAfter_sequential hexec (hinv.steps x hx) hj with (heq | hp) | (heq | hp)
        · exact hne heq
        · exact hxj hp
        · exact hne heq.symm
        · exact hjx hp
    | dag =>
        rcases hinv.notAfter hok hexec hstep hlive hseen hx rfl hkx with heq | hp
        · exact hne heq
        · exact hxj hp

open LaneRun.Sample in
theorem submission_lanes_safe_meeting : ∃ s, (laneSystem diamond).Run System.anyStep {} meeting s ∧
    s.guards.length = 2 ∧ s.history.length = 3 ∧ s.Safe diamond := by
  have hok : diamond.validateGraph = .ok () := by decide
  have hcheck : ((laneSystem diamond).exec {} meeting).any
      (fun s => s.guards.length = 2 ∧ s.history.length = 3) = true := by decide
  obtain ⟨s, hrun, hguards, hhistory⟩ := System.run_of_check hcheck
  exact ⟨s, hrun, hguards, hhistory, submission_lanes_safe hok ⟨_, hrun⟩⟩

end TxGen
