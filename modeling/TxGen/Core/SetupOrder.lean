import TxGen.Core.Setup
import TxGen.Lib.Dependencies
import TxGen.Lib.Lists

set_option autoImplicit false

/-! # The submission order is exact

`setupSubmissionOrder` accepts a batch exactly if its ids are valid, its dependencies are known and its
two kinds of edges have no cycle, and what it returns is a linear order of those edges. -/

namespace TxGen

/-- Transaction `i` must be submitted before transaction `j`: `j` depends on it, or both have a key and
    `i` is the earlier one. -/
def SetupEdge (txs : List GeneratedTx) (i j : ℕ) : Prop :=
  ∃ a b, txs[i]? = some a ∧ txs[j]? = some b ∧
    ((∃ d ∈ b.dependsOn, a.id = some d) ∨ i < j ∧ ∃ key ∈ a.schedulingKeys, key ∈ b.schedulingKeys)

/-! ## Ids -/

/-- The ids of an accepted batch: each is given, and no two are the same. -/
def ValidIds (txs : List GeneratedTx) : Prop :=
  (∀ tx ∈ txs, tx.phase = .setup ∧ tx.nonemptyId.isSome) ∧ (txs.map (·.id)).Nodup

theorem nonemptyId_eq_some {tx : GeneratedTx} {id : String} (h : tx.nonemptyId = some id) :
    tx.id = some id := (Option.filter_eq_some_iff.1 h).1

/-- Indexing the ids succeeds exactly if they are valid and new. -/
theorem setupIds_eq_ok {txs : List GeneratedTx} {index : ℕ} {ids ids' : List (String × ℕ)} :
    setupIds index ids txs = .ok ids' ↔
      ValidIds txs ∧ (∀ tx ∈ txs, ∀ id, tx.id = some id → ids.lookup id = none) ∧
        ids' = ids ++ (txs.zipIdx index).map fun e => (e.1.id.getD "", e.2) := by
  induction txs generalizing index ids with
  | nil =>
      rw [setupIds, Except.ok.injEq]
      simp [ValidIds, eq_comm (a := ids)]
  | cons tx txs ih =>
      rw [setupIds]
      split
      · rename_i hphase
        simp [ValidIds, hphase]
      rename_i hphase
      rw [not_not] at hphase
      split
      · rename_i hid
        simp [ValidIds, hid]
      rename_i id hid
      have hid' := nonemptyId_eq_some hid
      split
      · rename_i hdup
        refine iff_of_false (by simp) ?_
        rintro ⟨-, hnew, -⟩
        rw [hnew tx List.mem_cons_self id hid'] at hdup
        cases hdup
      rename_i hfresh
      rw [Bool.not_eq_true, Option.isSome_eq_false_iff, Option.isNone_iff_eq_none] at hfresh
      have hlookup : ∀ name, (ids ++ [(id, index)]).lookup name = none ↔
          ids.lookup name = none ∧ name ≠ id := by
        intro name
        rw [List.lookup_append, Option.or_eq_none_iff]
        by_cases hname : name = id
        · simp [List.lookup, hname]
        · simp [List.lookup, hname, beq_eq_false_iff_ne.2 hname]
      rw [ih]
      have hvalid : ValidIds (tx :: txs) ↔ ValidIds txs ∧ ∀ t ∈ txs, t.id ≠ some id := by
        simp only [ValidIds, List.forall_mem_cons, hphase, hid, Option.isSome_some, and_self,
          true_and, List.map_cons, List.nodup_cons, hid', List.mem_map, not_exists, not_and]
        tauto
      rw [hvalid]
      simp only [hlookup, List.forall_mem_cons, List.zipIdx_cons, List.map_cons, hid',
        Option.getD_some, List.append_assoc, List.singleton_append, Option.some.injEq]
      constructor
      · rintro ⟨hids, hnew, rfl⟩
        refine ⟨⟨hids, fun t ht heq => (hnew t ht id heq).2 rfl⟩,
          ⟨?_, fun t ht name hname => (hnew t ht name hname).1⟩, rfl⟩
        rintro _ rfl
        exact hfresh
      · rintro ⟨⟨hids, hne⟩, ⟨-, hnew⟩, rfl⟩
        refine ⟨hids, fun t ht name hname => ⟨hnew t ht name hname, ?_⟩, rfl⟩
        rintro rfl
        exact hne t ht hname

/-- The ids of a batch with their places. -/
def setupIdsOf (txs : List GeneratedTx) : List (String × ℕ) :=
  txs.zipIdx.map fun e => (e.1.id.getD "", e.2)

theorem lookup_setupIdsOf {txs : List GeneratedTx} (h : ValidIds txs) (id : String) (i : ℕ) :
    (setupIdsOf txs).lookup id = some i ↔ ∃ tx, txs[i]? = some tx ∧ tx.id = some id := by
  have hsome : ∀ tx ∈ txs, tx.id = some (tx.id.getD "") := by
    intro tx htx
    obtain ⟨name, hname⟩ := Option.isSome_iff_exists.1 (h.1 tx htx).2
    simp [nonemptyId_eq_some hname]
  have hkeys : ((setupIdsOf txs).map Prod.fst).Nodup := by
    have hmap : (setupIdsOf txs).map Prod.fst = txs.map fun tx => tx.id.getD "" := by
      have hfst : txs = txs.zipIdx.map Prod.fst := (List.zipIdx_map_fst 0 txs).symm
      conv_rhs => rw [hfst]
      rw [setupIdsOf, List.map_map, List.map_map]
      rfl
    rw [hmap]
    refine (List.nodup_map_iff_inj_on (List.Nodup.of_map _ h.2)).2 fun a ha b hb heq => ?_
    refine List.inj_on_of_nodup_map h.2 ha hb ?_
    rw [hsome a ha, hsome b hb, heq]
  rw [List.lookup_eq_some_iff_mem hkeys, setupIdsOf, List.mem_map]
  constructor
  · rintro ⟨⟨tx, j⟩, hmem, heq⟩
    obtain ⟨rfl, rfl⟩ := Prod.mk.inj heq
    have htx := List.mk_mem_zipIdx_iff_getElem?.1 hmem
    exact ⟨tx, htx, hsome tx (List.mem_of_getElem? htx)⟩
  · rintro ⟨tx, htx, hid⟩
    exact ⟨(tx, i), List.mk_mem_zipIdx_iff_getElem?.2 htx, by simp [hid]⟩

/-! ## The edges of the graph -/

/-- Transaction `i` has the key. -/
def HasKey (txs : List GeneratedTx) (key : SchedulingKey) (i : ℕ) : Prop :=
  ∃ tx, txs[i]? = some tx ∧ key ∈ tx.schedulingKeys

/-- `u` is the last transaction before `v` that has the key. -/
def LastWithKey (txs : List GeneratedTx) (key : SchedulingKey) (v u : ℕ) : Prop :=
  u < v ∧ HasKey txs key u ∧ ∀ w, u < w → w < v → ¬ HasKey txs key w

/-- The predecessors that the graph records: of all transactions before that have a key, only the last
    one is. -/
def SetupPred (txs : List GeneratedTx) (u v : ℕ) : Prop :=
  ∃ b, txs[v]? = some b ∧ ((∃ d ∈ b.dependsOn, (setupIdsOf txs).lookup d = some u) ∨
    ∃ key ∈ b.schedulingKeys, LastWithKey txs key v u)

theorem HasKey.lt {txs : List GeneratedTx} {key : SchedulingKey} {i : ℕ} (h : HasKey txs key i) :
    i < txs.length := by
  obtain ⟨tx, htx, -⟩ := h
  exact (List.getElem?_eq_some_iff.1 htx).1

theorem SetupPred.edge {txs : List GeneratedTx} (hids : ValidIds txs) {u v : ℕ}
    (h : SetupPred txs u v) : SetupEdge txs u v := by
  obtain ⟨b, hb, ⟨d, hd, hu⟩ | ⟨key, hkey, huv, ⟨a, ha, hkey'⟩, -⟩⟩ := h
  · obtain ⟨a, ha, hid⟩ := (lookup_setupIdsOf hids d u).1 hu
    exact ⟨a, b, ha, hb, Or.inl ⟨d, hd, hid⟩⟩
  · exact ⟨a, b, ha, hb, Or.inr ⟨huv, key, hkey', hkey⟩⟩

open Classical in
/-- The graph that is sorted. -/
noncomputable def setupDepGraph (txs : List GeneratedTx) : DepGraph where
  size := txs.length
  deps v := (List.range txs.length).filter fun u => SetupPred txs u v
  nodup _ := List.nodup_range.filter _
  deps_lt _ _ hu := List.mem_range.1 (List.mem_filter.1 hu).1

theorem SetupPred.lt {txs : List GeneratedTx} (hids : ValidIds txs) {u v : ℕ}
    (h : SetupPred txs u v) : u < txs.length ∧ v < txs.length := by
  obtain ⟨a, b, ha, hb, -⟩ := h.edge hids
  exact ⟨(List.getElem?_eq_some_iff.1 ha).1, (List.getElem?_eq_some_iff.1 hb).1⟩

theorem setupDepGraph_edge {txs : List GeneratedTx} (hids : ValidIds txs) {u v : ℕ} :
    (setupDepGraph txs).Edge u v ↔ SetupPred txs u v := by
  simp only [DepGraph.Edge, setupDepGraph, List.mem_filter, List.mem_range, decide_eq_true_eq]
  exact ⟨fun h => h.2.2, fun h => ⟨(h.lt hids).2, (h.lt hids).1, h⟩⟩

/-- Transactions with a common key come after each other along the recorded edges. -/
theorem precedes_of_key {txs : List GeneratedTx} (hids : ValidIds txs) {key : SchedulingKey} {u v : ℕ}
    (huv : u < v) (hu : HasKey txs key u) (hv : HasKey txs key v) :
    (setupDepGraph txs).Precedes u v := by
  -- induction on the later one: the last transaction before it that has the key is `u` or after `u`
  induction v using Nat.strong_induction_on with
  | _ v ih =>
      obtain ⟨tx, htx, hkey⟩ := hv
      classical
      obtain ⟨w, hw⟩ : ∃ w, LastWithKey txs key v w := by
        have hex : ∃ i, HasKey txs key (v - 1 - i) ∧ i < v := ⟨v - 1 - u, by
          rwa [show v - 1 - (v - 1 - u) = u by omega], by omega⟩
        obtain ⟨hmin, hlt⟩ := Nat.find_spec hex
        refine ⟨v - 1 - Nat.find hex, by omega, hmin, fun x hx hxv hhas => ?_⟩
        refine Nat.find_min hex (m := v - 1 - x) (by omega) ⟨?_, by omega⟩
        rwa [show v - 1 - (v - 1 - x) = x by omega]
      have hlast : (setupDepGraph txs).Edge w v :=
        (setupDepGraph_edge hids).2 ⟨tx, htx, Or.inr ⟨key, hkey, hw⟩⟩
      rcases Nat.lt_trichotomy u w with hlt | rfl | hgt
      · exact (ih w hw.1 hlt hw.2.1).tail hlast
      · exact .single hlast
      · exact absurd hu (hw.2.2 u hgt huv)

/-- The recorded edges and the edges of the batch give the same order. -/
theorem SetupEdge.precedes {txs : List GeneratedTx} (hids : ValidIds txs) {u v : ℕ}
    (h : SetupEdge txs u v) : (setupDepGraph txs).Precedes u v := by
  obtain ⟨a, b, ha, hb, ⟨d, hd, hid⟩ | ⟨huv, key, hkey, hkey'⟩⟩ := h
  · exact .single ((setupDepGraph_edge hids).2
      ⟨b, hb, Or.inl ⟨d, hd, (lookup_setupIdsOf hids d u).2 ⟨a, ha, hid⟩⟩⟩)
  · exact precedes_of_key hids huv ⟨a, ha, hkey⟩ ⟨b, hb, hkey'⟩

/-! ## Building the graph -/

theorem mem_dependencyIndices {ids : List (String × ℕ)} {id : String} {deps : List String}
    {is : List ℕ} (h : dependencyIndices ids id deps = .ok is) (u : ℕ) :
    u ∈ is ↔ ∃ d ∈ deps, ids.lookup d = some u := by
  induction deps generalizing is with
  | nil =>
      obtain rfl := Except.ok.inj h
      simp
  | cons dep deps ih =>
      rw [dependencyIndices] at h
      split at h
      · cases h
      rename_i prior hprior
      cases hr : dependencyIndices ids id deps with
      | error e =>
          rw [hr] at h
          cases h
      | ok is' =>
          rw [hr] at h
          obtain rfl := Except.ok.inj h
          simp [ih hr, hprior, eq_comm]

theorem dependencyIndices_of_known {ids : List (String × ℕ)} {id : String} {deps : List String}
    (h : ∀ d ∈ deps, (ids.lookup d).isSome) : ∃ is, dependencyIndices ids id deps = .ok is := by
  induction deps with
  | nil => exact ⟨[], rfl⟩
  | cons dep deps ih =>
      obtain ⟨prior, hprior⟩ := Option.isSome_iff_exists.1 (h dep List.mem_cons_self)
      obtain ⟨is, his⟩ := ih fun d hd => h d (List.mem_cons_of_mem _ hd)
      refine ⟨prior :: is, ?_⟩
      rw [dependencyIndices, hprior, his]
      rfl

theorem SetupGraph.addEdges_successors (g : SetupGraph) (index : ℕ) {preds : List ℕ}
    (hpreds : preds.Nodup) (u : ℕ) :
    (g.addEdges index preds).successors[u]? =
      if u ∈ preds then (g.successors[u]?).map (· ++ [index]) else g.successors[u]? := by
  obtain ⟨successors, incoming⟩ := g
  show (preds.foldl _ successors)[u]? = _
  induction preds generalizing successors with
  | nil => simp
  | cons p preds ih =>
      obtain ⟨hp, hpreds⟩ := List.nodup_cons.1 hpreds
      rw [List.foldl_cons, ih hpreds, List.getElem?_modify]
      by_cases hu : u = p
      · subst hu
        simp [hp]
      · simp [hu, Ne.symm hu]

/-- The graph after the first `k` transactions. -/
structure SetupGraph.Built (txs : List GeneratedTx) (k : ℕ) (previous : List (SchedulingKey × ℕ))
    (g : SetupGraph) : Prop where
  successors_length : g.successors.length = txs.length
  incoming_length : g.incoming.length = txs.length
  mem_successors : ∀ u v, v ∈ g.successors.getD u [] ↔ v < k ∧ SetupPred txs u v
  nodup : ∀ u, (g.successors.getD u []).Nodup
  incoming : ∀ v, g.incoming.getD v 0 = if v < k then ((setupDepGraph txs).deps v).length else 0
  previous : ∀ key u, previous.lookup key = some u ↔ LastWithKey txs key k u

theorem lookup_keys {keys : List SchedulingKey} {index : ℕ}
    {previous : List (SchedulingKey × ℕ)} (key : SchedulingKey) :
    (keys.map (·, index) ++ previous).lookup key =
      if key ∈ keys then some index else previous.lookup key := by
  induction keys with
  | nil => rfl
  | cons k keys ih =>
      rw [List.map_cons, List.cons_append, List.lookup_cons]
      by_cases hk : key = k
      · simp [hk]
      · rw [beq_eq_false_iff_ne.2 hk, ih]
        simp [hk]

/-- The keys of a transaction are now last held by it. -/
theorem LastWithKey.succ {txs : List GeneratedTx} {tx : GeneratedTx} {k : ℕ}
    (htx : txs[k]? = some tx) (key : SchedulingKey) (u : ℕ) :
    LastWithKey txs key (k + 1) u ↔
      if key ∈ tx.schedulingKeys then u = k else LastWithKey txs key k u := by
  have hk : HasKey txs key k ↔ key ∈ tx.schedulingKeys := by
    rw [HasKey, htx]
    simp
  split
  · rename_i hin
    constructor
    · rintro ⟨hlt, -, hlast⟩
      by_contra hne
      exact hlast k (by omega) (by omega) (hk.2 hin)
    · rintro rfl
      exact ⟨Nat.lt_succ_self u, hk.2 hin, fun w hw hw' => by omega⟩
  · rename_i hnot
    constructor
    · rintro ⟨hlt, hhas, hlast⟩
      have hne : u ≠ k := by
        rintro rfl
        exact hnot (hk.1 hhas)
      exact ⟨by omega, hhas, fun w hw hw' => hlast w hw (by omega)⟩
    · rintro ⟨hlt, hhas, hlast⟩
      refine ⟨by omega, hhas, fun w hw hw' hhas' => ?_⟩
      rcases Nat.lt_succ_iff_lt_or_eq.1 hw' with hw' | rfl
      · exact hlast w hw hw' hhas'
      · exact hnot (hk.1 hhas')

theorem SetupGraph.Built.addEdges {txs : List GeneratedTx} (hids : ValidIds txs) {k : ℕ}
    {previous : List (SchedulingKey × ℕ)} {g : SetupGraph} (h : g.Built txs k previous)
    {tx : GeneratedTx} (htx : txs[k]? = some tx) {explicit : List ℕ}
    (hexplicit : ∀ u, u ∈ explicit ↔ ∃ d ∈ tx.dependsOn, (setupIdsOf txs).lookup d = some u) :
    (g.addEdges k ((explicit ++ tx.schedulingKeys.dedup.filterMap fun key =>
      previous.lookup key).dedup.mergeSort)).Built txs (k + 1)
        (tx.schedulingKeys.dedup.map (·, k) ++ previous) := by
  generalize hpreds : (explicit ++ tx.schedulingKeys.dedup.filterMap fun key =>
    previous.lookup key).dedup.mergeSort = preds
  have hmem : ∀ u, u ∈ preds ↔ SetupPred txs u k := by
    intro u
    rw [← hpreds, (List.mergeSort_perm _ _).mem_iff, List.mem_dedup, List.mem_append, hexplicit,
      List.mem_filterMap]
    simp only [SetupPred, htx, Option.some.injEq, exists_eq_left', List.mem_dedup, h.previous]
  have hnodup : preds.Nodup := by
    rw [← hpreds, (List.mergeSort_perm _ _).nodup_iff]
    exact List.nodup_dedup _
  have hk : k < txs.length := (List.getElem?_eq_some_iff.1 htx).1
  have hlength : preds.length = ((setupDepGraph txs).deps k).length := by
    refine List.Perm.length_eq ((List.perm_ext_iff_of_nodup hnodup
      ((setupDepGraph txs).nodup k)).2 fun u => ?_)
    rw [hmem, ← setupDepGraph_edge hids, DepGraph.Edge]
    exact and_iff_right hk
  have hget : ∀ u, (g.addEdges k preds).successors.getD u [] =
      if u ∈ preds then g.successors.getD u [] ++ [k] else g.successors.getD u [] := by
    intro u
    rw [List.getD_eq_getElem?_getD, g.addEdges_successors k hnodup]
    split
    · rename_i hin
      have hu : u < g.successors.length := by
        rw [h.successors_length]
        exact (((hmem u).1 hin).lt hids).1
      rw [List.getD_eq_getElem?_getD, List.getElem?_eq_getElem hu]
      rfl
    · rw [List.getD_eq_getElem?_getD]
  have hfresh : ∀ u, k ∉ g.successors.getD u [] := fun u hin =>
    ((h.mem_successors u k).1 hin).1.false
  refine ⟨?_, by simp [SetupGraph.addEdges, h.incoming_length], fun u v => ?_, fun u => ?_,
    fun v => ?_, fun key u => ?_⟩
  · have hfold : ∀ (preds : List ℕ) (successors : List (List ℕ)), (preds.foldl
        (fun succ prior => succ.modify prior (· ++ [k])) successors).length = successors.length := by
      intro preds
      induction preds with
      | nil => exact fun _ => rfl
      | cons p preds ih => exact fun _ => (ih _).trans (List.length_modify ..)
    exact (hfold preds _).trans h.successors_length
  · rw [hget]
    have hnew : v < k + 1 ∧ SetupPred txs u v ↔
        (v < k ∧ SetupPred txs u v) ∨ v = k ∧ SetupPred txs u k := by
      constructor
      · rintro ⟨hv, hpred⟩
        rcases Nat.lt_succ_iff_lt_or_eq.1 hv with hv | rfl
        · exact Or.inl ⟨hv, hpred⟩
        · exact Or.inr ⟨rfl, hpred⟩
      · rintro (⟨hv, hpred⟩ | ⟨rfl, hpred⟩)
        · exact ⟨Nat.lt_succ_of_lt hv, hpred⟩
        · exact ⟨Nat.lt_succ_self v, hpred⟩
    rw [hnew, ← h.mem_successors, ← hmem u]
    split
    · rename_i hin
      simp [hin]
    · rename_i hnot
      simp [hnot]
  · rw [hget]
    split
    · exact (h.nodup u).append (List.nodup_singleton k)
        (List.disjoint_singleton.2 (hfresh u))
    · exact h.nodup u
  · have hmodify : (g.addEdges k preds).incoming.getD v 0 =
        if v = k then g.incoming.getD k 0 + preds.length else g.incoming.getD v 0 := by
      show (g.incoming.modify k _).getD v 0 = _
      rw [List.getD_eq_getElem?_getD, List.getElem?_modify]
      by_cases hv : v = k
      · subst hv
        have hlt : v < g.incoming.length := h.incoming_length ▸ hk
        simp [hlt]
      · simp [hv, Ne.symm hv, List.getD_eq_getElem?_getD]
    rw [hmodify, h.incoming, h.incoming]
    by_cases hv : v = k
    · subst hv
      simp [hlength]
    · rw [if_neg hv]
      refine if_congr ?_ rfl rfl
      omega
  · rw [lookup_keys, LastWithKey.succ htx]
    simp only [List.mem_dedup]
    split
    · simp [eq_comm]
    · exact h.previous key u

/-- Building the graph from transaction `k` on. -/
theorem setupGraph_built {txs : List GeneratedTx} (hids : ValidIds txs) {rest : List GeneratedTx}
    {k : ℕ} {previous : List (SchedulingKey × ℕ)} {g g' : SetupGraph}
    (h : g.Built txs k previous) (hrest : rest = txs.drop k)
    (hok : setupGraph (setupIdsOf txs) k previous g rest = .ok g') :
    ∃ previous', g'.Built txs txs.length previous' := by
  induction rest generalizing k previous g with
  | nil =>
      obtain rfl := Except.ok.inj hok
      have hk : txs.length ≤ k := List.drop_eq_nil_iff.1 hrest.symm
      refine ⟨previous, h.successors_length, h.incoming_length, fun u v => ?_, h.nodup, fun v => ?_,
        fun key u => ?_⟩
      · rw [h.mem_successors]
        exact and_congr_left fun hpred =>
          iff_of_true (lt_of_lt_of_le (hpred.lt hids).2 hk) (hpred.lt hids).2
      · rw [h.incoming]
        by_cases hv : v < txs.length
        · rw [if_pos hv, if_pos (lt_of_lt_of_le hv hk)]
        · have hdeps : ((setupDepGraph txs).deps v).length = 0 := by
            rw [List.length_eq_zero_iff, List.eq_nil_iff_forall_not_mem]
            intro u hu
            classical
            have hpred : SetupPred txs u v := by
              simpa using (List.mem_filter.1 hu).2
            exact hv (hpred.lt hids).2
          simp [hdeps]
      · rw [h.previous]
        constructor
        · rintro ⟨-, hhas, hlast⟩
          exact ⟨hhas.lt, hhas, fun w hw hw' => hlast w hw (by omega)⟩
        · rintro ⟨hlt, hhas, hlast⟩
          exact ⟨by omega, hhas, fun w hw hw' hhas' => hlast w hw hhas'.lt hhas'⟩
  | cons tx rest ih =>
      have htx : txs[k]? = some tx := by
        rw [← List.head?_drop, ← hrest]
        rfl
      rw [setupGraph] at hok
      split at hok
      · cases hok
      rename_i explicit hexplicit
      refine ih (h.addEdges hids htx (mem_dependencyIndices hexplicit)) ?_ hok
      rw [← List.tail_drop, ← hrest]
      rfl

theorem setupGraph_of_known {ids : List (String × ℕ)} {rest : List GeneratedTx}
    (h : ∀ tx ∈ rest, ∀ d ∈ tx.dependsOn, (ids.lookup d).isSome) (k : ℕ)
    (previous : List (SchedulingKey × ℕ)) (g : SetupGraph) :
    ∃ g', setupGraph ids k previous g rest = .ok g' := by
  induction rest generalizing k previous g with
  | nil => exact ⟨g, rfl⟩
  | cons tx rest ih =>
      obtain ⟨is, his⟩ := @dependencyIndices_of_known ids (tx.id.getD "") _ (h tx List.mem_cons_self)
      rw [setupGraph, his]
      exact ih (fun t ht => h t (List.mem_cons_of_mem _ ht)) _ _ _

/-! ## The loop over the ready queue -/

theorem relaxSuccessors_spec {nexts : List ℕ} (hnodup : nexts.Nodup) {incoming : List ℕ}
    (hlt : ∀ v ∈ nexts, v < incoming.length) (ready : List ℕ) :
    (relaxSuccessors incoming ready nexts).1.length = incoming.length ∧
    (∀ v, (relaxSuccessors incoming ready nexts).1.getD v 0 =
      if v ∈ nexts then incoming.getD v 0 - 1 else incoming.getD v 0) ∧
    (relaxSuccessors incoming ready nexts).2 =
      ready ++ nexts.filter fun v => incoming.getD v 0 - 1 = 0 := by
  induction nexts generalizing incoming ready with
  | nil => simp [relaxSuccessors]
  | cons next nexts ih =>
      obtain ⟨hnext, hnodup⟩ := List.nodup_cons.1 hnodup
      have hlen : next < incoming.length := hlt next List.mem_cons_self
      have hget : ∀ v, (incoming.modify next (· - 1)).getD v 0 =
          if v = next then incoming.getD next 0 - 1 else incoming.getD v 0 := by
        intro v
        rw [List.getD_eq_getElem?_getD, List.getElem?_modify]
        by_cases hv : v = next
        · subst hv
          simp [hlen]
        · simp [hv, Ne.symm hv, List.getD_eq_getElem?_getD]
      have hzero : ((incoming.modify next (· - 1))[next]? = some 0) ↔
          incoming.getD next 0 - 1 = 0 := by
        rw [List.getElem?_modify]
        simp [hlen]
      obtain ⟨hl, hg, hr⟩ := @ih hnodup (incoming.modify next (· - 1))
        (fun v hv => by simpa using hlt v (List.mem_cons_of_mem _ hv))
        (if (incoming.modify next (· - 1))[next]? = some 0 then ready ++ [next] else ready)
      have hsame : ∀ v ∈ nexts, (incoming.modify next (· - 1)).getD v 0 = incoming.getD v 0 := by
        intro v hv
        rw [hget, if_neg]
        rintro rfl
        exact hnext hv
      refine ⟨hl.trans (List.length_modify ..), fun v => ?_, ?_⟩
      · show (relaxSuccessors _ _ nexts).1.getD v 0 = _
        rw [hg, hget]
        by_cases hv : v = next
        · subst hv
          simp [hnext]
        · simp [hv]
      · show (relaxSuccessors _ _ nexts).2 = _
        rw [hr, List.filter_congr fun v hv => by rw [hsame v hv]]
        by_cases hz : incoming.getD next 0 - 1 = 0
        · rw [if_pos (hzero.2 hz), List.filter_cons_of_pos (by simpa using hz), List.append_assoc]
          rfl
        · rw [if_neg (mt hzero.1 hz), List.filter_cons_of_neg (by simpa using hz)]

/-- Where the loop is: what has been taken is done, and everything came after its dependencies. -/
structure Draining (g : DepGraph) (ready incoming order : List ℕ) : Prop where
  length : incoming.length = g.size
  nodup_ready : ready.Nodup
  nodup_order : order.Nodup
  progress : g.Progress order.toFinset order.toFinset (fun v => incoming.getD v 0) ready.toFinset
  forward : ∀ i v, order[i]? = some v → ∀ u ∈ g.deps v, u ∈ order.take i

theorem Draining.step {g : DepGraph} {index : ℕ} {ready incoming order nexts : List ℕ}
    (h : Draining g (index :: ready) incoming order) (hnodup : nexts.Nodup)
    (hnexts : ∀ v, v ∈ nexts ↔ g.Edge index v) :
    Draining g (relaxSuccessors incoming ready nexts).2 (relaxSuccessors incoming ready nexts).1
      (order ++ [index]) := by
  obtain ⟨hnot, hready⟩ := List.nodup_cons.1 h.nodup_ready
  have hin : index ∈ (index :: ready).toFinset := by simp
  obtain ⟨hlt, hfresh, -⟩ := (h.progress.ready_iff index).1 hin
  rw [List.mem_toFinset] at hfresh
  have hdone := h.progress.ready_done hin
  obtain ⟨hlen, hget, hnew⟩ := @relaxSuccessors_spec nexts hnodup incoming
    (fun v hv => h.length ▸ ((hnexts v).1 hv).1) ready
  have htaken := h.progress.take hin
  have hcomplete := htaken.complete (Finset.mem_insert_self _ _)
    (by rwa [List.mem_toFinset]) hnodup hnexts
  obtain ⟨hrem, hrel⟩ := DepGraph.release_spec hnodup (fun v => incoming.getD v 0)
    ((index :: ready).toFinset.erase index)
  have herase : (index :: ready).toFinset.erase index = ready.toFinset := by
    rw [List.toFinset_cons, Finset.erase_insert (by simpa using hnot)]
  have horder : (order ++ [index]).toFinset = insert index order.toFinset := by
    ext v
    simp
  have hremaining : (fun v => (relaxSuccessors incoming ready nexts).1.getD v 0) =
      (DepGraph.release nexts (fun v => incoming.getD v 0)
        ((index :: ready).toFinset.erase index)).1 := by
    funext v
    rw [hget, hrem]
  have hqueue : (relaxSuccessors incoming ready nexts).2.toFinset =
      (DepGraph.release nexts (fun v => incoming.getD v 0)
        ((index :: ready).toFinset.erase index)).2 := by
    ext v
    rw [hrel, hnew, herase]
    simp
  refine ⟨hlen.trans h.length, ?_, ?_, ?_, fun i v hv u hu => ?_⟩
  · rw [hnew]
    refine hready.append (hnodup.filter _) ?_
    -- what is released was waiting for `index`, and so was not ready
    intro v hv hv'
    have hedge := (hnexts v).1 (List.mem_filter.1 hv').1
    have hv'' : v ∈ (index :: ready).toFinset := by simp [hv]
    have := h.progress.ready_done hv'' index hedge.2
    exact hfresh (List.mem_toFinset.1 this)
  · exact h.nodup_order.append (List.nodup_singleton _) (List.disjoint_singleton.2 hfresh)
  · rw [horder, hremaining, hqueue]
    exact hcomplete
  · rcases List.getElem?_concat_cases hv with hv | ⟨rfl, rfl⟩
    · rw [List.take_append_of_le_length (List.getElem?_eq_some_iff.1 hv).1.le]
      exact h.forward i v hv u hu
    · rw [List.take_left]
      exact List.mem_toFinset.1 (hdone u hu)

/-- The loop ends because the queue is empty or because every index was taken. -/
theorem drainReady_spec {g : DepGraph} {successors : List (List ℕ)}
    (hnodup : ∀ u, (successors.getD u []).Nodup)
    (hsuccessors : ∀ u v, v ∈ successors.getD u [] ↔ g.Edge u v) {fuel : ℕ}
    {ready incoming order : List ℕ} (h : Draining g ready incoming order) :
    ∃ ready', Draining g ready' (drainReady successors fuel ready incoming order).2
        (drainReady successors fuel ready incoming order).1 ∧
      (ready' = [] ∨
        (drainReady successors fuel ready incoming order).1.length = order.length + fuel) := by
  induction fuel generalizing ready incoming order with
  | zero =>
      rw [drainReady]
      · exact ⟨ready, h, Or.inr rfl⟩
      · simp
  | succ fuel ih =>
      cases ready with
      | nil => exact ⟨[], h, Or.inl rfl⟩
      | cons index ready =>
          obtain ⟨ready', hend, hor⟩ := ih (h.step (hnodup index) (hsuccessors index))
          refine ⟨ready', hend, hor.imp_right fun hlen => ?_⟩
          rw [drainReady]
          refine hlen.trans ?_
          rw [List.length_append, List.length_singleton]
          omega

theorem Draining.sub {g : DepGraph} {ready incoming order : List ℕ}
    (h : Draining g ready incoming order) : order ⊆ List.range g.size := fun v hv =>
  List.mem_range.2 (h.progress.taken_lt v (List.mem_toFinset.2 hv))

/-- If everything was taken, the order lists every vertex once. -/
theorem Draining.perm {g : DepGraph} {ready incoming order : List ℕ}
    (h : Draining g ready incoming order) (hlen : order.length = g.size) :
    order.Perm (List.range g.size) :=
  (List.subperm_of_subset h.nodup_order h.sub).perm_of_length_le (by simp [hlen])

/-- A vertex that comes before another one is listed before it. -/
theorem Draining.idxOf_lt {g : DepGraph} {ready incoming order : List ℕ}
    (h : Draining g ready incoming order) (hlen : order.length = g.size) {u v : ℕ}
    (huv : g.Precedes u v) : order.idxOf u < order.idxOf v := by
  have hedge : ∀ {a b : ℕ}, g.Edge a b → order.idxOf a < order.idxOf b := by
    intro a b hab
    have hb : b ∈ order := (h.perm hlen).mem_iff.2 (List.mem_range.2 hab.1)
    have hget : order[order.idxOf b]? = some b := List.getElem?_idxOf hb
    have ha := h.forward _ b hget a hab.2
    calc order.idxOf a
        = (order.take (order.idxOf b) ++ order.drop (order.idxOf b)).idxOf a := by
          rw [List.take_append_drop]
      _ = (order.take (order.idxOf b)).idxOf a := List.idxOf_append_of_mem ha
      _ < (order.take (order.idxOf b)).length := List.idxOf_lt_length_iff.2 ha
      _ ≤ order.idxOf b := List.length_take_le _ _
  induction huv with
  | single hab => exact hedge hab
  | tail _ hbc ih => exact ih.trans (hedge hbc)

theorem SetupGraph.Built.empty (txs : List GeneratedTx) : SetupGraph.Built txs 0 []
    ⟨List.replicate txs.length [], List.replicate txs.length 0⟩ := by
  have hempty : ∀ u, (List.replicate txs.length ([] : List ℕ)).getD u [] = [] := by
    intro u
    rw [List.getD_eq_getElem?_getD, List.getElem?_replicate]
    split <;> rfl
  refine ⟨by simp, by simp, fun u v => ?_, fun u => ?_, fun v => ?_, fun key u => ?_⟩
  · rw [hempty]
    simp
  · rw [hempty]
    exact List.nodup_nil
  · rw [List.getD_eq_getElem?_getD, List.getElem?_replicate]
    split <;> rfl
  · simp [LastWithKey]

/-- Before the first transaction is taken, those without predecessors are ready. -/
theorem SetupGraph.Built.draining {txs : List GeneratedTx} {previous : List (SchedulingKey × ℕ)}
    {g : SetupGraph} (h : g.Built txs txs.length previous) : Draining (setupDepGraph txs)
      ((List.range txs.length).filter fun i => g.incoming[i]? = some 0) g.incoming [] := by
  refine ⟨h.incoming_length, List.nodup_range.filter _, List.nodup_nil, ?_, by simp⟩
  refine DepGraph.Progress.init (fun v hv => ?_) fun v => ?_
  · exact (h.incoming v).trans (if_pos hv)
  · rw [List.mem_toFinset, List.mem_filter, List.mem_range, decide_eq_true_eq]
    refine and_congr_right fun hv => ?_
    have hv' : v < g.incoming.length := h.incoming_length ▸ hv
    rw [List.getD_eq_getElem?_getD, List.getElem?_eq_getElem hv']
    simp

/-! ## The submission order -/

/-- The loop of `setupSubmissionOrder` on a graph. -/
def setupDrain (n : ℕ) (g : SetupGraph) : List ℕ × List ℕ :=
  drainReady g.successors n ((List.range n).filter fun index => g.incoming[index]? = some 0) g.incoming
    []

theorem setupIds_eq_setupIdsOf (txs : List GeneratedTx) (ids : List (String × ℕ)) :
    setupIds 0 [] txs = .ok ids ↔ ValidIds txs ∧ ids = setupIdsOf txs := by
  rw [setupIds_eq_ok]
  simp [setupIdsOf]

theorem lookup_setupIdsOf_isSome {txs : List GeneratedTx} (hids : ValidIds txs) (d : String) :
    ((setupIdsOf txs).lookup d).isSome ↔ ∃ tx ∈ txs, tx.id = some d := by
  rw [Option.isSome_iff_exists]
  simp only [lookup_setupIdsOf hids]
  constructor
  · rintro ⟨i, tx, htx, hid⟩
    exact ⟨tx, List.mem_of_getElem? htx, hid⟩
  · rintro ⟨tx, htx, hid⟩
    obtain ⟨i, hi⟩ := List.mem_iff_getElem?.1 htx
    exact ⟨i, tx, hi, hid⟩

/-- What the loop leaves of the graph of a batch. -/
theorem setupDrain_spec {txs : List GeneratedTx} (hids : ValidIds txs) {g : SetupGraph}
    (hg : setupGraph (setupIdsOf txs) 0 []
      ⟨List.replicate txs.length [], List.replicate txs.length 0⟩ txs = .ok g) :
    ∃ ready, Draining (setupDepGraph txs) ready (setupDrain txs.length g).2
        (setupDrain txs.length g).1 ∧
      (ready = [] ∨ (setupDrain txs.length g).1.length = txs.length) := by
  obtain ⟨previous, hbuilt⟩ := setupGraph_built hids (SetupGraph.Built.empty txs) rfl hg
  have hsucc : ∀ u v, v ∈ g.successors.getD u [] ↔ (setupDepGraph txs).Edge u v := by
    intro u v
    rw [hbuilt.mem_successors, setupDepGraph_edge hids]
    exact and_iff_right_of_imp fun hpred => (hpred.lt hids).2
  simpa [setupDrain] using @drainReady_spec _ _ hbuilt.nodup hsucc txs.length _ _ _ hbuilt.draining

/-- What acceptance means, in terms of the graph. -/
theorem setupSubmissionOrder_eq_ok {txs : List GeneratedTx} {order : List ℕ} :
    setupSubmissionOrder txs = .ok order ↔ ValidIds txs ∧ ∃ g,
      setupGraph (setupIdsOf txs) 0 []
        ⟨List.replicate txs.length [], List.replicate txs.length 0⟩ txs = .ok g ∧
      (setupDrain txs.length g).1.length = txs.length ∧ order = (setupDrain txs.length g).1 := by
  rw [setupSubmissionOrder]
  cases hids : setupIds 0 [] txs with
  | error e =>
      refine iff_of_false (by simp) ?_
      rintro ⟨hvalid, -⟩
      rw [(setupIds_eq_setupIdsOf txs _).2 ⟨hvalid, rfl⟩] at hids
      cases hids
  | ok ids =>
      obtain ⟨hvalid, rfl⟩ := (setupIds_eq_setupIdsOf txs ids).1 hids
      rw [and_iff_right hvalid]
      dsimp only
      cases setupGraph (setupIdsOf txs) 0 []
        ⟨List.replicate txs.length [], List.replicate txs.length 0⟩ txs with
      | error e => simp
      | ok g =>
          simp only [Except.ok.injEq, exists_eq_left']
          change (if (setupDrain txs.length g).1.length ≠ txs.length then Except.error _
            else Except.ok (setupDrain txs.length g).1) = Except.ok order ↔ _
          split
          · rename_i hlen
            exact iff_of_false (by simp) fun h => hlen h.1
          · rename_i hlen
            rw [not_not] at hlen
            simp [hlen, eq_comm]

/-- **The order is exact.** A batch is accepted if and only if its ids are valid and unique, its
    dependencies name transactions of the batch and its edges have no cycle; and then every transaction
    is listed once, after all that must be submitted before it. -/
theorem setupSubmissionOrder_exact (txs : List GeneratedTx) :
    ((∃ order, setupSubmissionOrder txs = .ok order) ↔
      ValidIds txs ∧ (∀ tx ∈ txs, ∀ d ∈ tx.dependsOn, ∃ tx' ∈ txs, tx'.id = some d) ∧
        ∀ i, ¬ Relation.TransGen (SetupEdge txs) i i) ∧
    ∀ order, setupSubmissionOrder txs = .ok order → order.Perm (List.range txs.length) ∧
      ∀ i j, SetupEdge txs i j → order.idxOf i < order.idxOf j := by
  have horder : ∀ order, setupSubmissionOrder txs = .ok order →
      order.Perm (List.range txs.length) ∧
        ∀ i j, SetupEdge txs i j → order.idxOf i < order.idxOf j := by
    intro order h
    obtain ⟨hids, g, hg, hlen, rfl⟩ := setupSubmissionOrder_eq_ok.1 h
    obtain ⟨ready, hdrain, -⟩ := setupDrain_spec hids hg
    exact ⟨hdrain.perm hlen, fun i j hij => hdrain.idxOf_lt hlen (hij.precedes hids)⟩
  refine ⟨⟨?_, ?_⟩, horder⟩
  · rintro ⟨order, h⟩
    obtain ⟨hids, g, hg, -⟩ := setupSubmissionOrder_eq_ok.1 h
    refine ⟨hids, fun tx htx d hd => ?_, fun i hi => ?_⟩
    · exact (lookup_setupIdsOf_isSome hids d).1 (setupGraph_known hg tx htx d hd)
    · have hlt : ∀ {a b : ℕ}, Relation.TransGen (SetupEdge txs) a b →
          order.idxOf a < order.idxOf b := by
        intro a b hab
        induction hab with
        | single hab => exact (horder order h).2 _ _ hab
        | tail _ hbc ih => exact ih.trans ((horder order h).2 _ _ hbc)
      exact (hlt hi).false
  · rintro ⟨hids, hknown, hcycle⟩
    obtain ⟨g, hg⟩ := @setupGraph_of_known (setupIdsOf txs) txs
      (fun tx htx d hd => (lookup_setupIdsOf_isSome hids d).2 (hknown tx htx d hd)) 0 []
      ⟨List.replicate txs.length [], List.replicate txs.length 0⟩
    obtain ⟨ready, hdrain, hend⟩ := setupDrain_spec hids hg
    refine ⟨_, setupSubmissionOrder_eq_ok.2 ⟨hids, g, hg, ?_, rfl⟩⟩
    rcases hend with rfl | hlen
    · -- nothing is ready any more: without a cycle, nothing is left
      have hacyclic : (setupDepGraph txs).Acyclic := DepGraph.acyclic_of_irrefl fun v hv =>
        hcycle v (hv.lift id fun _ _ hab => ((setupDepGraph_edge hids).1 hab).edge hids)
      have hall := hdrain.progress.all_done rfl hacyclic
      refine le_antisymm ?_ ?_
      · have hle := (List.subperm_of_subset hdrain.nodup_order hdrain.sub).length_le
        rwa [List.length_range] at hle
      · have hsub : List.range txs.length ⊆ (setupDrain txs.length g).1 := fun v hv =>
          List.mem_toFinset.1 (hall v (List.mem_range.1 hv))
        simpa using (List.subperm_of_subset List.nodup_range hsub).length_le
    · exact hlen

/-- A dependency may point forward, but not against the order on a key. -/
example : setupSubmissionOrder
    [⟨["c"], .setup, some "a", none, none, [⟨1⟩], []⟩, ⟨[], .setup, some "b", none, none, [⟨1⟩], []⟩,
      ⟨[], .setup, some "c", none, none, [⟨2⟩], []⟩] = .ok [2, 0, 1] := by decide +kernel

end TxGen
