import Mathlib

set_option autoImplicit false

/-! # Dependency graphs worked off with counters

A vertex may be taken once all its dependencies are done. Schedulers and topological sorts keep, for
each vertex, the number of dependencies that are not done, and the set of the vertices that are ready:
`release` is what they do when a vertex is done, and `Progress` says that counters and ready set are
right. `explore` is the other way to walk such a graph: a stack of names, each expanded once. -/

universe u

/-- Vertices below `size`, each with the vertices it depends on. -/
structure DepGraph where
  size : ℕ
  deps : ℕ → List ℕ
  nodup : ∀ v, (deps v).Nodup
  deps_lt : ∀ v, ∀ u ∈ deps v, u < size

namespace DepGraph

/-- The least element is taken out. -/
def popFirst (s : Finset ℕ) : Option (ℕ × Finset ℕ) :=
  if h : s.Nonempty then some (s.min' h, s.erase (s.min' h)) else none

theorem popFirst_none {s : Finset ℕ} (h : popFirst s = none) : s = ∅ := by
  unfold popFirst at h
  split at h
  · cases h
  · rename_i hne
    exact Finset.not_nonempty_iff_eq_empty.1 hne

theorem popFirst_some {s rest : Finset ℕ} {v : ℕ} (h : popFirst s = some (v, rest)) :
    v ∈ s ∧ rest = s.erase v := by
  unfold popFirst at h
  split at h
  · rename_i hne
    obtain ⟨rfl, rfl⟩ := Prod.mk.inj (Option.some.inj h)
    exact ⟨s.min'_mem hne, rfl⟩
  · cases h

/-- A dependency of each of `dependents` is done. -/
def release : List ℕ → (ℕ → ℕ) → Finset ℕ → (ℕ → ℕ) × Finset ℕ
  | [], remaining, ready => (remaining, ready)
  | v :: dependents, remaining, ready =>
    let remaining := Function.update remaining v (remaining v - 1)
    release dependents remaining (if remaining v = 0 then insert v ready else ready)

theorem release_spec {dependents : List ℕ} (h : dependents.Nodup) (remaining : ℕ → ℕ)
    (ready : Finset ℕ) :
    (∀ v, (release dependents remaining ready).1 v =
      if v ∈ dependents then remaining v - 1 else remaining v) ∧
    ∀ v, v ∈ (release dependents remaining ready).2 ↔
      v ∈ ready ∨ v ∈ dependents ∧ remaining v - 1 = 0 := by
  induction dependents generalizing remaining ready with
  | nil => simp [release]
  | cons u dependents ih =>
      obtain ⟨hu, hnodup⟩ := List.nodup_cons.1 h
      obtain ⟨hrem, hready⟩ := ih hnodup (Function.update remaining u (remaining u - 1))
        (if Function.update remaining u (remaining u - 1) u = 0 then insert u ready else ready)
      refine ⟨fun v => ?_, fun v => ?_⟩
      · show (release dependents _ _).1 v = _
        rw [hrem]
        by_cases hv : v = u
        · subst hv
          simp [hu]
        · simp [hv]
      · show v ∈ (release dependents _ _).2 ↔ _
        rw [hready, Function.update_self]
        by_cases hv : v = u
        · subst hv
          by_cases hzero : remaining v - 1 = 0 <;> simp [hzero, hu]
        · by_cases hzero : remaining u - 1 = 0 <;> simp [hzero, hv]

variable (g : DepGraph)

/-- `u` is a dependency of `v`. -/
def Edge (u v : ℕ) : Prop := v < g.size ∧ u ∈ g.deps v

/-- `u` comes before `v`. -/
def Precedes : ℕ → ℕ → Prop := Relation.TransGen g.Edge

/-- No vertex comes before itself, in the form that is used: dependencies have a lower rank. -/
def Acyclic : Prop := ∃ rank : ℕ → ℕ, ∀ {u v : ℕ}, g.Edge u v → rank u < rank v

variable {g}

theorem Acyclic.irrefl (h : g.Acyclic) (v : ℕ) : ¬ g.Precedes v v := by
  obtain ⟨rank, hrank⟩ := h
  have hlt : ∀ {a b : ℕ}, g.Precedes a b → rank a < rank b := by
    intro a b hab
    induction hab with
    | single hab => exact hrank hab
    | tail _ hbc ih => exact ih.trans (hrank hbc)
  exact fun hv => (hlt hv).false

open Classical in
/-- A graph in which no vertex comes before itself has ranks: count the vertices that come before. -/
theorem acyclic_of_irrefl (h : ∀ v, ¬ g.Precedes v v) : g.Acyclic := by
  refine ⟨fun v => ((Finset.range g.size).filter fun u => g.Precedes u v).card,
    fun {u v} huv => Finset.card_lt_card (Finset.ssubset_iff_subset_ne.2 ⟨fun w hw => ?_, ?_⟩)⟩
  · rw [Finset.mem_filter] at hw ⊢
    exact ⟨hw.1, hw.2.tail huv⟩
  · intro heq
    have hu : u ∈ (Finset.range g.size).filter fun w => g.Precedes w v :=
      Finset.mem_filter.2 ⟨Finset.mem_range.2 (g.deps_lt v u huv.2), .single huv⟩
    rw [← heq, Finset.mem_filter] at hu
    exact h u hu.2

/-- `taken` vertices have been started, `done` ones have finished; the counters are right. -/
structure Progress (g : DepGraph) (taken done : Finset ℕ) (remaining : ℕ → ℕ) (ready : Finset ℕ) :
    Prop where
  taken_lt : ∀ v ∈ taken, v < g.size
  done_taken : done ⊆ taken
  remaining_eq : ∀ v < g.size, remaining v = ((g.deps v).filter (· ∉ done)).length
  ready_iff : ∀ v, v ∈ ready ↔ v < g.size ∧ v ∉ taken ∧ remaining v = 0
  /-- Nobody is taken too early. -/
  closed : ∀ v ∈ taken, ∀ u ∈ g.deps v, u ∈ done

namespace Progress

variable {taken done ready : Finset ℕ} {remaining : ℕ → ℕ}

theorem init {remaining : ℕ → ℕ} {ready : Finset ℕ}
    (hremaining : ∀ v < g.size, remaining v = (g.deps v).length)
    (hready : ∀ v, v ∈ ready ↔ v < g.size ∧ remaining v = 0) :
    g.Progress ∅ ∅ remaining ready := by
  refine ⟨by simp, by simp, fun v hv => ?_, by simpa using hready, by simp⟩
  rw [hremaining v hv]
  simp

/-- A vertex is ready when its dependencies are done. -/
theorem ready_done (h : g.Progress taken done remaining ready) {v : ℕ} (hv : v ∈ ready) :
    ∀ u ∈ g.deps v, u ∈ done := by
  obtain ⟨hlt, -, hzero⟩ := (h.ready_iff v).1 hv
  rw [h.remaining_eq v hlt, List.length_eq_zero_iff, List.filter_eq_nil_iff] at hzero
  intro u hu
  simpa using hzero u hu

theorem take (h : g.Progress taken done remaining ready) {v : ℕ} (hv : v ∈ ready) :
    g.Progress (insert v taken) done remaining (ready.erase v) := by
  obtain ⟨hlt, hnot, -⟩ := (h.ready_iff v).1 hv
  refine ⟨fun u hu => ?_, h.done_taken.trans (Finset.subset_insert _ _), h.remaining_eq,
    fun u => ?_, fun u hu => ?_⟩
  · rcases Finset.mem_insert.1 hu with rfl | hu
    · exact hlt
    · exact h.taken_lt u hu
  · rw [Finset.mem_erase, h.ready_iff, Finset.mem_insert]
    tauto
  · rcases Finset.mem_insert.1 hu with rfl | hu
    · exact h.ready_done hv
    · exact h.closed u hu

/-- A started vertex is done: its dependents are released. -/
theorem complete (h : g.Progress taken done remaining ready) {u : ℕ} {dependents : List ℕ}
    (hu : u ∈ taken) (hnot : u ∉ done) (hnodup : dependents.Nodup)
    (hdependents : ∀ v, v ∈ dependents ↔ g.Edge u v) :
    g.Progress taken (insert u done) (release dependents remaining ready).1
      (release dependents remaining ready).2 := by
  obtain ⟨hrem, hready⟩ := release_spec hnodup remaining ready
  have hcount : ∀ v < g.size, ((g.deps v).filter (· ∉ insert u done)).length =
      (release dependents remaining ready).1 v := by
    intro v hv
    have hfilter : (g.deps v).filter (· ∉ insert u done) =
        ((g.deps v).filter (· ∉ done)).filter (· ≠ u) := by
      rw [List.filter_filter]
      refine List.filter_congr fun w _ => ?_
      simp [Finset.mem_insert, not_or]
    have herase : ((g.deps v).filter (· ∉ done)).filter (· ≠ u) =
        ((g.deps v).filter (· ∉ done)).erase u := by
      rw [((g.nodup v).filter _).erase_eq_filter u]
      exact List.filter_congr fun w _ => by by_cases hw : w = u <;> simp [hw]
    rw [hfilter, herase, hrem, h.remaining_eq v hv]
    by_cases hin : v ∈ dependents
    · have hmem : u ∈ (g.deps v).filter (· ∉ done) := by
        simpa [hnot] using ((hdependents v).1 hin).2
      rw [if_pos hin, List.length_erase_of_mem hmem]
    · have hmem : u ∉ (g.deps v).filter (· ∉ done) := fun hmem =>
        hin ((hdependents v).2 ⟨hv, (List.mem_filter.1 hmem).1⟩)
      rw [if_neg hin, List.erase_of_not_mem hmem]
  refine ⟨h.taken_lt, fun v hv => ?_, fun v hv => (hcount v hv).symm, fun v => ?_,
    fun v hv w hw => Finset.mem_insert_of_mem (h.closed v hv w hw)⟩
  · rcases Finset.mem_insert.1 hv with rfl | hv
    · exact hu
    · exact h.done_taken hv
  · rw [hready, h.ready_iff, hrem]
    by_cases hin : v ∈ dependents
    · obtain ⟨hlt, hdep⟩ := (hdependents v).1 hin
      have hfresh : v ∉ taken := fun ht => hnot (h.closed v ht u hdep)
      rw [if_pos hin]
      constructor
      · rintro (⟨-, -, hzero⟩ | ⟨-, hzero⟩)
        · exact ⟨hlt, hfresh, by omega⟩
        · exact ⟨hlt, hfresh, hzero⟩
      · rintro ⟨-, -, hzero⟩
        exact Or.inr ⟨hin, hzero⟩
    · simp [hin]

/-- With nothing ready and nothing running, everything is done. -/
theorem all_done (h : g.Progress taken done remaining ∅) (hsame : taken = done)
    (hacyclic : g.Acyclic) : ∀ v < g.size, v ∈ done := by
  obtain ⟨rank, hrank⟩ := hacyclic
  intro v
  induction hn : rank v using Nat.strong_induction_on generalizing v with
  | _ n ih =>
      intro hv
      by_contra hnot
      have hzero : remaining v = 0 := by
        rw [h.remaining_eq v hv, List.length_eq_zero_iff, List.filter_eq_nil_iff]
        intro u hu
        have := ih (rank u) (hn ▸ hrank ⟨hv, hu⟩) u rfl (g.deps_lt v u hu)
        simpa using this
      have := (h.ready_iff v).2 ⟨hv, hsame ▸ hnot, hzero⟩
      simp at this

end Progress

/-! ## Ancestors -/

/-- What a topological sort knows: the ranks of the vertices that are done, and for each vertex the
    ancestors it has through them. -/
structure Sorted (g : DepGraph) (done : Finset ℕ) (ancestors : ℕ → Finset ℕ) : Prop where
  closed : ∀ v ∈ done, ∀ u ∈ g.deps v, u ∈ done
  ranked : ∃ rank : ℕ → ℕ, (∀ v ∈ done, rank v < done.card) ∧
    ∀ v ∈ done, ∀ u ∈ g.deps v, rank u < rank v
  mem_ancestors : ∀ v < g.size, ∀ w, w ∈ ancestors v ↔
    ∃ u ∈ g.deps v, u ∈ done ∧ Relation.ReflTransGen g.Edge w u

theorem Sorted.init (g : DepGraph) : g.Sorted ∅ fun _ => ∅ :=
  ⟨by simp, ⟨fun _ => 0, by simp, by simp⟩, by simp⟩

/-- The ancestors of a vertex whose dependencies are done are complete. -/
theorem Sorted.ancestors_iff {done : Finset ℕ} {ancestors : ℕ → Finset ℕ}
    (h : g.Sorted done ancestors) {v : ℕ} (hv : v < g.size) (hdone : ∀ u ∈ g.deps v, u ∈ done)
    (w : ℕ) : w ∈ ancestors v ↔ g.Precedes w v := by
  rw [h.mem_ancestors v hv]
  constructor
  · rintro ⟨u, hu, -, hwu⟩
    exact Relation.TransGen.tail' hwu ⟨hv, hu⟩
  · intro hwv
    obtain ⟨u, hwu, -, hu⟩ := Relation.TransGen.tail'_iff.1 hwv
    exact ⟨u, hu, hdone u hu, hwu⟩

/-- A vertex is done; its dependents inherit its ancestors. -/
theorem Sorted.complete {done : Finset ℕ} {ancestors ancestors' : ℕ → Finset ℕ}
    (h : g.Sorted done ancestors) {u : ℕ} (hu : u < g.size) (hnot : u ∉ done)
    (hdone : ∀ x ∈ g.deps u, x ∈ done)
    (hold : ∀ v, ¬ g.Edge u v → ancestors' v = ancestors v)
    (hnew : ∀ v, g.Edge u v → ancestors' v = insert u (ancestors v) ∪ ancestors u) :
    g.Sorted (insert u done) ancestors' := by
  have hne : ∀ {x : ℕ}, x ∈ done → x ≠ u := fun hx heq => hnot (heq ▸ hx)
  refine ⟨fun v hv x hx => ?_, ?_, fun v hv w => ?_⟩
  · rcases Finset.mem_insert.1 hv with rfl | hv
    · exact Finset.mem_insert_of_mem (hdone x hx)
    · exact Finset.mem_insert_of_mem (h.closed v hv x hx)
  · obtain ⟨rank, hlt, hrank⟩ := h.ranked
    refine ⟨Function.update rank u done.card, fun v hv => ?_, fun v hv x hx => ?_⟩
    · rw [Finset.card_insert_of_notMem hnot]
      rcases Finset.mem_insert.1 hv with rfl | hv
      · simp
      · rw [Function.update_of_ne (hne hv)]
        exact Nat.lt_succ_of_lt (hlt v hv)
    · rcases Finset.mem_insert.1 hv with rfl | hv
      · have hx' := hdone x hx
        rw [Function.update_self, Function.update_of_ne (hne hx')]
        exact hlt x hx'
      · rw [Function.update_of_ne (hne hv), Function.update_of_ne (hne (h.closed v hv x hx))]
        exact hrank v hv x hx
  · by_cases huv : g.Edge u v
    · rw [hnew v huv, Finset.mem_union, Finset.mem_insert, h.mem_ancestors v hv,
        h.ancestors_iff hu hdone]
      constructor
      · rintro ((rfl | ⟨x, hx, hxdone, hwx⟩) | hwu)
        · exact ⟨w, huv.2, Finset.mem_insert_self _ _, .refl⟩
        · exact ⟨x, hx, Finset.mem_insert_of_mem hxdone, hwx⟩
        · exact ⟨u, huv.2, Finset.mem_insert_self _ _, hwu.to_reflTransGen⟩
      · rintro ⟨x, hx, hxdone, hwx⟩
        rcases Finset.mem_insert.1 hxdone with rfl | hxdone
        · rcases Relation.reflTransGen_iff_eq_or_transGen.1 hwx with rfl | hwx
          · exact Or.inl (Or.inl rfl)
          · exact Or.inr hwx
        · exact Or.inl (Or.inr ⟨x, hx, hxdone, hwx⟩)
    · rw [hold v huv, h.mem_ancestors v hv]
      refine exists_congr fun x => and_congr_right fun hx => and_congr_left fun _ => ?_
      rw [Finset.mem_insert, or_iff_right]
      rintro rfl
      exact huv ⟨hv, hx⟩

/-- When everything is done, the graph is acyclic and the ancestors are those of the graph. -/
theorem Sorted.finished {done : Finset ℕ} {ancestors : ℕ → Finset ℕ}
    (h : g.Sorted done ancestors) (hall : ∀ v < g.size, v ∈ done) :
    g.Acyclic ∧ ∀ v < g.size, ∀ w, w ∈ ancestors v ↔ g.Precedes w v := by
  refine ⟨?_, fun v hv w => h.ancestors_iff hv (h.closed v (hall v hv)) w⟩
  obtain ⟨rank, -, hrank⟩ := h.ranked
  exact ⟨rank, fun {u v} huv => hrank v (hall v huv.1) u huv.2⟩

/-! ## Walking the graph by names -/

section Explore

variable {α : Type u} [DecidableEq α] (next : α → List α)

/-- A stack of names; each is expanded once. The fuel bounds the number of pops. -/
def explore : ℕ → Finset α → List α → Option (Finset α)
  | _, seen, [] => some seen
  | 0, _, _ :: _ => none
  | fuel + 1, seen, a :: pending =>
    if a ∈ seen then explore fuel seen pending
    else explore fuel (insert a seen) ((next a).reverse ++ pending)

variable {next}

omit [DecidableEq α] in
/-- A name that is reached is one of those that were seen, or reached from one that is pending. -/
theorem reached_from_pending {seen : Finset α} {pending : List α}
    (hclosed : ∀ a ∈ seen, ∀ b ∈ next a, b ∈ seen ∨ b ∈ pending) {a b : α} (ha : a ∈ seen)
    (hab : Relation.ReflTransGen (fun x y => y ∈ next x) a b) :
    b ∈ seen ∨ ∃ x ∈ pending, Relation.ReflTransGen (fun x y => y ∈ next x) x b := by
  induction hab using Relation.ReflTransGen.head_induction_on with
  | refl => exact Or.inl ha
  | head hstep hrest ih =>
      rcases hclosed _ ha _ hstep with hseen | hpending
      · exact ih hseen
      · exact Or.inr ⟨_, hpending, hrest⟩

/-- The names that were seen are exactly those that can be reached. -/
theorem explore_spec {fuel : ℕ} {seen result : Finset α} {pending : List α}
    (h : explore next fuel seen pending = some result)
    (hclosed : ∀ a ∈ seen, ∀ b ∈ next a, b ∈ seen ∨ b ∈ pending) (b : α) :
    b ∈ result ↔ b ∈ seen ∨ ∃ a ∈ pending, Relation.ReflTransGen (fun x y => y ∈ next x) a b := by
  induction fuel, seen, pending using explore.induct next with
  | case1 fuel seen =>
      rw [explore.eq_def] at h
      simp at h
      simp [h]
  | case2 seen a pending => cases h
  | case3 fuel seen a pending hmem ih =>
      rw [explore, if_pos hmem] at h
      have hclosed' : ∀ x ∈ seen, ∀ y ∈ next x, y ∈ seen ∨ y ∈ pending := by
        intro x hx y hy
        rcases hclosed x hx y hy with hseen | hpending
        · exact Or.inl hseen
        · rcases List.mem_cons.1 hpending with rfl | hpending
          · exact Or.inl hmem
          · exact Or.inr hpending
      rw [ih h hclosed']
      refine ⟨fun hb => hb.imp_right fun ⟨x, hx, hxb⟩ => ⟨x, List.mem_cons_of_mem _ hx, hxb⟩, ?_⟩
      rintro (hb | ⟨x, hx, hxb⟩)
      · exact Or.inl hb
      · rcases List.mem_cons.1 hx with rfl | hx
        · exact reached_from_pending hclosed' hmem hxb
        · exact Or.inr ⟨x, hx, hxb⟩
  | case4 fuel seen a pending hmem ih =>
      rw [explore, if_neg hmem] at h
      have hclosed' : ∀ x ∈ insert a seen, ∀ y ∈ next x,
          y ∈ insert a seen ∨ y ∈ (next a).reverse ++ pending := by
        intro x hx y hy
        rcases Finset.mem_insert.1 hx with rfl | hx
        · exact Or.inr (List.mem_append_left _ (List.mem_reverse.2 hy))
        · rcases hclosed x hx y hy with hseen | hpending
          · exact Or.inl (Finset.mem_insert_of_mem hseen)
          · rcases List.mem_cons.1 hpending with rfl | hpending
            · exact Or.inl (Finset.mem_insert_self _ _)
            · exact Or.inr (List.mem_append_right _ hpending)
      rw [ih h hclosed']
      constructor
      · rintro (hb | ⟨x, hx, hxb⟩)
        · rcases Finset.mem_insert.1 hb with rfl | hb
          · exact Or.inr ⟨b, List.mem_cons_self, .refl⟩
          · exact Or.inl hb
        · rcases List.mem_append.1 hx with hx | hx
          · exact Or.inr ⟨a, List.mem_cons_self, .head (List.mem_reverse.1 hx) hxb⟩
          · exact Or.inr ⟨x, List.mem_cons_of_mem _ hx, hxb⟩
      · rintro (hb | ⟨x, hx, hxb⟩)
        · exact Or.inl (Finset.mem_insert_of_mem hb)
        · rcases List.mem_cons.1 hx with rfl | hx
          · exact reached_from_pending hclosed' (Finset.mem_insert_self _ _) hxb
          · exact Or.inr ⟨x, List.mem_append_right _ hx, hxb⟩

/-- Each pop uses up a pending name; expanding a name pays for the names it adds. -/
theorem explore_isSome {names : Finset α} (hnext : ∀ a ∈ names, ∀ b ∈ next a, b ∈ names) :
    ∀ {fuel : ℕ} {seen : Finset α} {pending : List α}, (∀ a ∈ pending, a ∈ names) →
      pending.length + ∑ a ∈ names \ seen, (next a).length ≤ fuel →
      (explore next fuel seen pending).isSome := by
  intro fuel seen pending hpending hfuel
  induction fuel, seen, pending using explore.induct next with
  | case1 fuel seen => rw [explore.eq_def]; rfl
  | case2 seen a pending => simp at hfuel
  | case3 fuel seen a pending hmem ih =>
      rw [explore, if_pos hmem]
      refine ih (fun x hx => hpending x (List.mem_cons_of_mem _ hx)) ?_
      rw [List.length_cons] at hfuel
      omega
  | case4 fuel seen a pending hmem ih =>
      rw [explore, if_neg hmem]
      have ha := hpending a List.mem_cons_self
      refine ih (fun x hx => ?_) ?_
      · rcases List.mem_append.1 hx with hx | hx
        · exact hnext a ha x (List.mem_reverse.1 hx)
        · exact hpending x (List.mem_cons_of_mem _ hx)
      · have hsplit : ∑ x ∈ names \ seen, (next x).length =
            (next a).length + ∑ x ∈ names \ insert a seen, (next x).length := by
          rw [Finset.sdiff_insert]
          exact (Finset.add_sum_erase _ (fun x => (next x).length)
            (Finset.mem_sdiff.2 ⟨ha, hmem⟩)).symm
        rw [List.length_cons] at hfuel
        rw [List.length_append, List.length_reverse]
        omega

end Explore

end DepGraph
