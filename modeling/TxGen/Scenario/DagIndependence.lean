import TxGen.Scenario.DagContexts

set_option autoImplicit false

/-! # Independence of the order of completions

Two runs of one DAG in which the steps succeed with the same values give every step the same ancestors'
saves, and whatever else has completed. What the step resolves is the same if it looks at nothing but the
former, as the validator makes sure for the references of its expressions. -/

namespace TxGen

open RuntimeContext

namespace ScenarioDef

/-- Steps neither of which waits for the other. -/
def Concurrent (sc : ScenarioDef) (i j : ℕ) : Prop := i ≠ j ∧ ¬ sc.Precedes i j ∧ ¬ sc.Precedes j i

/-- Where the arguments of an `invoke` are themselves a reference, nothing below its path is saved by a step
that may run at the same time. -/
def WholeReferencesSettled (sc : ScenarioDef) : Prop :=
  ∀ {i j : ℕ} {step other : StepDef} {path save : String}, sc.steps[j]? = some step →
    step.wholeReference = some path → sc.steps[i]? = some other → other.save = some save →
    sc.Concurrent i j → startsWith save (path ++ ".") = false

/-- The steps that succeeded did so with these values. -/
def WithValues (sc : ScenarioDef) (values : ℕ → RuntimeValue) (succeeded : List (ℕ × StepAnswer)) : Prop :=
  ∀ x ∈ succeeded, ∀ step, sc.steps[x.1]? = some step → x.2.value step.action.chain = values x.1

variable {sc : ScenarioDef} {values : ℕ → RuntimeValue} {xs ys : List (ℕ × StepAnswer)}

/-- What a step saves with its value. -/
def savedAs (sc : ScenarioDef) (values : ℕ → RuntimeValue) (i : ℕ) : Option SavedValue :=
  (sc.steps[i]?.bind StepDef.save).map fun save => (save, values i)

theorem WithValues.savedValues_eq (h : sc.WithValues values xs) :
    sc.savedValues xs = (xs.map Prod.fst).filterMap (sc.savedAs values) := by
  rw [savedValues, List.filterMap_map]
  refine List.filterMap_congr fun x hx => ?_
  rw [Function.comp_apply, savedValue, savedAs]
  cases hstep : sc.steps[x.1]? with
  | none => rfl
  | some step => cases hsave : step.save <;> simp [hsave, h x hx step hstep]

/-- The same steps have the same saves, in some order. -/
theorem WithValues.perm (hx : sc.WithValues values xs) (hy : sc.WithValues values ys)
    (hperm : (xs.map Prod.fst).Perm (ys.map Prod.fst)) :
    (sc.savedValues xs).Perm (sc.savedValues ys) := by
  rw [hx.savedValues_eq, hy.savedValues_eq]
  exact hperm.filterMap _

theorem WithValues.subset (h : sc.WithValues values ys) (hsub : ∀ x ∈ xs, x ∈ ys) :
    sc.WithValues values xs :=
  fun x hx => h x (hsub x hx)

/-- A save tells its step, so that a value is saved in both or apart from all the saves of the other. -/
theorem WithValues.mem_or_apart (hx : sc.WithValues values xs) (hy : sc.WithValues values ys)
    (hnames : sc.NamesApart) {e f : SavedValue} (he : e ∈ sc.savedValues xs) (hf : f ∈ sc.savedValues ys) :
    e = f ∨ Apart (components e.1) (components f.1) := by
  rw [hx.savedValues_eq] at he
  rw [hy.savedValues_eq] at hf
  obtain ⟨i, -, hi⟩ := List.mem_filterMap.1 he
  obtain ⟨j, -, hj⟩ := List.mem_filterMap.1 hf
  by_cases hij : i = j
  · subst hij
    exact Or.inl (Option.some.inj (hi.symm.trans hj))
  · obtain ⟨p, hp, rfl⟩ := Option.map_eq_some_iff.1 hi
    obtain ⟨q, hq, rfl⟩ := Option.map_eq_some_iff.1 hj
    obtain ⟨a, ha, hap⟩ := Option.bind_eq_some_iff.1 hp
    obtain ⟨b, hb, hbq⟩ := Option.bind_eq_some_iff.1 hq
    exact Or.inr (hnames.saves ha hb hij hap hbq)

end ScenarioDef

namespace RuntimeContext

variable {ctx : RuntimeContext} {held : List SavedValue} {path : String} {value : RuntimeValue}

/-- Walking over objects is finding. -/
theorem find_of_walk {parts : List String} {root : String} {m : List (String × RuntimeValue)}
    {v : RuntimeValue} (hroot : OrdMap.get? root m = some v) (hwalk : v.walk path parts = .ok value) :
    RuntimeValue.nested.find (root :: parts) m = some value ∨
      ∃ q w, q <+: root :: parts ∧ RuntimeValue.nested.find q m = some w ∧
        RuntimeValue.nested.fields w = none := by
  induction parts generalizing root m v with
  | nil =>
      obtain rfl := Except.ok.inj hwalk
      exact Or.inl hroot
  | cons part parts ih =>
      cases hfields : RuntimeValue.nested.fields v with
      | none => exact Or.inr ⟨[root], v, by simp, hroot, hfields⟩
      | some fields =>
          obtain ⟨values, rfl⟩ := RuntimeValue.fields_isSome.1 (by rw [hfields]; rfl)
          obtain rfl := Option.some.inj hfields
          rw [RuntimeValue.walk] at hwalk
          split at hwalk
          · rename_i w hw
            have hdown : ∀ q, q ≠ [] → RuntimeValue.nested.find (root :: q) m =
                RuntimeValue.nested.find q values := by
              intro q hq
              obtain ⟨k, q, rfl⟩ := List.exists_cons_of_ne_nil hq
              rw [Nested.find, hroot]
              rfl
            rcases ih hw hwalk with hfind | ⟨q, u, hq, hu, hleaf⟩
            · exact Or.inl (by rw [hdown _ (List.cons_ne_nil _ _), hfind])
            · have hne : q ≠ [] := by
                rintro rfl
                cases hu
              exact Or.inr ⟨root :: q, u, List.cons_prefix_cons.2 ⟨rfl, hq⟩, by rw [hdown q hne, hu],
                hleaf⟩
          · exact absurd hwalk bail_ne_ok

/-- What resolves is at or below a value that was saved, or it is a namespace of such values. -/
theorem Holds.of_get (h : Holds ctx held) (hget : ctx.get path = .ok value) :
    (∃ e ∈ held, components e.1 <+: components path) ∨
      RuntimeValue.nested.find (components path) ctx.roots = some value ∧
        ∃ e ∈ held, components path <+: components e.1 := by
  obtain ⟨⟨⟩, -, hget⟩ := bind_eq_ok.1 hget
  obtain ⟨root, parts, hpath⟩ := List.exists_cons_of_ne_nil (components_ne_nil path)
  rw [hpath] at hget ⊢
  dsimp only at hget
  split at hget
  · exact absurd hget bail_ne_ok
  · rename_i v hroot
    rcases find_of_walk hroot hget with hfind | ⟨q, w, hq, hw, hleaf⟩
    · rcases h.complete _ _ hfind with habove | ⟨-, -, hbelow⟩
      · exact Or.inl habove
      · exact Or.inr ⟨hfind, hbelow⟩
    · rcases h.complete q w hw with ⟨e, he, habove⟩ | ⟨-, hmap, -⟩
      · exact Or.inl ⟨e, he, habove.trans hq⟩
      · rw [hleaf] at hmap
        cases hmap

end RuntimeContext

namespace DagRun

section

variable {τ ν : Type} {abi : Abi τ ν} {sc : ScenarioDef} {ids : StepIds} {h : sc.DagIds ids}
variable {ctx₀ ctx₁ ctx₂ : RuntimeContext} {draw : String → BindingDraw} {values : ℕ → RuntimeValue}
variable {done done₁ done₂ : List (ℕ × StepAnswer)} {index : ℕ}

/-- The part of a list of steps that is in a list of indices. -/
abbrev within (indices : List ℕ) (done : List (ℕ × StepAnswer)) : List (ℕ × StepAnswer) :=
  done.filter fun x => x.1 ∈ indices

abbrev beyond (indices : List ℕ) (done : List (ℕ × StepAnswer)) : List (ℕ × StepAnswer) :=
  done.filter fun x => x.1 ∉ indices

theorem perm_within_beyond (indices : List ℕ) (done : List (ℕ × StepAnswer)) :
    (within indices done ++ beyond indices done).Perm done := by
  have hnot : beyond indices done = done.filter fun x => !decide (x.1 ∈ indices) :=
    List.filter_congr fun x _ => by simp
  rw [hnot]
  exact List.filter_append_perm _ done

/-- The context of a step, with the saves of some of the steps before it taken first. -/
theorem Given.split (hnames : sc.NamesApart) (hbind : sc.bindInstance draw = .ok ctx₀)
    (hg : Given h ctx₀ done index ctx₁) (hnodup : (done.map Prod.fst).Nodup) (indices : List ℕ) :
    ∃ base, ctx₀.withPaths (sc.savedValues (within indices done)) = .ok base ∧
      base.withPaths (sc.savedValues (beyond indices done)) = .ok ctx₁ ∧
      Holds base (sc.bindRoots draw ++ sc.savedValues (within indices done)) ∧
      Holds ctx₁ (sc.bindRoots draw ++ sc.savedValues done) := by
  have hsplit := perm_within_beyond indices done
  have hapart := hnames.pathsApart draw hnodup
  have hsaves : PathsApart (sc.savedValues done) :=
    ⟨fun e he => hapart.1 e (List.mem_append_right _ he), (List.pairwise_append.1 hapart.2).2.1⟩
  have hperm := (withPaths_perm (hsplit.symm.filterMap sc.savedValue) hsaves).1 hg.context
  rw [List.filterMap_append] at hperm
  obtain ⟨base, hbase, hrest⟩ := withPaths_append.1 hperm
  have hwithin : ((within indices done).map Prod.fst).Nodup :=
    hnodup.sublist (List.filter_sublist.map _)
  obtain ⟨base', hbase', hholds⟩ := holds_savedValues hnames hbind hwithin
  obtain rfl := Except.ok.inj (hbase.symm.trans hbase')
  obtain ⟨ctx', hctx', hholds'⟩ := holds_savedValues hnames hbind hnodup
  obtain rfl := Except.ok.inj (hg.context.symm.trans hctx')
  exact ⟨base, hbase, hrest, hholds, hholds'⟩

/-- A value that is saved by an ancestor is there in both contexts. -/
theorem mem_savedValues_of_index (hv₁ : sc.WithValues values done₁) (hv₂ : sc.WithValues values done₂)
    {e : SavedValue} (he : e ∈ sc.savedValues done₁)
    (hsub : ∀ i ∈ done₁.map Prod.fst, ∀ step, sc.steps[i]? = some step → step.save = some e.1 →
      i ∈ done₂.map Prod.fst) : e ∈ sc.savedValues done₂ := by
  rw [hv₁.savedValues_eq] at he
  rw [hv₂.savedValues_eq]
  obtain ⟨i, hi, hsaved⟩ := List.mem_filterMap.1 he
  refine List.mem_filterMap.2 ⟨i, ?_, hsaved⟩
  obtain ⟨save, hsave, rfl⟩ := Option.map_eq_some_iff.1 hsaved
  obtain ⟨step, hstep, hpath⟩ := Option.bind_eq_some_iff.1 hsave
  exact hsub i hi step hstep hpath

/-- An accepted reference resolves alike: it is at or below a binding or the save of an ancestor. -/
theorem get_checked (hnames : sc.NamesApart) (hbind : sc.bindInstance draw = .ok ctx₀)
    (hg₁ : Given h ctx₀ done₁ index ctx₁) (hg₂ : Given h ctx₀ done₂ index ctx₂)
    (hn₁ : (done₁.map Prod.fst).Nodup) (hn₂ : (done₂.map Prod.fst).Nodup)
    (hv₁ : sc.WithValues values done₁) (hv₂ : sc.WithValues values done₂) {ancestors : List ℕ}
    (hancestors : ∀ i, i ∈ ancestors ↔ h.graph.Precedes i index) {path : String}
    (hpath : validateVariablePath path = .ok ()) {j : ℕ} {saves : List (String × ℕ)}
    {below : Option (List ℕ)}
    (hvalid : validateReference path j saves (sc.availableRoots ancestors) below = .ok ()) :
    ctx₁.get path = ctx₂.get path := by
  obtain ⟨root, kind, tail, hmatch⟩ := validateReference_ok hvalid
  obtain ⟨havailable, htail⟩ := longestPathMatch_mem hmatch
  have hbefore := prefix_of_pathTail htail
  obtain ⟨-, -, -, -, hholds₁⟩ := hg₁.split hnames hbind hn₁ []
  obtain ⟨-, -, -, -, hholds₂⟩ := hg₂.split hnames hbind hn₂ []
  rcases sc.mem_availableRoots havailable with ⟨binding, hbinding, -⟩ | ⟨i, hi, step, hstep, hsave, -⟩
  · obtain ⟨e, he, heq⟩ := ScenarioDef.exists_mem_bindRoots draw hbinding
    refine get_same hholds₁ hholds₂ (List.mem_append_left _ he) (List.mem_append_left _ he) hpath ?_
    rw [heq]
    exact hbefore
  · have hprecedes := (hancestors i).1 hi
    have hsaved : sc.savedAs values i = some (root, values i) := by
      simp [ScenarioDef.savedAs, hstep, hsave]
    have hmem : ∀ {done : List (ℕ × StepAnswer)}, sc.WithValues values done →
        i ∈ done.map Prod.fst → (root, values i) ∈ sc.savedValues done := by
      intro done hv hin
      rw [hv.savedValues_eq]
      exact List.mem_filterMap.2 ⟨i, hin, hsaved⟩
    exact get_same hholds₁ hholds₂ (List.mem_append_right _ (hmem hv₁ (hg₁.ancestors hprecedes)))
      (List.mem_append_right _ (hmem hv₂ (hg₂.ancestors hprecedes))) hpath hbefore

/-- With the same ancestors' saves, a save of one of the contexts that is in the other is in both. -/
theorem get_of_above (hnames : sc.NamesApart) (hv₁ : sc.WithValues values done₁)
    (hv₂ : sc.WithValues values done₂) (hholds₁ : Holds ctx₁ (sc.bindRoots draw ++ sc.savedValues done₁))
    (hholds₂ : Holds ctx₂ (sc.bindRoots draw ++ sc.savedValues done₂)) {path : String}
    (hpath : validateVariablePath path = .ok ()) {value₂ : RuntimeValue}
    (hget₂ : ctx₂.get path = .ok value₂) {e : SavedValue}
    (he : e ∈ sc.bindRoots draw ++ sc.savedValues done₁)
    (habove : components e.1 <+: components path) : ctx₁.get path = ctx₂.get path := by
  rcases List.mem_append.1 he with hroot | hsaved
  · exact get_same hholds₁ hholds₂ he (List.mem_append_left _ hroot) hpath habove
  · -- whatever makes the path resolve in the other context meets `e`, and so is `e`
    have hmeets : ∀ f ∈ sc.bindRoots draw ++ sc.savedValues done₂,
        ¬ Apart (components e.1) (components f.1) → f = e := by
      intro f hf hmeets
      rcases List.mem_append.1 hf with hf | hf
      · obtain ⟨x, hx, hsome⟩ := ScenarioDef.mem_savedValues.1 hsaved
        obtain ⟨step, hstep, hp, -⟩ := ScenarioDef.savedValue_eq_some.1 hsome
        obtain ⟨b, hb, hname⟩ := ScenarioDef.mem_bindRoots_names hf
        exact absurd (hname ▸ (hnames.save hstep hp).2 b hb) hmeets
      · exact ((hv₁.mem_or_apart hv₂ hnames hsaved hf).resolve_right hmeets).symm
    obtain ⟨f, hf, hfe⟩ : ∃ f ∈ sc.bindRoots draw ++ sc.savedValues done₂, f = e := by
      rcases hholds₂.of_get hget₂ with ⟨f, hf, hfabove⟩ | ⟨-, f, hf, hfbelow⟩
      · refine ⟨f, hf, hmeets f hf fun hapart => ?_⟩
        rcases List.prefix_or_prefix_of_prefix habove hfabove with hle | hle
        · exact hapart.1 hle
        · exact hapart.2 hle
      · exact ⟨f, hf, hmeets f hf fun hapart => hapart.1 (habove.trans hfbelow)⟩
    exact get_same hholds₁ hholds₂ he (hfe ▸ hf) hpath habove

/-- The reference that the arguments of a step are resolves alike in both contexts if it resolves at all and
nothing below it is saved by a step that is neither an ancestor nor a descendant. -/
theorem get_whole (hnames : sc.NamesApart) (hbind : sc.bindInstance draw = .ok ctx₀)
    (hdag : sc.execution = .dag) (hsettled : sc.WholeReferencesSettled)
    (hg₁ : Given h ctx₀ done₁ index ctx₁) (hg₂ : Given h ctx₀ done₂ index ctx₂)
    (hn₁ : (done₁.map Prod.fst).Nodup) (hn₂ : (done₂.map Prod.fst).Nodup)
    (hv₁ : sc.WithValues values done₁) (hv₂ : sc.WithValues values done₂) {ancestors : List ℕ}
    (hancestors : ∀ i, i ∈ ancestors ↔ h.graph.Precedes i index) {step : StepDef}
    (hstep : sc.steps[index]? = some step) {path : String} (hwhole : step.wholeReference = some path)
    {value₁ value₂ : RuntimeValue} (hget₁ : ctx₁.get path = .ok value₁)
    (hget₂ : ctx₂.get path = .ok value₂) : value₁ = value₂ := by
  obtain ⟨⟨⟩, hpath, -⟩ := bind_eq_ok.1 hget₁
  obtain ⟨base, hbase₁, hrest₁, hholds, hholds₁⟩ := hg₁.split hnames hbind hn₁ ancestors
  obtain ⟨base₂, hbase₂, hrest₂, -, hholds₂⟩ := hg₂.split hnames hbind hn₂ ancestors
  -- both runs have the same ancestors' saves
  have hsame : base₂ = base := by
    have hw₁ : sc.WithValues values (within ancestors done₁) :=
      hv₁.subset fun x hx => List.mem_of_mem_filter hx
    have hw₂ : sc.WithValues values (within ancestors done₂) :=
      hv₂.subset fun x hx => List.mem_of_mem_filter hx
    have hindices : ((within ancestors done₁).map Prod.fst).Perm
        ((within ancestors done₂).map Prod.fst) := by
      refine (List.perm_ext_iff_of_nodup (hn₁.sublist (List.filter_sublist.map _))
        (hn₂.sublist (List.filter_sublist.map _))).2 fun i => ?_
      have hmem : ∀ {done : List (ℕ × StepAnswer)} {ctx : RuntimeContext},
          Given h ctx₀ done index ctx → (i ∈ (within ancestors done).map Prod.fst ↔ i ∈ ancestors) := by
        intro done ctx hg
        constructor
        · intro hi
          obtain ⟨x, hx, rfl⟩ := List.mem_map.1 hi
          simpa using (List.mem_filter.1 hx).2
        · intro hi
          obtain ⟨x, hx, rfl⟩ := List.mem_map.1 (hg.ancestors ((hancestors i).1 hi))
          exact List.mem_map_of_mem (List.mem_filter.2 ⟨hx, by simpa using hi⟩)
      rw [hmem hg₁, hmem hg₂]
    have hapart := hnames.pathsApart draw (hn₁.sublist (List.filter_sublist.map _) :
      ((within ancestors done₁).map Prod.fst).Nodup)
    have hsaves : PathsApart (sc.savedValues (within ancestors done₁)) :=
      ⟨fun e he => hapart.1 e (List.mem_append_right _ he), (List.pairwise_append.1 hapart.2).2.1⟩
    have := (withPaths_perm (hw₁.perm hw₂ hindices) hsaves).1 hbase₁
    exact Except.ok.inj (hbase₂.symm.trans this)
  subst hsame
  -- a save beyond the ancestors is not below the path
  have hbeyond : ∀ {done : List (ℕ × StepAnswer)} {ctx : RuntimeContext},
      Given h ctx₀ done index ctx → ∀ e ∈ sc.savedValues (beyond ancestors done),
        components path <+: components e.1 → path = e.1 := by
    intro done ctx hg e he hbelow
    obtain ⟨x, hx, hsaved⟩ := ScenarioDef.mem_savedValues.1 he
    obtain ⟨other, hother, hsave, -⟩ := ScenarioDef.savedValue_eq_some.1 hsaved
    obtain ⟨hxdone, hxnot⟩ := List.mem_filter.1 hx
    have hin : x.1 ∈ done.map Prod.fst := List.mem_map_of_mem hxdone
    have hedges : ∀ {u v : ℕ}, sc.Precedes u v ↔ h.graph.Precedes u v := by
      intro u v
      have heq : h.graph.Edge = sc.DirectlyPrecedes := by
        funext a b
        exact propext (h.edge_iff hdag)
      rw [ScenarioDef.Precedes, DepGraph.Precedes, heq]
    have hconcurrent : sc.Concurrent x.1 index := by
      refine ⟨fun heq => hg.later (heq ▸ hin), fun hprecedes => ?_, fun hprecedes => ?_⟩
      · simp only [decide_eq_true_eq] at hxnot
        exact hxnot ((hancestors x.1).2 (hedges.1 hprecedes))
      · exact hg.not_descendant hin (hedges.1 hprecedes)
    have hnot := hsettled hstep hwhole hother hsave hconcurrent
    rcases eq_or_dot_of_prefix hbelow with heq | ⟨t, ht⟩
    · exact heq.symm
    · rw [startsWith_iff.2 ⟨t, ht⟩] at hnot
      cases hnot
  by_cases habove₁ : ∃ e ∈ sc.bindRoots draw ++ sc.savedValues done₁, components e.1 <+: components path
  · obtain ⟨e, he, habove⟩ := habove₁
    have heq := get_of_above hnames hv₁ hv₂ hholds₁ hholds₂ hpath hget₂ he habove
    rw [hget₁, hget₂] at heq
    exact Except.ok.inj heq
  by_cases habove₂ : ∃ e ∈ sc.bindRoots draw ++ sc.savedValues done₂, components e.1 <+: components path
  · obtain ⟨e, he, habove⟩ := habove₂
    have heq := get_of_above hnames hv₂ hv₁ hholds₂ hholds₁ hpath hget₁ he habove
    rw [hget₁, hget₂] at heq
    exact (Except.ok.inj heq).symm
  -- the path is a namespace in both contexts, and so in that of the ancestors
  obtain ⟨hfind₁, e, he, hbelow⟩ := (hholds₁.of_get hget₁).resolve_left habove₁
  obtain ⟨hfind₂, -⟩ := (hholds₂.of_get hget₂).resolve_left habove₂
  have hkept : ∀ {done : List (ℕ × StepAnswer)} {ctx : RuntimeContext} {w : RuntimeValue},
      Given h ctx₀ done index ctx → base₂.withPaths (sc.savedValues (beyond ancestors done)) = .ok ctx →
      (¬ ∃ e ∈ sc.bindRoots draw ++ sc.savedValues done, components e.1 <+: components path) →
      (∀ e ∈ sc.savedValues (beyond ancestors done), validateVariablePath e.1 = .ok ()) →
      RuntimeValue.nested.find (components path) base₂.roots = some w →
      RuntimeValue.nested.find (components path) ctx.roots = some w := by
    intro done ctx w hg hrest hnone hvalid hw
    refine Nested.find_insertAll_apart (fun x hx => ?_) ((withPaths_iff hvalid).1 hrest) hw
    obtain ⟨f, hf, rfl⟩ := List.mem_map.1 hx
    have hfabove : ¬ components f.1 <+: components path := fun hle => hnone
      ⟨f, List.mem_append_right _ ((List.filter_sublist.filterMap _).subset hf), hle⟩
    refine ⟨hfabove, fun hle => hfabove ?_⟩
    rw [hbeyond hg f hf hle]
  have hvalid : ∀ {done : List (ℕ × StepAnswer)}, ∀ e ∈ sc.savedValues (beyond ancestors done),
      validateVariablePath e.1 = .ok () := by
    intro done e he
    obtain ⟨x, -, hsaved⟩ := ScenarioDef.mem_savedValues.1 he
    obtain ⟨other, hother, hsave, -⟩ := ScenarioDef.savedValue_eq_some.1 hsaved
    exact (hnames.save hother hsave).1
  have hbase : ∃ w, RuntimeValue.nested.find (components path) base₂.roots = some w := by
    have hne : path ≠ e.1 := fun heq => habove₁ ⟨e, he, heq ▸ List.prefix_refl _⟩
    have hin : e ∈ sc.bindRoots draw ++ sc.savedValues (within ancestors done₁) := by
      rcases List.mem_append.1 he with he | he
      · exact List.mem_append_left _ he
      · have hsplit := ((perm_within_beyond ancestors done₁).filterMap sc.savedValue).mem_iff.2 he
        rw [List.filterMap_append] at hsplit
        rcases List.mem_append.1 hsplit with he | he
        · exact List.mem_append_right _ he
        · exact absurd (hbeyond hg₁ e he hbelow) hne
    obtain ⟨w, hw, -⟩ := Nested.find_of_prefix (hholds.found e hin) hbelow
      (fun heq => hne (components_inj heq)) (components_ne_nil path)
    exact ⟨w, hw⟩
  obtain ⟨w, hw⟩ := hbase
  have hw₁ := hkept hg₁ hrest₁ habove₁ hvalid hw
  have hw₂ := hkept hg₂ hrest₂ habove₂ hvalid hw
  rw [hfind₁] at hw₁
  rw [hfind₂] at hw₂
  exact (Option.some.inj hw₁).trans (Option.some.inj hw₂).symm

end

end DagRun

end TxGen
