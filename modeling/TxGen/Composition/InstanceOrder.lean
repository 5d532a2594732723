import TxGen.Composition.Rendering
import TxGen.Scenario.Graph

set_option autoImplicit false

/-! # Dependencies of a use

The dependencies of a use are added to the roots of its steps only. In a graph without cycles every
other step of the instance comes after a root, so that the whole instance waits. -/

namespace TxGen.Composition

open Yaml

/-! ## Steps keep their IDs and dependencies -/

def ExpandedStep.Grows (old new : ExpandedStep) : Prop :=
  new.value.stringField "id" = old.value.stringField "id" ∧
    ∀ d ∈ dependenciesOf old.value, d ∈ dependenciesOf new.value

theorem ExpandedStep.Grows.refl (step : ExpandedStep) : step.Grows step := ⟨rfl, fun _ hd => hd⟩

/-- Steps are only appended, and keep their places. -/
def StepsGrow (old new : List ExpandedStep) : Prop :=
  ∀ (i : ℕ) (step : ExpandedStep), old[i]? = some step →
    ∃ step', new[i]? = some step' ∧ step.Grows step'

theorem StepsGrow.refl (steps : List ExpandedStep) : StepsGrow steps steps :=
  fun _ step h => ⟨step, h, .refl step⟩

/-- An instance whose steps are in the list: each has the dependencies, or depends on another one. -/
structure Instance.Waits (u : Instance) (steps : List ExpandedStep) : Prop where
  waits : ∀ j < u.before.length, ∃ step, steps[u.first + j]? = some step ∧
    ((∀ d ∈ u.dependencies, d ∈ dependenciesOf step.value) ∨
      ∃ k < u.before.length, ∃ other, steps[u.first + k]? = some other ∧
        ∃ d ∈ dependenciesOf step.value, other.value.stringField "id" = some d)

/-- A step of the instance depends on another one when the dependencies of the use are added. -/
def Instance.Inner (u : Instance) (step : Yaml) : Prop :=
  ∃ d ∈ dependenciesOf step, ∃ other ∈ u.before, other.stringField "id" = some d

/-- The steps of the instance keep their IDs. -/
def Instance.KeepsIds (u : Instance) (steps : List ExpandedStep) : Prop :=
  ∀ (j : ℕ) (before : Yaml), u.before[j]? = some before → ∃ step, steps[u.first + j]? = some step ∧
    step.value.stringField "id" = before.stringField "id"

/-- A step of the instance that depends on another one is left as it was. -/
def Instance.KeepsInner (u : Instance) (steps : List ExpandedStep) : Prop :=
  ∀ (j : ℕ) (before : Yaml), u.before[j]? = some before → u.Inner before →
    ∃ step, steps[u.first + j]? = some step ∧ step.value = before

theorem Instance.KeepsIds.grows {u : Instance} {old new : List ExpandedStep} (h : u.KeepsIds old)
    (hgrow : StepsGrow old new) : u.KeepsIds new := by
  intro j before hj
  obtain ⟨step, hstep, hid⟩ := h j before hj
  obtain ⟨step', hstep', hsame, -⟩ := hgrow _ step hstep
  exact ⟨step', hstep', hsame.trans hid⟩

theorem Instance.Waits.grows {u : Instance} {old new : List ExpandedStep} (h : u.Waits old)
    (hgrow : StepsGrow old new) : u.Waits new := by
  refine ⟨fun j hj => ?_⟩
  obtain ⟨step, hstep, hwaits⟩ := h.waits j hj
  obtain ⟨step', hstep', -, hmore⟩ := hgrow _ step hstep
  refine ⟨step', hstep', ?_⟩
  rcases hwaits with hall | ⟨k, hk, other, hother, d, hd, hid⟩
  · exact Or.inl fun d hd => hmore d (hall d hd)
  · obtain ⟨other', hother', hsame, -⟩ := hgrow _ other hother
    exact Or.inr ⟨k, hk, other', hother', d, hmore d hd, hsame.trans hid⟩

theorem dependenciesOf_set {dependencies : List String} {label : String} {step value : Yaml}
    (h : setStepDependencies dependencies label step = .ok value) :
    dependenciesOf value = dependencies := by
  have hfield := field_setField h "depends_on"
  rw [if_pos rfl] at hfield
  exact dependenciesOf_eq (r := some dependencies) hfield

theorem Attached.grows {ids dependencies : List String} {old new : ExpandedStep}
    (h : Attached ids dependencies old new) : old.Grows new := by
  rcases h with ⟨-, rfl⟩ | ⟨-, value, hvalue, rfl⟩
  · exact .refl _
  · refine ⟨?_, fun d hd => ?_⟩
    · rw [stringField, stringField, field_setField hvalue, if_neg (by decide)]
    · rw [dependenciesOf_set hvalue]
      exact List.mem_append_left _ hd

/-- A root of the instance has all the dependencies. -/
theorem Attached.dependencies {ids dependencies : List String} {old new : ExpandedStep}
    (h : Attached ids dependencies old new) :
    ((∃ d ∈ dependenciesOf old.value, d ∈ ids) ∧ new = old) ∨
      ∀ d ∈ dependencies, d ∈ dependenciesOf new.value := by
  rcases h with h | ⟨-, value, hvalue, rfl⟩
  · exact Or.inl h
  · refine Or.inr fun d hd => ?_
    rw [dependenciesOf_set hvalue, List.mem_append, List.mem_filter]
    by_cases hown : d ∈ dependenciesOf old.value
    · exact Or.inl hown
    · exact Or.inr ⟨hd, by simpa using hown⟩

/-! ## What a use does to its steps -/

/-- The steps before and after the dependencies of a use were added. -/
structure AddsTo (u : Instance) (before after : List ExpandedStep) : Prop where
  values : u.before = before.map ExpandedStep.value
  values' : u.after = after.map ExpandedStep.value
  attached : (u.dependencies = [] ∧ after = before) ∨
    List.Forall₂ (Attached (before.filterMap fun step => step.value.stringField "id") u.dependencies)
      before after

variable {u : Instance} {before after : List ExpandedStep}

theorem AddsTo.grows (h : AddsTo u before after) : List.Forall₂ ExpandedStep.Grows before after := by
  rcases h.attached with ⟨-, rfl⟩ | hall
  · exact List.forall₂_same.2 fun step _ => .refl step
  · exact hall.imp fun _ _ => Attached.grows

/-- A step that depends on another one of the instance is no root. -/
theorem AddsTo.inner (h : AddsTo u before after) {i : ℕ} {step other : ExpandedStep}
    (hi : before[i]? = some step) {d : String} (hd : d ∈ dependenciesOf step.value)
    (hother : other ∈ before) (hid : other.value.stringField "id" = some d) :
    after[i]? = some step := by
  rcases h.attached with ⟨-, rfl⟩ | hall
  · exact hi
  · obtain ⟨hlt, rfl⟩ := List.getElem?_eq_some_iff.1 hi
    have hlt' : i < after.length := hall.length_eq ▸ hlt
    rw [List.getElem?_eq_getElem hlt']
    rcases hall.get hlt hlt' with ⟨-, hsame⟩ | ⟨hroot, -⟩
    · exact congrArg some hsame
    · exact absurd (List.mem_filterMap.2 ⟨other, hother, hid⟩) (hroot d hd)

/-- The places of the instance in the list of all steps. -/
theorem AddsTo.getElem? (h : AddsTo u before after) {front : List ExpandedStep}
    (hfirst : before = [] ∨ u.first = front.length) {j : ℕ} (hj : j < u.before.length) :
    (front ++ after)[u.first + j]? = after[j]? := by
  rcases hfirst with rfl | hfirst
  · rw [h.values] at hj
    exact absurd hj (Nat.not_lt_zero j)
  · rw [hfirst, List.getElem?_append_right (Nat.le_add_right _ _), Nat.add_sub_cancel_left]

theorem AddsTo.keepsIds (h : AddsTo u before after) {front : List ExpandedStep}
    (hfirst : before = [] ∨ u.first = front.length) : u.KeepsIds (front ++ after) := by
  intro j b hb
  rw [h.getElem? hfirst (List.getElem?_eq_some_iff.1 hb).1]
  rw [h.values, List.getElem?_map, Option.map_eq_some_iff] at hb
  obtain ⟨old, hold, rfl⟩ := hb
  obtain ⟨hlt, rfl⟩ := List.getElem?_eq_some_iff.1 hold
  have hlt' : j < after.length := h.grows.length_eq ▸ hlt
  exact ⟨after[j], List.getElem?_eq_getElem hlt', (h.grows.get hlt hlt').1⟩

theorem AddsTo.keepsInner (h : AddsTo u before after) {front : List ExpandedStep}
    (hfirst : before = [] ∨ u.first = front.length) : u.KeepsInner (front ++ after) := by
  intro j b hb hinner
  rw [h.getElem? hfirst (List.getElem?_eq_some_iff.1 hb).1]
  rw [h.values, List.getElem?_map, Option.map_eq_some_iff] at hb
  obtain ⟨old, hold, rfl⟩ := hb
  obtain ⟨d, hd, other, hother, hid⟩ := hinner
  rw [h.values, List.mem_map] at hother
  obtain ⟨o, ho, rfl⟩ := hother
  exact ⟨old, h.inner hold hd ho hid, rfl⟩

theorem AddsTo.waits (h : AddsTo u before after) {front : List ExpandedStep}
    (hfirst : before = [] ∨ u.first = front.length) : u.Waits (front ++ after) := by
  have hlength : before.length = after.length := h.grows.length_eq
  have hplaces : u.before.length = before.length := by rw [h.values, List.length_map]
  refine ⟨fun j hj => ?_⟩
  have hjb : j < before.length := hplaces ▸ hj
  have hja : j < after.length := hlength ▸ hjb
  refine ⟨after[j], by rw [h.getElem? hfirst hj, List.getElem?_eq_getElem hja], ?_⟩
  rcases h.attached with ⟨hnone, -⟩ | hall
  · exact Or.inl (by simp [hnone])
  rcases (hall.get hjb hja).dependencies with ⟨⟨d, hd, hin⟩, hsame⟩ | hroot
  · refine Or.inr ?_
    obtain ⟨o, ho, hid⟩ := List.mem_filterMap.1 hin
    obtain ⟨k, hk, rfl⟩ := List.mem_iff_getElem.1 ho
    have hka : k < after.length := hlength ▸ hk
    refine ⟨k, hplaces ▸ hk, after[k],
      by rw [h.getElem? hfirst (hplaces ▸ hk), List.getElem?_eq_getElem hka], d, ?_, ?_⟩
    · have : after[j] = before[j] := hsame
      rwa [this]
    · exact (hall.get hk hka).grows.1.trans hid
  · exact Or.inl hroot

/-! ## Runs -/

variable {s s' : ScenarioResolver}

theorem getElem?_take_append {steps after : List ExpandedStep} {first i : ℕ} (hlt : i < first)
    (hi : i < steps.length) : (steps.take first ++ after)[i]? = steps[i]? := by
  rw [List.getElem?_append_left (by rw [List.length_take]; exact Nat.lt_min.2 ⟨hlt, hi⟩),
    List.getElem?_take_of_lt hlt]

/-- Where a use is left, its steps come last. -/
theorem leaveUse_adds {use : UseDef} {scope : ExpansionScope} {fragment : LocatedFragment}
    {fullAlias useLabel : String} {first : ℕ} {outputs : List (String × String)}
    (h : leaveUse use scope fragment fullAlias useLabel first outputs s = .ok ((), s')) :
    ∃ u after, AddsTo u (s.expandedSteps.drop first) after ∧ u.first = first ∧
      s'.instances = s.instances ++ [u] ∧ s'.expandedSteps = s.expandedSteps.take first ++ after := by
  obtain ⟨after, -, hafter, rfl⟩ := leaveUse_ok h
  exact ⟨_, after, ⟨rfl, rfl, addDependenciesToRoots_ok hafter⟩, rfl, rfl, rfl⟩

/-- The steps that are not in the instance stay, the others are those it ends up with. -/
theorem AddsTo.stepsGrow {steps : List ExpandedStep} {first : ℕ}
    (h : AddsTo u (steps.drop first) after) : StepsGrow steps (steps.take first ++ after) := by
  intro i step hstep
  obtain ⟨hi, rfl⟩ := List.getElem?_eq_some_iff.1 hstep
  by_cases hlt : i < first
  · exact ⟨steps[i], by rw [getElem?_take_append hlt hi, hstep], .refl _⟩
  · obtain ⟨k, rfl⟩ := Nat.exists_eq_add_of_le (Nat.le_of_not_lt hlt)
    have hdrop : k < (steps.drop first).length := by
      rw [List.length_drop]
      omega
    have hafter : k < after.length := h.grows.length_eq ▸ hdrop
    have hlen : (steps.take first).length = first := by
      rw [List.length_take]
      omega
    refine ⟨after[k], ?_, ?_⟩
    · rw [List.getElem?_append_right (by omega), hlen, Nat.add_sub_cancel_left,
        List.getElem?_eq_getElem hafter]
    · have hgrows := h.grows.get hdrop hafter
      rwa [List.get_eq_getElem, List.getElem_drop] at hgrows

theorem Transition.stepsGrow (h : Transition s s') : StepsGrow s.expandedSteps s'.expandedSteps := by
  cases h with
  | emit _ h =>
      obtain ⟨_, _, _, _, _, _, _, value, _, -, -, -, -, -, -, -, -, rfl⟩ := emitConcrete_ok h
      intro i step hstep
      refine ⟨step, ?_, .refl step⟩
      rw [List.getElem?_append_left (List.getElem?_eq_some_iff.1 hstep).1]
      exact hstep
  | enter h =>
      obtain ⟨_, _, -, -, -, -, rfl⟩ := enterUse_ok h
      exact .refl _
  | leave _ h =>
      obtain ⟨u, after, hadds, -, -, hsteps⟩ := leaveUse_adds h
      exact hsteps ▸ hadds.stepsGrow

/-- An instance inside another one keeps its inner steps: they depend on steps of the outer one. -/
theorem Instance.KeepsInner.adds {v : Instance} {steps : List ExpandedStep} {first : ℕ}
    (h : v.KeepsInner steps) (hids : v.KeepsIds steps) (hadds : AddsTo u (steps.drop first) after)
    (hnested : first ≤ v.first ∨ v.last ≤ first) : v.KeepsInner (steps.take first ++ after) := by
  intro j before hj hinner
  obtain ⟨step, hstep, rfl⟩ := h j before hj hinner
  obtain ⟨hi, -⟩ := List.getElem?_eq_some_iff.1 hstep
  have hjlt := (List.getElem?_eq_some_iff.1 hj).1
  refine ⟨step, ?_, rfl⟩
  rcases hnested with hinside | hbefore
  · obtain ⟨d, hd, other, hother, hid⟩ := hinner
    obtain ⟨k, hk⟩ := List.mem_iff_getElem?.1 hother
    obtain ⟨mate, hmate, hsame⟩ := hids k other hk
    have hat : ∀ (n : ℕ), (steps.drop first)[v.first + n - first]? = steps[v.first + n]? := by
      intro n
      rw [List.getElem?_drop]
      congr 1
      omega
    have hstays := hadds.inner ((hat j).trans hstep) hd
      (List.mem_iff_getElem?.2 ⟨_, (hat k).trans hmate⟩) (hsame.trans hid)
    have hlen : (steps.take first).length = first := by
      rw [List.length_take]
      omega
    rw [List.getElem?_append_right (by omega), hlen]
    exact hstays
  · rw [Instance.last] at hbefore
    rw [getElem?_take_append (by omega) hi, hstep]

/-- The instances so far. -/
structure Instances (s : ScenarioResolver) : Prop where
  waits : ∀ u ∈ s.instances, u.Waits s.expandedSteps
  keepsIds : ∀ u ∈ s.instances, u.KeepsIds s.expandedSteps
  keepsInner : ∀ u ∈ s.instances, u.KeepsInner s.expandedSteps

theorem Instances.step (hinv : Instances s) (h : Transition s s') : Instances s' := by
  have hgrow := h.stepsGrow
  have hwaits : ∀ u ∈ s.instances, u.Waits s'.expandedSteps := fun u hu =>
    (hinv.waits u hu).grows hgrow
  have hids : ∀ u ∈ s.instances, u.KeepsIds s'.expandedSteps := fun u hu =>
    (hinv.keepsIds u hu).grows hgrow
  cases h with
  | emit _ h =>
      obtain ⟨_, _, _, _, _, _, _, value, _, -, -, -, -, -, -, -, -, rfl⟩ := emitConcrete_ok h
      refine ⟨hwaits, hids, fun u hu j before hj hinner => ?_⟩
      obtain ⟨step, hstep, hsame⟩ := hinv.keepsInner u hu j before hj hinner
      refine ⟨step, ?_, hsame⟩
      rw [List.getElem?_append_left (List.getElem?_eq_some_iff.1 hstep).1]
      exact hstep
  | enter h =>
      obtain ⟨_, _, -, -, -, -, rfl⟩ := enterUse_ok h
      exact ⟨hwaits, hids, hinv.keepsInner⟩
  | @leave _ _ _ _ _ first _ hnested h =>
      obtain ⟨new, after, hadds, hfirst, hinstances, hsteps⟩ := leaveUse_adds h
      rw [hsteps] at hwaits hids
      have hplace : s.expandedSteps.drop first = [] ∨
          new.first = (s.expandedSteps.take first).length := by
        rw [List.drop_eq_nil_iff, List.length_take, hfirst]
        omega
      constructor <;> rw [hinstances, hsteps, List.forall_mem_append, List.forall_mem_singleton]
      · exact ⟨hwaits, hadds.waits hplace⟩
      · exact ⟨hids, hadds.keepsIds hplace⟩
      · exact ⟨fun u hu => (hinv.keepsInner u hu).adds (hinv.keepsIds u hu) hadds (hnested u hu),
          hadds.keepsInner hplace⟩

theorem instances_init (fragments : List (String × LocatedFragment)) : Instances { fragments } :=
  ⟨nofun, nofun, nofun⟩

theorem Instances.transitions (hinv : Instances s) (h : Transitions s s') : Instances s' := by
  induction h with
  | refl => exact hinv
  | tail _ hstep ih => exact ih.step hstep

/-! ## The accepted graph -/

/-- Every step of the instance has each dependency of the use among its ancestors. -/
def Instance.OrderedIn (u : Instance) (sc : ScenarioDef) : Prop :=
  ∀ j < u.before.length, ∀ d ∈ u.dependencies, ∃ (k : ℕ) (step : StepDef),
    sc.steps[k]? = some step ∧ step.effectiveId k = d ∧ sc.Precedes k (u.first + j)

variable {sc : ScenarioDef} {ids : StepIds}

/-- A dependency of a step is an ancestor. -/
theorem precedes_of_dependsOn (hdag : sc.execution = .dag) (hids : sc.DagIds ids) {j : ℕ}
    {step : StepDef} (hstep : sc.steps[j]? = some step) {d : String} (hd : d ∈ step.dependsOn) :
    ∃ (k : ℕ) (other : StepDef), sc.steps[k]? = some other ∧ other.effectiveId k = d ∧
      sc.DirectlyPrecedes k j := by
  obtain ⟨k, hk⟩ := Option.isSome_iff_exists.1 (hids.found step (List.mem_of_getElem? hstep) d hd)
  obtain ⟨other, hother, rfl⟩ := (hids.lookup_iff d k).1 hk
  refine ⟨k, other, hother, rfl, ?_⟩
  rw [ScenarioDef.DirectlyPrecedes, hdag]
  exact ⟨other, step, hother, hstep, hd⟩

/-- By induction on the rank of a step: one that is no root comes after another one. -/
theorem Instance.Waits.orderedIn {steps : List ExpandedStep} (h : u.Waits steps)
    (hdag : sc.execution = .dag) (hids : sc.DagIds ids) (hacyclic : hids.graph.Acyclic)
    (hsteps : ∀ (i : ℕ) (expanded : ExpandedStep), steps[i]? = some expanded → ∃ step,
      sc.steps[i]? = some step ∧ step.id = expanded.value.stringField "id" ∧
        step.dependsOn = dependenciesOf expanded.value) : u.OrderedIn sc := by
  obtain ⟨rank, hrank⟩ := hacyclic
  intro j hj d hd
  induction hr : rank (u.first + j) using Nat.strong_induction_on generalizing j with
  | _ r ih =>
      obtain ⟨expanded, hexpanded, hwaits⟩ := h.waits j hj
      obtain ⟨step, hstep, -, hdeps⟩ := hsteps _ _ hexpanded
      rcases hwaits with hall | ⟨k, hk, inner, hinner, e, he, hid⟩
      · obtain ⟨i, other, hother, hname, hprecedes⟩ :=
          precedes_of_dependsOn hdag hids hstep (hdeps ▸ hall d hd)
        exact ⟨i, other, hother, hname, .single hprecedes⟩
      · obtain ⟨mate, hmate, hmateId, -⟩ := hsteps _ _ hinner
        obtain ⟨i, other, hother, hname, hprecedes⟩ :=
          precedes_of_dependsOn hdag hids hstep (hdeps ▸ he)
        -- the ID stands for the other step of the instance
        have hplace : i = u.first + k := by
          refine hids.effectiveId_inj hother hmate (hname.trans ?_)
          simp [StepDef.effectiveId, hmateId, hid]
        subst hplace
        have hlt := hrank ((hids.edge_iff hdag).2 hprecedes)
        obtain ⟨i, ancestor, hancestor, hname, hbefore⟩ := ih _ (hr ▸ hlt) k hk rfl
        exact ⟨i, ancestor, hancestor, hname, hbefore.tail hprecedes⟩

/-- A step that depends on another one of its instance has no other dependencies in the end. -/
def Instance.AddsNothingInside (u : Instance) (sc : ScenarioDef) : Prop :=
  ∀ (j : ℕ) (before : Yaml), u.before[j]? = some before → u.Inner before →
    ∃ step, sc.steps[u.first + j]? = some step ∧ step.dependsOn = dependenciesOf before

namespace InstanceOrderSample

open CompositionSample

def step (id : String) (dependsOn : List String) : Yaml :=
  fields [("id", string id), ("depends_on", .sequence (dependsOn.map string)),
    ("checkpoint", checkpoint)]

def use (fragment aliasName : String) (dependsOn : List String) : Yaml :=
  fields [("use", string fragment), ("as", string aliasName),
    ("depends_on", .sequence (dependsOn.map string))]

/-- The second step of the inner fragment depends on the first, as the inner use does in the outer. -/
def fragments : List (String × LocatedFragment) :=
  [("inner", { name := "inner", sourceFile := "f.yml", definition := {
      steps := [step "first" [], step "second" ["first"]] } }),
    ("outer", { name := "outer", sourceFile := "f.yml", definition := {
      steps := [step "start" [], use "inner" "nested" ["start"]] } })]

def root : Except Report LocatedDocument :=
  document "dag" [step "before" [], use "outer" "instance" ["before"]]

end InstanceOrderSample

end TxGen.Composition
