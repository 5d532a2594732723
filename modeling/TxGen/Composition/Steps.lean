import TxGen.Composition.Resolve

set_option autoImplicit false

/-! # What an expansion does

Every change that an expansion makes to the resolver is one of three: a concrete step is emitted, a use
is entered, a use is left (`Transition`). What these keep, an expansion keeps. -/

namespace TxGen

namespace Yaml

/-- The value of a field, if the value is a mapping that has it. -/
def field (name : String) : Yaml → Option Yaml
  | .mapping entries => get entries name
  | _ => none

def stringField (name : String) (value : Yaml) : Option String := (value.field name).bind asStr

def isMapping : Yaml → Bool
  | .mapping _ => true
  | _ => false

theorem get_insert (key name : String) (value : Yaml) (entries : List (Yaml × Yaml)) :
    get (insert key value entries) name = if name = key then some value else get entries name := by
  induction entries with
  | nil =>
      rw [insert, get_cons]
      simp [eq_comm]
  | cons e entries ih =>
      rw [insert]
      by_cases he : e.1 = .string key
      · rw [if_pos he, get_cons, get_cons, he]
        by_cases hname : name = key
        · simp [hname]
        · simp [hname, Ne.symm hname]
      · rw [if_neg he, get_cons, get_cons, ih]
        by_cases hname : name = key
        · subst hname
          simp [he]
        · simp [hname]

theorem containsKey_iff {entries : List (Yaml × Yaml)} {key : String} :
    containsKey entries key = true ↔ .string key ∈ entries.map Prod.fst := by
  simp [containsKey, List.mem_map]

end Yaml

namespace Composition

/-! ## Fields of a step -/

def dependenciesOf (value : Yaml) : List String :=
  match value.field "depends_on" with
  | some (.sequence ids) => ids.filterMap Yaml.asStr
  | _ => []

theorem stepString_ok {name label : String} {value : Yaml} {r : Option String}
    (h : stepString name value label = .ok r) :
    value.isMapping = true ∧ value.field name = r.map Yaml.string := by
  cases value with
  | mapping entries =>
      refine ⟨rfl, ?_⟩
      simp only [stepString, Yaml.field] at h ⊢
      split at h
      · next hget => rw [hget, ← Except.ok.inj h]; rfl
      · next hget => rw [hget, ← Except.ok.inj h]; rfl
      · cases h
  | _ => cases h

theorem dependencyIds_ok {label : String} {ids : List Yaml} {r : List String}
    (h : dependencyIds label ids = .ok r) : ids = r.map Yaml.string := by
  induction ids generalizing r with
  | nil =>
      obtain rfl := Except.ok.inj h
      rfl
  | cons id ids ih =>
      cases id with
      | string s =>
          obtain ⟨rest, hrest, hr⟩ := bind_eq_ok.1 h
          obtain rfl := Except.ok.inj hr
          rw [ih hrest]
          rfl
      | _ => cases h

theorem stepDependencies_ok {label : String} {value : Yaml} {r : Option (List String)}
    (h : stepDependencies value label = .ok r) :
    value.isMapping = true ∧
      value.field "depends_on" = r.map fun ids => .sequence (ids.map Yaml.string) := by
  cases value with
  | mapping entries =>
      refine ⟨rfl, ?_⟩
      simp only [stepDependencies, Yaml.field] at h ⊢
      split at h
      · next hget => rw [hget, ← Except.ok.inj h]; rfl
      · next ids hget =>
          obtain ⟨found, hids, hr⟩ := bind_eq_ok.1 h
          obtain rfl := Except.ok.inj hr
          rw [hget, dependencyIds_ok hids]
          rfl
      · cases h
  | _ => cases h

theorem dependenciesOf_eq {value : Yaml} {r : Option (List String)}
    (h : value.field "depends_on" = r.map fun ids => .sequence (ids.map Yaml.string)) :
    dependenciesOf value = r.getD [] := by
  unfold dependenciesOf
  rw [h]
  cases r with
  | none => rfl
  | some ids => simp [List.filterMap_map, Function.comp_def, Yaml.asStr]

theorem setField_ok {name label : String} {new step value : Yaml}
    (h : setField name new label step = .ok value) :
    ∃ entries, step = .mapping entries ∧ value = .mapping (Yaml.insert name new entries) := by
  cases step with
  | mapping entries => exact ⟨entries, rfl, (Except.ok.inj h).symm⟩
  | _ => cases h

theorem field_setField {name label : String} {new step value : Yaml}
    (h : setField name new label step = .ok value) (other : String) :
    value.field other = if other = name then some new else step.field other := by
  obtain ⟨entries, rfl, rfl⟩ := setField_ok h
  exact Yaml.get_insert name other new entries

/-- A step whose only key apart from its metadata is an action. -/
def IsConcrete (value : Yaml) : Prop :=
  ∃ entries action, value = .mapping entries ∧ action ∈ actionKeys ∧
    (entries.filterMap fun e => e.1.asStr).filter (· ∉ metadataKeys) = [action]

theorem concreteAction_ok {value : Yaml} {label action : String}
    (h : concreteAction value label = .ok action) : IsConcrete value := by
  cases value with
  | mapping entries =>
      simp only [concreteAction] at h
      split at h
      · next found hkeys =>
          split at h
          · next hfound => exact ⟨entries, found, rfl, hfound, hkeys⟩
          · cases h
      · cases h
  | _ => cases h

theorem IsConcrete.concreteAction {value : Yaml} (h : IsConcrete value) (label : String) :
    ∃ action, concreteAction value label = .ok action := by
  obtain ⟨entries, action, rfl, haction, hkeys⟩ := h
  refine ⟨action, ?_⟩
  simp only [Composition.concreteAction, hkeys]
  exact if_pos haction

theorem filterMap_insert (key : String) (new : Yaml) (entries : List (Yaml × Yaml)) :
    ((Yaml.insert key new entries).filterMap fun e => e.1.asStr) =
      (entries.filterMap fun e => e.1.asStr) ∨
    ((Yaml.insert key new entries).filterMap fun e => e.1.asStr) =
      (entries.filterMap fun e => e.1.asStr) ++ [key] := by
  induction entries with
  | nil => exact Or.inr rfl
  | cons e entries ih =>
      rw [Yaml.insert]
      split
      · exact Or.inl rfl
      · rcases ih with ih | ih
        · exact Or.inl (by simp only [List.filterMap_cons, ih])
        · refine Or.inr ?_
          simp only [List.filterMap_cons, ih]
          split <;> simp

/-- Setting a metadata field leaves the action alone. -/
theorem IsConcrete.setField {name label : String} {new step value : Yaml} (h : IsConcrete step)
    (hname : name ∈ metadataKeys) (hset : setField name new label step = .ok value) :
    IsConcrete value := by
  obtain ⟨entries, action, rfl, haction, hkeys⟩ := h
  obtain ⟨_, hentries, rfl⟩ := setField_ok hset
  obtain rfl := Yaml.mapping.inj hentries
  refine ⟨_, action, rfl, haction, ?_⟩
  rcases filterMap_insert name new entries with hsame | hmore
  · rw [hsame, hkeys]
  · rw [hmore, List.filter_append, hkeys]
    simp [hname]

/-- No concrete step is a use. -/
theorem IsConcrete.parseUse {value : Yaml} (h : IsConcrete value) (label : String) :
    parseUse value label = .ok none := by
  obtain ⟨entries, action, rfl, haction, hkeys⟩ := h
  refine if_neg fun huse => ?_
  obtain ⟨e, he, hkey⟩ := List.mem_map.1 (Yaml.containsKey_iff.1 huse)
  have hin : "use" ∈ (entries.filterMap fun e => e.1.asStr).filter (· ∉ metadataKeys) := by
    refine List.mem_filter.2 ⟨List.mem_filterMap.2 ⟨e, he, by rw [hkey]; rfl⟩, by decide⟩
  rw [hkeys, List.mem_singleton] at hin
  subst hin
  revert haction
  decide

/-! ## Emitting a step -/

variable {s s' : ScenarioResolver}

/-- The save of a step is put below the alias and registered. -/
def Saved (scope : ExpansionScope) (localSave : Option String) (label : String) (stepIndex : ℕ)
    (qualified value : Yaml) (saves saves' : List (String × SaveOrigin)) : Prop :=
  match localSave with
  | none => value = qualified ∧ saves' = saves
  | some save => ∃ full, qualifySave scope save label qualified = .ok (full, value) ∧
      checkNewSave full label stepIndex saves = .ok () ∧
      saves' = OrdMap.set full ⟨stepIndex, label⟩ saves

theorem registerSave_ok {save label : String} {u : Unit}
    (h : registerSave save label s = .ok (u, s')) :
    checkNewSave save label s.expandedSteps.length s.saves = .ok () ∧
      s' = { s with saves := OrdMap.set save ⟨s.expandedSteps.length, label⟩ s.saves } := by
  unfold registerSave at h
  simp only [Expand.bind_ok, Expand.get_ok, Expand.lift_ok, Expand.modify_ok] at h
  obtain ⟨_, _, ⟨rfl, rfl⟩, _, _, ⟨hcheck, rfl⟩, rfl⟩ := h
  exact ⟨hcheck, rfl⟩

theorem saveStep_ok {scope : ExpansionScope} {localSave : Option String} {label : String}
    {qualified value : Yaml} (h : saveStep scope localSave label qualified s = .ok (value, s')) :
    ∃ saves, Saved scope localSave label s.expandedSteps.length qualified value s.saves saves ∧
      s' = { s with saves } := by
  cases localSave with
  | none =>
      obtain ⟨rfl, rfl⟩ := Expand.pure_ok.1 h
      exact ⟨s.saves, ⟨rfl, rfl⟩, rfl⟩
  | some save =>
      simp only [saveStep, Expand.bind_ok, Expand.lift_ok] at h
      obtain ⟨⟨full, stored⟩, _, ⟨hsave, rfl⟩, _, _, hregister, hvalue⟩ := h
      obtain ⟨rfl, rfl⟩ := Expand.pure_ok.1 hvalue
      obtain ⟨hcheck, rfl⟩ := registerSave_ok hregister
      exact ⟨_, ⟨full, hsave, hcheck, rfl⟩, rfl⟩

/-- What emitting a step appends, and what is checked on the way. -/
theorem emitConcrete_ok {rawStep : Yaml} {scope : ExpansionScope} {sourceFile : String} {index : ℕ}
    {r : Option (String × String)} (h : emitConcrete rawStep scope sourceFile index s = .ok (r, s')) :
    ∃ label transformed checks action localSave localId qualified value saves,
      label = expandedStepLabel sourceFile index s.expandedSteps.length scope ∧
      transformValue scope label rawStep = .ok (transformed, checks) ∧
      concreteAction transformed.value label = .ok action ∧
      stepSave transformed.value label = .ok localSave ∧
      stepId transformed.value label = .ok localId ∧
      qualifyIn scope localId label transformed.value = .ok qualified ∧
      Saved scope localSave label s.expandedSteps.length qualified value s.saves saves ∧
      r = localSave.map (fun save => (save, outputKindForAction action)) ∧
      s' = { s with
        outputReferenceChecks := s.outputReferenceChecks ++ checks
        saves
        expandedSteps := s.expandedSteps ++ [{
          value
          provenance := stepProvenance scope sourceFile index action localSave localId
          diagnostic := label
          references := transformed.references }] } := by
  unfold emitConcrete at h
  simp only [Expand.bind_ok, Expand.get_ok, Expand.lift_ok, Expand.modify_ok] at h
  obtain ⟨_, _, ⟨rfl, rfl⟩, ⟨transformed, checks⟩, _, ⟨htransform, rfl⟩, _, _, rfl, action, _,
    ⟨haction, rfl⟩, localSave, _, ⟨hsave, rfl⟩, localId, _, ⟨hid, rfl⟩, qualified, _,
    ⟨hqualified, rfl⟩, value, _, hstored, _, _, rfl, hr⟩ := h
  obtain ⟨saves, hsaved, rfl⟩ := saveStep_ok hstored
  obtain ⟨rfl, rfl⟩ := Expand.pure_ok.1 hr
  exact ⟨_, transformed, checks, action, localSave, localId, qualified, value, saves, rfl, htransform,
    haction, hsave, hid, hqualified, hsaved, rfl, rfl⟩

/-! ## Entering and leaving a use -/

theorem enterUse_ok {use : UseDef} {scope : ExpansionScope} {fragment : LocatedFragment}
    {fullAlias useLabel : String} {arguments : List (String × Argument)}
    (h : enterUse use scope fragment fullAlias useLabel s = .ok (arguments, s')) :
    ∃ checks parameterChecks, OrdMap.get? fullAlias s.aliases = none ∧
      checkArguments fragment use useLabel = .ok () ∧
      transformArguments use scope useLabel s.expandedSteps.length fragment.definition.parameters =
        .ok (arguments, checks, parameterChecks) ∧
      fragment.name ∉ s.fragmentStack ∧
      s' = { s with
        usedFragments := s.usedFragments ++ [fragment.name]
        aliases := OrdMap.set fullAlias useLabel s.aliases
        outputReferenceChecks := s.outputReferenceChecks ++ checks
        parameterChecks := s.parameterChecks ++ parameterChecks
        fragmentStack := s.fragmentStack ++ [fragment.name] } := by
  unfold enterUse at h
  rw [Expand.bind_ok] at h
  obtain ⟨_, _, hget, h⟩ := h
  obtain ⟨rfl, rfl⟩ := Expand.get_ok.1 hget
  cases halias : OrdMap.get? fullAlias s.aliases with
  | some previous =>
      simp only [halias, Expand.bind_ok, Expand.lift_ok, bail_ne_ok, false_and, exists_false] at h
  | none =>
      simp only [halias, Expand.bind_ok, Expand.lift_ok, Expand.modify_ok] at h
      obtain ⟨_, _, ⟨hcheck, rfl⟩, ⟨found, checks, parameterChecks⟩, _, ⟨hfound, rfl⟩, _,
        _, rfl, h⟩ := h
      split at h
      · exact absurd h Expand.fail_ok
      · next hstack =>
          simp only [Expand.bind_ok, Expand.modify_ok] at h
          obtain ⟨_, _, rfl, h⟩ := h
          obtain ⟨rfl, rfl⟩ := Expand.pure_ok.1 h
          exact ⟨checks, parameterChecks, rfl, hcheck, hfound, hstack, rfl⟩

theorem leaveUse_ok {use : UseDef} {scope : ExpansionScope} {fragment : LocatedFragment}
    {fullAlias useLabel : String} {insertionIndex : ℕ} {outputs : List (String × String)} {u : Unit}
    (h : leaveUse use scope fragment fullAlias useLabel insertionIndex outputs s = .ok (u, s')) :
    ∃ after, validateDependencyList (qualifyDependencies use.dependsOn scope) useLabel = .ok () ∧
      addDependenciesToRoots (qualifyDependencies use.dependsOn scope) useLabel
        (s.expandedSteps.drop insertionIndex) = .ok after ∧
      s' = { s with
        fragmentStack := s.fragmentStack.dropLast
        expandedSteps := s.expandedSteps.take insertionIndex ++ after
        aliasOutputs := OrdMap.set fullAlias (outputs.map Prod.fst) s.aliasOutputs
        instances := s.instances ++ [{
          fullAlias
          fragment := fragment.name
          first := insertionIndex
          dependencies := qualifyDependencies use.dependsOn scope
          before := (s.expandedSteps.drop insertionIndex).map ExpandedStep.value
          after := after.map ExpandedStep.value }] } := by
  unfold leaveUse at h
  simp only [Expand.bind_ok, Expand.get_ok, Expand.lift_ok, Expand.modify_ok] at h
  obtain ⟨_, _, rfl, _, _, ⟨hlist, rfl⟩, _, _, ⟨rfl, rfl⟩, after, _, ⟨hafter, rfl⟩, rfl⟩ := h
  exact ⟨after, hlist, hafter, rfl⟩

theorem expandUse_ok {fuel : ℕ} {use : UseDef} {scope : ExpansionScope} {source : String} {index : ℕ}
    {outputs : List (String × String)}
    (h : expandUse fuel use scope source index s = .ok (outputs, s')) :
    ∃ depth fragment useLabel arguments s₁ s₂, fuel = depth + 1 ∧
      OrdMap.get? use.fragment s.fragments = some fragment ∧
      enterUse use scope fragment (joinPath scope.aliasPrefix use.aliasName) useLabel s =
        .ok (arguments, s₁) ∧
      expandFragment (expandUse depth) fragment useLabel (joinPath scope.aliasPrefix use.aliasName)
        arguments s₁ = .ok (outputs, s₂) ∧
      leaveUse use scope fragment (joinPath scope.aliasPrefix use.aliasName) useLabel
        s.expandedSteps.length outputs s₂ = .ok ((), s') := by
  cases fuel with
  | zero => exact absurd h Expand.fail_ok
  | succ depth =>
      rw [expandUse, Expand.bind_ok] at h
      obtain ⟨_, _, hget, h⟩ := h
      obtain ⟨rfl, rfl⟩ := Expand.get_ok.1 hget
      cases hfragment : OrdMap.get? use.fragment s.fragments with
      | none => simp only [hfragment, Expand.lift_ok, bail_ne_ok, false_and] at h
      | some fragment =>
          simp only [hfragment, Expand.bind_ok] at h
          obtain ⟨arguments, s₁, henter, found, s₂, hbody, _, _, hleave, hout⟩ := h
          obtain ⟨rfl, rfl⟩ := Expand.pure_ok.1 hout
          exact ⟨depth, fragment, _, arguments, s₁, s₂, rfl, rfl, henter, hbody, hleave⟩

theorem expandStep_ok {expandUse : ExpandUse} {scope : ExpansionScope} {source : String} {index : ℕ}
    {step : Yaml} {saves saves' : List (String × String)}
    (h : expandStep expandUse scope source index step saves s = .ok (saves', s')) :
    (∃ label use nested, parseUse step label = .ok (some use) ∧
      expandUse use scope source index s = .ok (nested, s') ∧
      saves' = nested.foldl
        (fun saves (name, kind) => OrdMap.set s!"{use.aliasName}.{name}" kind saves) saves) ∨
    (∃ label r, parseUse step label = .ok none ∧
      emitConcrete step scope source index s = .ok (r, s') ∧
      saves' = match r with
        | none => saves
        | some (name, kind) => OrdMap.set name kind saves) := by
  unfold expandStep at h
  simp only [Expand.bind_ok, Expand.get_ok, Expand.lift_ok] at h
  obtain ⟨_, _, ⟨rfl, rfl⟩, use?, _, ⟨hparse, rfl⟩, h⟩ := h
  cases use? with
  | some use =>
      simp only [Expand.bind_ok] at h
      obtain ⟨nested, _, hnested, h⟩ := h
      obtain ⟨rfl, rfl⟩ := Expand.pure_ok.1 h
      exact Or.inl ⟨_, use, nested, hparse, hnested, rfl⟩
  | none =>
      simp only [Expand.bind_ok] at h
      obtain ⟨r, _, hemit, h⟩ := h
      refine Or.inr ⟨_, r, hparse, ?_⟩
      cases r with
      | none =>
          obtain ⟨rfl, rfl⟩ := Expand.pure_ok.1 h
          exact ⟨hemit, rfl⟩
      | some saved =>
          obtain ⟨rfl, rfl⟩ := Expand.pure_ok.1 h
          exact ⟨hemit, rfl⟩

theorem expandFragment_ok {expandUse : ExpandUse} {fragment : LocatedFragment}
    {useLabel fullAlias : String} {parameters : List (String × Argument)}
    {outputs : List (String × String)}
    (h : expandFragment expandUse fragment useLabel fullAlias parameters s = .ok (outputs, s')) :
    ∃ names saves, validateFragmentScope fragment = .ok names ∧
      expandSteps expandUse (instanceScope fragment fullAlias parameters names) fragment.sourceFile
        fragment.definition.steps 0 [] s = .ok (saves, s') ∧
      declaredOutputs useLabel saves fragment.definition.outputs = .ok outputs := by
  unfold expandFragment at h
  simp only [Expand.bind_ok, Expand.lift_ok] at h
  obtain ⟨names, _, ⟨hnames, rfl⟩, saves, _, hsteps, houtputs, rfl⟩ := h
  exact ⟨names, saves, hnames, hsteps, houtputs⟩

/-! ## Adding dependencies -/

/-- A step of an instance waits for the dependencies of the use, unless it depends on another step of
    the instance. -/
def Attached (fragmentStepIds dependencies : List String) (old new : ExpandedStep) : Prop :=
  ((∃ d ∈ dependenciesOf old.value, d ∈ fragmentStepIds) ∧ new = old) ∨
    ((∀ d ∈ dependenciesOf old.value, d ∉ fragmentStepIds) ∧ ∃ value,
      setStepDependencies (dependenciesOf old.value ++
        dependencies.filter (· ∉ dependenciesOf old.value)) old.diagnostic old.value = .ok value ∧
      new = { old with value })

theorem addDependencies_ok {ids dependencies : List String} {old new : ExpandedStep}
    (h : addDependencies ids dependencies old = .ok new) : Attached ids dependencies old new := by
  obtain ⟨found, hfound, h⟩ := bind_eq_ok.1 h
  have hown := dependenciesOf_eq (stepDependencies_ok hfound).2
  rw [← hown] at h
  dsimp only at h
  split at h
  · next hin =>
      obtain rfl := Except.ok.inj h
      exact Or.inl ⟨by simpa using hin, rfl⟩
  · next hnot =>
      obtain ⟨value, hvalue, hnew⟩ := bind_eq_ok.1 h
      obtain rfl := Except.ok.inj hnew
      exact Or.inr ⟨by simpa using hnot, value, hvalue, rfl⟩

theorem stepIds_ok {steps : List ExpandedStep} {ids : List String} (h : stepIds steps = .ok ids) :
    ids = steps.filterMap fun step => step.value.stringField "id" := by
  induction steps generalizing ids with
  | nil => exact (Except.ok.inj h).symm
  | cons step steps ih =>
      obtain ⟨id, hid, h⟩ := bind_eq_ok.1 h
      obtain ⟨rest, hrest, h⟩ := bind_eq_ok.1 h
      obtain rfl := Except.ok.inj h
      have hfield : step.value.stringField "id" = id := by
        rw [Yaml.stringField, (stepString_ok hid).2]
        cases id <;> rfl
      rw [ih hrest, List.filterMap_cons, hfield]
      cases id <;> rfl

theorem addDependenciesToRoots_ok {dependencies : List String} {useLabel : String}
    {steps after : List ExpandedStep}
    (h : addDependenciesToRoots dependencies useLabel steps = .ok after) :
    (dependencies = [] ∧ after = steps) ∨
      List.Forall₂ (Attached (steps.filterMap fun step => step.value.stringField "id") dependencies)
        steps after := by
  unfold addDependenciesToRoots at h
  split at h
  · next hnone => exact Or.inl ⟨hnone, (Except.ok.inj h).symm⟩
  · obtain ⟨-, -, h⟩ := bind_eq_ok.1 h
    obtain ⟨ids, hids, h⟩ := bind_eq_ok.1 h
    rw [← stepIds_ok hids]
    exact Or.inr ((Fallible.mapM_ok.1 h).imp fun _ _ => addDependencies_ok)

theorem addDependenciesToRoots_length {dependencies : List String} {useLabel : String}
    {steps after : List ExpandedStep}
    (h : addDependenciesToRoots dependencies useLabel steps = .ok after) :
    after.length = steps.length := by
  rcases addDependenciesToRoots_ok h with ⟨-, rfl⟩ | hall
  · rfl
  · exact hall.length_eq.symm

/-! ## Transitions -/

/-- Where the steps of the instance end. -/
def Instance.last (u : Instance) : ℕ := u.first + u.before.length

/-- The alias of an instance is a path. -/
def ExpansionScope.Valid (scope : ExpansionScope) : Prop :=
  ∀ a, scope.aliasPrefix = some a → "" ∉ components a

theorem parseUse_ok {step : Yaml} {label : String} {use : UseDef}
    (h : parseUse step label = .ok (some use)) :
    blank use.aliasName = false ∧ '.' ∉ use.aliasName.toList := by
  cases step with
  | mapping entries =>
      simp only [parseUse] at h
      split at h
      · obtain ⟨found, huse, h⟩ := bind_eq_ok.1 h
        obtain rfl := Option.some.inj (Except.ok.inj h)
        simp only [useDef, validateComponent, bind_eq_ok, wrapErr_eq_ok, bailIf_eq_ok] at huse
        obtain ⟨_, _, _, _, fragment, _, _, _, aliasName, _, _, ⟨_, hname, hdot⟩, arguments, _,
          dependsOn, _, _, _, hfound⟩ := huse
        obtain rfl := Except.ok.inj hfound
        exact ⟨by simpa [validateName] using hname, hdot⟩
      · cases h
  | _ => cases h

theorem nonempty_of_not_blank {name : String} (h : blank name = false) : name ≠ "" := by
  rintro rfl
  exact absurd h (by decide)

theorem components_joinPath (a? : Option String) {name : String} (hname : '.' ∉ name.toList) :
    components (joinPath a? name) = (a?.map components).getD [] ++ [name] := by
  cases a? with
  | none => exact components_eq_singleton hname
  | some a =>
      have : joinPath (some a) name = a ++ "." ++ name := rfl
      rw [this, components_dot, components_eq_singleton hname]
      rfl

/-- What an expansion can do to the resolver. -/
inductive Transition (s s' : ScenarioResolver) : Prop
  | emit {rawStep : Yaml} {scope : ExpansionScope} {sourceFile : String} {index : ℕ}
      {r : Option (String × String)} (valid : scope.Valid)
      (h : emitConcrete rawStep scope sourceFile index s = .ok (r, s'))
  | enter {use : UseDef} {scope : ExpansionScope} {fragment : LocatedFragment}
      {fullAlias useLabel : String} {arguments : List (String × Argument)}
      (h : enterUse use scope fragment fullAlias useLabel s = .ok (arguments, s'))
  | leave {use : UseDef} {scope : ExpansionScope} {fragment : LocatedFragment}
      {fullAlias useLabel : String} {insertionIndex : ℕ} {outputs : List (String × String)}
      (nested : ∀ u ∈ s.instances, insertionIndex ≤ u.first ∨ u.last ≤ insertionIndex)
      (h : leaveUse use scope fragment fullAlias useLabel insertionIndex outputs s = .ok ((), s'))

/-- An expansion is made of transitions. -/
abbrev Transitions : ScenarioResolver → ScenarioResolver → Prop := Relation.ReflTransGen Transition

/-- The instances do not reach beyond the steps. -/
def ScenarioResolver.Within (s : ScenarioResolver) : Prop :=
  ∀ u ∈ s.instances, u.last ≤ s.expandedSteps.length

/-- An expansion by transitions whose instances are made of its own steps. -/
structure Expands (s s' : ScenarioResolver) : Prop where
  transitions : Transitions s s'
  length : s.expandedSteps.length ≤ s'.expandedSteps.length
  late : ∀ u ∈ s'.instances, u ∈ s.instances ∨ s.expandedSteps.length ≤ u.first
  within : s.Within → s'.Within

theorem Expands.refl (s : ScenarioResolver) : Expands s s :=
  ⟨.refl, Nat.le_refl _, fun _ hu => Or.inl hu, id⟩

theorem Expands.trans {s₁ s₂ s₃ : ScenarioResolver} (h : Expands s₁ s₂) (h' : Expands s₂ s₃) :
    Expands s₁ s₃ where
  transitions := h.transitions.trans h'.transitions
  length := h.length.trans h'.length
  late u hu := by
    rcases h'.late u hu with hold | hnew
    · exact h.late u hold
    · exact Or.inr (h.length.trans hnew)
  within hs := h'.within (h.within hs)

/-- Where no instance is added, the steps may only become more. -/
theorem Expands.of_transition {s s' : ScenarioResolver} (h : Transition s s')
    (hinstances : s'.instances = s.instances)
    (hlength : s.expandedSteps.length ≤ s'.expandedSteps.length) : Expands s s' where
  transitions := .single h
  length := hlength
  late _ hu := Or.inl (hinstances ▸ hu)
  within hs u hu := (hs u (hinstances ▸ hu)).trans hlength

theorem Expands.emit {rawStep : Yaml} {scope : ExpansionScope} {source : String} {index : ℕ}
    {r : Option (String × String)} {s s' : ScenarioResolver} (hvalid : scope.Valid)
    (h : emitConcrete rawStep scope source index s = .ok (r, s')) : Expands s s' := by
  refine .of_transition (.emit hvalid h) ?_ ?_ <;>
    obtain ⟨_, _, _, _, _, _, _, value, _, -, -, -, -, -, -, -, -, rfl⟩ := emitConcrete_ok h
  · rfl
  · simp

theorem Expands.enter {use : UseDef} {scope : ExpansionScope} {fragment : LocatedFragment}
    {fullAlias useLabel : String} {arguments : List (String × Argument)} {s s' : ScenarioResolver}
    (h : enterUse use scope fragment fullAlias useLabel s = .ok (arguments, s')) : Expands s s' := by
  refine .of_transition (.enter h) ?_ ?_ <;>
    obtain ⟨_, _, -, -, -, -, rfl⟩ := enterUse_ok h
  · rfl
  · exact Nat.le_refl _

/-- What was added since the use was entered is left with it. -/
theorem Expands.leave {use : UseDef} {scope : ExpansionScope} {fragment : LocatedFragment}
    {fullAlias useLabel : String} {outputs : List (String × String)} {s s₂ s' : ScenarioResolver}
    (hwithin : s.Within) (hbody : Expands s s₂)
    (h : leaveUse use scope fragment fullAlias useLabel s.expandedSteps.length outputs s₂ =
      .ok ((), s')) : Expands s s' := by
  have hnested : ∀ u ∈ s₂.instances,
      s.expandedSteps.length ≤ u.first ∨ u.last ≤ s.expandedSteps.length := by
    intro u hu
    exact (hbody.late u hu).symm.imp_right (hwithin u)
  have htransitions := hbody.transitions.tail (.leave hnested h)
  obtain ⟨after, -, hafter, rfl⟩ := leaveUse_ok h
  have hlength : (s₂.expandedSteps.take s.expandedSteps.length ++ after).length =
      s₂.expandedSteps.length := by
    rw [List.length_append, List.length_take, addDependenciesToRoots_length hafter,
      List.length_drop, Nat.min_eq_left hbody.length, Nat.add_sub_cancel' hbody.length]
  refine ⟨htransitions, by rw [hlength]; exact hbody.length, ?_, fun _ => ?_⟩
  · intro u hu
    rcases List.mem_append.1 hu with hold | hnew
    · exact hbody.late u hold
    · rw [List.mem_singleton.1 hnew]
      exact Or.inr (Nat.le_refl _)
  · intro u hu
    rw [hlength]
    rcases List.mem_append.1 hu with hold | hnew
    · exact hbody.within hwithin u hold
    · rw [List.mem_singleton.1 hnew, Instance.last, List.length_map, List.length_drop,
        Nat.add_sub_cancel' hbody.length]

theorem expandSteps_expands {expandUse : ExpandUse} {scope : ExpansionScope} {source : String}
    (hvalid : scope.Valid)
    (hnested : ∀ use index s outputs s', blank use.aliasName = false → '.' ∉ use.aliasName.toList →
      s.Within → expandUse use scope source index s = .ok (outputs, s') → Expands s s')
    {steps : List Yaml} {index : ℕ} {saves saves' : List (String × String)} {s s' : ScenarioResolver}
    (hwithin : s.Within)
    (h : expandSteps expandUse scope source steps index saves s = .ok (saves', s')) :
    Expands s s' := by
  induction steps generalizing index saves s with
  | nil =>
      obtain ⟨-, rfl⟩ := Expand.pure_ok.1 h
      exact .refl s
  | cons step steps ih =>
      obtain ⟨between, s₁, hstep, hrest⟩ := Expand.bind_ok.1 h
      have hfirst : Expands s s₁ := by
        rcases expandStep_ok hstep with ⟨label, use, nested, hparse, huse, -⟩ | ⟨_, r, -, hemit, -⟩
        · exact hnested use index s nested s₁ (parseUse_ok hparse).1 (parseUse_ok hparse).2 hwithin huse
        · exact .emit hvalid hemit
      exact hfirst.trans (ih (hfirst.within hwithin) hrest)

/-- By induction on the fuel: a use is entered, its steps are expanded, and it is left. -/
theorem expandUse_expands {fuel : ℕ} {use : UseDef} {scope : ExpansionScope} {source : String}
    {index : ℕ} {outputs : List (String × String)} {s s' : ScenarioResolver} (hvalid : scope.Valid)
    (hname : blank use.aliasName = false) (hdot : '.' ∉ use.aliasName.toList) (hwithin : s.Within)
    (h : expandUse fuel use scope source index s = .ok (outputs, s')) : Expands s s' := by
  induction fuel generalizing use scope source index outputs s s' with
  | zero => exact absurd h Expand.fail_ok
  | succ fuel ih =>
      obtain ⟨depth, fragment, useLabel, arguments, s₁, s₂, hfuel, -, henter, hbody, hleave⟩ :=
        expandUse_ok h
      obtain rfl : fuel = depth := by omega
      obtain ⟨names, saves, -, hsteps, -⟩ := expandFragment_ok hbody
      have hinstance : (instanceScope fragment (joinPath scope.aliasPrefix use.aliasName) arguments
          names).Valid := by
        intro a ha
        obtain rfl := Option.some.inj ha
        rw [components_joinPath _ hdot, List.mem_append, not_or]
        refine ⟨?_, by simpa using (nonempty_of_not_blank hname).symm⟩
        cases halias : scope.aliasPrefix with
        | none => exact List.not_mem_nil
        | some a => exact hvalid a halias
      have hentered := Expands.enter henter
      have hmiddle := expandSteps_expands hinstance
        (fun use index s outputs s' hname hdot hwithin h => ih hinstance hname hdot hwithin h)
        (hentered.within hwithin) hsteps
      exact .leave hwithin (hentered.trans hmiddle) hleave

theorem expandRoot_expands {fuel : ℕ} {source : String} {steps : List Yaml} {index : ℕ}
    {s s' : ScenarioResolver} (hwithin : s.Within)
    (h : expandRoot fuel source steps index s = .ok ((), s')) : Expands s s' := by
  induction steps generalizing index s with
  | nil =>
      obtain ⟨-, rfl⟩ := Expand.pure_ok.1 h
      exact .refl s
  | cons step steps ih =>
      have hvalid : ExpansionScope.Valid {} := nofun
      simp only [expandRoot, Expand.bind_ok, Expand.get_ok, Expand.lift_ok] at h
      obtain ⟨_, _, ⟨rfl, rfl⟩, use?, _, ⟨hparse, rfl⟩, h⟩ := h
      cases use? with
      | some use =>
          obtain ⟨_, s₁, huse, hrest⟩ := Expand.bind_ok.1 h
          obtain ⟨outputs, huse⟩ := Expand.discard_ok.1 huse
          have hfirst :=
            expandUse_expands hvalid (parseUse_ok hparse).1 (parseUse_ok hparse).2 hwithin huse
          exact hfirst.trans (ih (hfirst.within hwithin) hrest)
      | none =>
          obtain ⟨_, s₁, hemit, hrest⟩ := Expand.bind_ok.1 h
          obtain ⟨r, hemit⟩ := Expand.discard_ok.1 hemit
          have hfirst := Expands.emit hvalid hemit
          exact hfirst.trans (ih (hfirst.within hwithin) hrest)

theorem within_init (fragments : List (String × LocatedFragment)) :
    ScenarioResolver.Within { fragments } := fun _ hu => absurd hu List.not_mem_nil

end Composition

end TxGen
