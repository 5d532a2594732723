import TxGen.Composition.Document
import TxGen.Scenario.Validation

set_option autoImplicit false

/-! # Expanding fragments

`ScenarioResolver` replaces every `use` by the steps of its fragment, one level of nesting after the
other. The depth of the recursion is bounded by `fuel`, which the code does not have: `unfinished` is no
error of the code. -/

namespace TxGen.Composition

structure ExpandedStep where
  value : Yaml
  provenance : Option StepProvenance
  diagnostic : String
  /-- the references in the value -/
  references : List Reference

structure ParameterCheck where
  stepIndex : ℕ
  expression : Yaml
  expected : String
  label : String

structure SaveOrigin where
  stepIndex : ℕ
  label : String

/-- A use that was expanded: what the code knows of it when it adds the dependencies to the roots of
    its steps, which begin at `first`. No code reads it later. -/
structure Instance where
  fullAlias : String
  fragment : String
  first : ℕ
  dependencies : List String
  before : List Yaml
  after : List Yaml

structure ScenarioResolver where
  fragments : List (String × LocatedFragment) := []
  aliases : List (String × String) := []
  aliasOutputs : List (String × List String) := []
  saves : List (String × SaveOrigin) := []
  fragmentStack : List String := []
  usedFragments : List String := []
  expandedSteps : List ExpandedStep := []
  parameterChecks : List ParameterCheck := []
  outputReferenceChecks : List OutputReferenceCheck := []
  instances : List Instance := []

inductive ExpandError
  | report (e : Report)
  /-- "recursive scenario fragment at …" -/
  | recursion (useLabel : String) (cycle : List String)
  | unfinished

def ExpandError.text : ExpandError → Report
  | .report e => e
  | .recursion useLabel cycle =>
    let cycle := String.intercalate " -> " cycle
    [s!"recursive scenario fragment at {useLabel}: {cycle}"]
  | .unfinished => []

/-- A step of an expansion. -/
def Expand (α : Type) : Type := ScenarioResolver → Except ExpandError (α × ScenarioResolver)

namespace Expand

instance : Monad Expand where
  pure a := fun s => .ok (a, s)
  bind x f := fun s =>
    match x s with
    | .ok (a, s) => f a s
    | .error e => .error e

instance : MonadLift (Except Report) Expand where
  monadLift result := fun s =>
    match result with
    | .ok a => .ok (a, s)
    | .error e => .error (.report e)

def get : Expand ScenarioResolver := fun s => .ok (s, s)

def modify (f : ScenarioResolver → ScenarioResolver) : Expand Unit := fun s => .ok ((), f s)

def fail {α : Type} (e : ExpandError) : Expand α := fun _ => .error e

variable {α β : Type} {s s' : ScenarioResolver}

theorem bind_ok {x : Expand α} {f : α → Expand β} {b : β} :
    (x >>= f) s = .ok (b, s') ↔ ∃ a s₁, x s = .ok (a, s₁) ∧ f a s₁ = .ok (b, s') := by
  show (match x s with
    | .ok (a, s) => f a s
    | .error e => .error e) = _ ↔ _
  cases hx : x s with
  | error e => simp
  | ok r =>
      obtain ⟨a, s₁⟩ := r
      simp

theorem bind_error {x : Expand α} {f : α → Expand β} {e : ExpandError} :
    (x >>= f) s = .error e ↔ x s = .error e ∨ ∃ a s₁, x s = .ok (a, s₁) ∧ f a s₁ = .error e := by
  show (match x s with
    | .ok (a, s) => f a s
    | .error e => .error e) = _ ↔ _
  cases hx : x s with
  | error e' => simp
  | ok r =>
      obtain ⟨a, s₁⟩ := r
      simp

@[simp] theorem pure_ok {a b : α} : (pure a : Expand α) s = .ok (b, s') ↔ a = b ∧ s = s' := by
  show (.ok (a, s) : Except ExpandError (α × ScenarioResolver)) = .ok (b, s') ↔ _
  simp

@[simp] theorem pure_error {a : α} {e : ExpandError} : (pure a : Expand α) s ≠ .error e := nofun

@[simp] theorem lift_ok {result : Except Report α} {a : α} :
    (liftM result : Expand α) s = .ok (a, s') ↔ result = .ok a ∧ s = s' := by
  show (match result with
    | .ok a => .ok (a, s)
    | .error e => .error (.report e) : Except ExpandError (α × ScenarioResolver)) = _ ↔ _
  cases result <;> simp

theorem lift_error {result : Except Report α} {e : ExpandError} :
    (liftM result : Expand α) s = .error e ↔ ∃ r, result = .error r ∧ e = .report r := by
  show (match result with
    | .ok a => .ok (a, s)
    | .error e => .error (.report e) : Except ExpandError (α × ScenarioResolver)) = _ ↔ _
  cases result <;> simp [eq_comm]

@[simp] theorem get_ok {t : ScenarioResolver} : get s = .ok (t, s') ↔ s = t ∧ s = s' := by
  simp [get]

@[simp] theorem get_error {e : ExpandError} : get s ≠ .error e := nofun

@[simp] theorem modify_ok {f : ScenarioResolver → ScenarioResolver} {u : Unit} :
    modify f s = .ok (u, s') ↔ s' = f s := by
  simp [modify, eq_comm]

@[simp] theorem modify_error {f : ScenarioResolver → ScenarioResolver} {e : ExpandError} :
    modify f s ≠ .error e := nofun

@[simp] theorem fail_ok {e : ExpandError} {a : α} : (fail e : Expand α) s ≠ .ok (a, s') := nofun

@[simp] theorem fail_error {e e' : ExpandError} : (fail e : Expand α) s = .error e' ↔ e = e' := by
  simp [fail]

theorem discard_ok {x : Expand α} {u : Unit} :
    (discard x : Expand Unit) s = .ok (u, s') ↔ ∃ a, x s = .ok (a, s') := by
  show (x >>= fun _ => pure ()) s = .ok (u, s') ↔ _
  simp [bind_ok]

theorem discard_error {x : Expand α} {e : ExpandError} :
    (discard x : Expand Unit) s = .error e ↔ x s = .error e := by
  show (x >>= fun _ => pure ()) s = .error e ↔ _
  simp [bind_error]

end Expand

open Expand

/-! ## Concrete steps -/

/-- The save that a new one is at, above or below. -/
def conflictingSave (save : String) (saves : List (String × SaveOrigin)) :
    Option (String × SaveOrigin) :=
  saves.find? fun other => startsWith save (other.1 ++ ".") || startsWith other.1 (save ++ ".")

/-- The check of a save, at step `stepIndex`. -/
def checkNewSave (save label : String) (stepIndex : ℕ) (saves : List (String × SaveOrigin)) :
    Except Report Unit :=
  match OrdMap.get? save saves with
  | some previous =>
    bail s!"duplicate save name '{save}' at expanded steps {previous.stepIndex + 1} ({previous.label}) and {stepIndex + 1} ({label})"
  | none =>
    match conflictingSave save saves with
    | some (other, origin) =>
      bail s!"save path '{save}' at expanded step {stepIndex + 1} ({label}) conflicts with save path '{other}' at expanded step {origin.stepIndex + 1} ({origin.label})"
    | none => .ok ()

def registerSave (save label : String) : Expand Unit := do
  let s ← get
  checkNewSave save label s.expandedSteps.length s.saves
  modify fun s => { s with saves := OrdMap.set save ⟨s.expandedSteps.length, label⟩ s.saves }

/-- The ID and the dependencies of a step of a fragment become those of the instance. -/
def qualifyStep (scope : ExpansionScope) (fullAlias : String) (localId : Option String)
    (label : String) (value : Yaml) : Except Report Yaml := do
  let value ← match localId with
    | none => pure value
    | some id => do
      wrapErr (validateComponent id "fragment-local step ID") s!"invalid {label}"
      setStepId s!"{fullAlias}.{id}" label value
  match ← stepDependencies value label with
  | none => return value
  | some dependencies => setStepDependencies (qualifyDependencies dependencies scope) label value

def stepProvenance (scope : ExpansionScope) (sourceFile : String) (localStepIndex : ℕ)
    (action : String) (localSave localId : Option String) : Option StepProvenance :=
  match scope.fragment, scope.aliasPrefix with
  | some fragment, some instanceAlias => some {
    sourceFile
    fragment
    instanceAlias
    localStepName := (localSave.or localId).getD s!"step_{localStepIndex + 1}_{action}"
    localStepIndex }
  | _, _ => none

/-- The save of a step of a fragment is below the alias of the instance. -/
def qualifySave (scope : ExpansionScope) (save label : String) (value : Yaml) :
    Except Report (String × Yaml) :=
  match scope.aliasPrefix with
  | some a => do
    wrapErr (validateComponent save "fragment-local save") s!"invalid {label}"
    let full := s!"{a}.{save}"
    return (full, ← setStepSave full label value)
  | none => do
    wrapErr (validatePath save "scenario save") s!"invalid {label}"
    return (save, value)

/-- Register the save of a step, if it has one. -/
def saveStep (scope : ExpansionScope) (localSave : Option String) (label : String) (value : Yaml) :
    Expand Yaml :=
  match localSave with
  | none => pure value
  | some save => do
    let (full, value) ← qualifySave scope save label value
    registerSave full label
    return value

/-- `qualifyStep` for the steps of a fragment only. -/
def qualifyIn (scope : ExpansionScope) (localId : Option String) (label : String) (value : Yaml) :
    Except Report Yaml :=
  match scope.aliasPrefix with
  | none => .ok value
  | some fullAlias => qualifyStep scope fullAlias localId label value

def emitConcrete (rawStep : Yaml) (scope : ExpansionScope) (sourceFile : String)
    (localStepIndex : ℕ) : Expand (Option (String × String)) := do
  let s ← get
  let label := expandedStepLabel sourceFile localStepIndex s.expandedSteps.length scope
  let (transformed, checks) ← transformValue scope label rawStep
  modify fun s => { s with outputReferenceChecks := s.outputReferenceChecks ++ checks }
  let action ← concreteAction transformed.value label
  let localSave ← stepSave transformed.value label
  let localId ← stepId transformed.value label
  let value ← qualifyIn scope localId label transformed.value
  let value ← saveStep scope localSave label value
  modify fun s => { s with expandedSteps := s.expandedSteps ++ [{
    value
    provenance := stepProvenance scope sourceFile localStepIndex action localSave localId
    diagnostic := label
    references := transformed.references }] }
  return localSave.map fun save => (save, outputKindForAction action)

/-! ## Uses -/

/-- The IDs of the steps. -/
def stepIds : List ExpandedStep → Except Report (List String)
  | [] => .ok []
  | step :: steps => do
    let id ← stepId step.value step.diagnostic
    return id.toList ++ (← stepIds steps)

/-- Add the dependencies to a step, unless it depends on another step of the instance. -/
def addDependencies (fragmentStepIds dependencies : List String) (step : ExpandedStep) :
    Except Report ExpandedStep := do
  let own := (← stepDependencies step.value step.diagnostic).getD []
  if own.any (· ∈ fragmentStepIds) then return step
  else
    let combined := own ++ dependencies.filter (· ∉ own)
    return { step with value := ← setStepDependencies combined step.diagnostic step.value }

def addDependenciesToRoots (dependencies : List String) (useLabel : String)
    (steps : List ExpandedStep) : Except Report (List ExpandedStep) :=
  if dependencies = [] then .ok steps
  else do
    bailIf (steps = []) s!"{useLabel} configures `depends_on` but expands to no concrete steps"
    let fragmentStepIds ← stepIds steps
    steps.mapM (addDependencies fragmentStepIds dependencies)

def transformArguments (use : UseDef) (scope : ExpansionScope) (useLabel : String)
    (insertionIndex : ℕ) : List (String × String) →
    Except Report (List (String × Argument) × List OutputReferenceCheck × List ParameterCheck)
  | [] => .ok ([], [], [])
  | (name, expected) :: rest => do
    let label := s!"{useLabel} parameter '{name}'"
    let (transformed, checks) ←
      transformValue scope label ((OrdMap.get? name use.arguments).getD .null)
    let (arguments, checks', parameterChecks) ←
      transformArguments use scope useLabel insertionIndex rest
    return (OrdMap.set name transformed arguments, checks ++ checks',
      { stepIndex := insertionIndex, expression := transformed.value, expected, label } ::
        parameterChecks)

/-- The parameters of the fragment are the arguments of the use. -/
def checkArguments (fragment : LocatedFragment) (use : UseDef) (useLabel : String) :
    Except Report Unit := do
  let expected := fragment.definition.parameters.map Prod.fst
  let supplied := use.arguments.map Prod.fst
  let missing := expected.filter (· ∉ supplied)
  let unknown := supplied.filter (· ∉ expected)
  bailIf (missing ≠ []) (useLabel ++ " is missing required parameter(s): " ++
    String.intercalate ", " missing)
  bailIf (unknown ≠ []) (useLabel ++ " supplies unknown parameter(s): " ++
    String.intercalate ", " unknown)

def useContext (scope : ExpansionScope) : String :=
  match scope.fragment, scope.aliasPrefix with
  | some fragment, some instanceAlias =>
    s!" while expanding fragment '{fragment}' instance '{instanceAlias}'"
  | _, _ => ""

/-- The declared outputs, each of which must be a save of its kind. -/
def declaredOutputs (useLabel : String) (accessibleSaves : List (String × String)) :
    List (String × String) → Except Report (List (String × String))
  | [] => .ok []
  | (name, expectedKind) :: rest =>
    match OrdMap.get? name accessibleSaves with
    | none => bail s!"{useLabel} declares output '{name}' but produces no accessible save with that name"
    | some actualKind => do
      bailIf (actualKind ≠ expectedKind)
        s!"{useLabel} declares output '{name}' as '{expectedKind}', but the save has type '{actualKind}'"
      return (name, actualKind) :: (← declaredOutputs useLabel accessibleSaves rest)

/-- How a nested use is expanded. -/
abbrev ExpandUse := UseDef → ExpansionScope → String → ℕ → Expand (List (String × String))

/-- One step of a fragment, and the saves that its outputs may name. -/
def expandStep (expandUse : ExpandUse) (scope : ExpansionScope) (sourceFile : String) (index : ℕ)
    (step : Yaml) (accessibleSaves : List (String × String)) : Expand (List (String × String)) := do
  let s ← get
  let label := expandedStepLabel sourceFile index s.expandedSteps.length scope
  match ← parseUse step label with
  | some use =>
    let nested ← expandUse use scope sourceFile index
    return nested.foldl
      (fun saves (name, kind) => OrdMap.set s!"{use.aliasName}.{name}" kind saves) accessibleSaves
  | none =>
    match ← emitConcrete step scope sourceFile index with
    | none => return accessibleSaves
    | some (name, kind) => return OrdMap.set name kind accessibleSaves

def expandSteps (expandUse : ExpandUse) (scope : ExpansionScope) (sourceFile : String) :
    List Yaml → ℕ → List (String × String) → Expand (List (String × String))
  | [], _, accessibleSaves => pure accessibleSaves
  | step :: steps, index, accessibleSaves => do
    let accessibleSaves ← expandStep expandUse scope sourceFile index step accessibleSaves
    expandSteps expandUse scope sourceFile steps (index + 1) accessibleSaves

def instanceScope (fragment : LocatedFragment) (fullAlias : String)
    (parameters : List (String × Argument)) (names : FragmentScope) : ExpansionScope where
  aliasPrefix := some fullAlias
  parameters
  localRoots := names.roots
  localAliases := names.aliases
  localStepIds := names.stepIds
  fragment := some fragment.name

def expandFragment (expandUse : ExpandUse) (fragment : LocatedFragment) (useLabel fullAlias : String)
    (parameters : List (String × Argument)) : Expand (List (String × String)) := do
  let names ← validateFragmentScope fragment
  let scope := instanceScope fragment fullAlias parameters names
  let accessibleSaves ← expandSteps expandUse scope fragment.sourceFile fragment.definition.steps 0 []
  declaredOutputs useLabel accessibleSaves fragment.definition.outputs

/-- What is noted of a use before its fragment is expanded: the alias, the arguments and their checks. -/
def enterUse (use : UseDef) (scope : ExpansionScope) (fragment : LocatedFragment)
    (fullAlias useLabel : String) : Expand (List (String × Argument)) := do
  let s ← get
  match OrdMap.get? fullAlias s.aliases with
  | some previous =>
    liftM (bail s!"duplicate scenario fragment alias '{fullAlias}' at {useLabel}; first declared at {previous}" :
      Except Report Unit)
  | none => pure ()
  checkArguments fragment use useLabel
  let (arguments, checks, parameterChecks) ←
    transformArguments use scope useLabel s.expandedSteps.length fragment.definition.parameters
  modify fun s => { s with
    usedFragments := s.usedFragments ++ [fragment.name]
    aliases := OrdMap.set fullAlias useLabel s.aliases
    outputReferenceChecks := s.outputReferenceChecks ++ checks
    parameterChecks := s.parameterChecks ++ parameterChecks }
  if fragment.name ∈ s.fragmentStack then
    fail (.recursion useLabel (s.fragmentStack.dropWhile (· ≠ fragment.name) ++ [fragment.name]))
  else
    modify fun s => { s with fragmentStack := s.fragmentStack ++ [fragment.name] }
    return arguments

/-- What is noted when the fragment is expanded: the roots of its steps wait for the dependencies. -/
def leaveUse (use : UseDef) (scope : ExpansionScope) (fragment : LocatedFragment)
    (fullAlias useLabel : String) (insertionIndex : ℕ) (outputs : List (String × String)) :
    Expand Unit := do
  modify fun s => { s with fragmentStack := s.fragmentStack.dropLast }
  let dependencies := qualifyDependencies use.dependsOn scope
  validateDependencyList dependencies useLabel
  let s ← get
  let steps := s.expandedSteps.drop insertionIndex
  let after ← addDependenciesToRoots dependencies useLabel steps
  modify fun s => { s with
    expandedSteps := s.expandedSteps.take insertionIndex ++ after
    aliasOutputs := OrdMap.set fullAlias (outputs.map Prod.fst) s.aliasOutputs
    instances := s.instances ++ [{
      fullAlias
      fragment := fragment.name
      first := insertionIndex
      dependencies
      before := steps.map ExpandedStep.value
      after := after.map ExpandedStep.value }] }

/-- The recursion goes as deep as the fuel. -/
def expandUse : ℕ → ExpandUse
  | 0, _, _, _, _ => fail .unfinished
  | fuel + 1, use, scope, declaringSource, localStepIndex => do
    let s ← get
    let insertionIndex := s.expandedSteps.length
    let fullAlias := joinPath scope.aliasPrefix use.aliasName
    match OrdMap.get? use.fragment s.fragments with
    | none =>
      liftM (bail s!"expanded step {insertionIndex + 1} at {stepLabel declaringSource localStepIndex} uses unknown scenario fragment '{use.fragment}' as instance '{fullAlias}'{useContext scope}" :
        Except Report (List (String × String)))
    | some fragment =>
      let useLabel :=
        s!"expanded step {insertionIndex + 1} at {stepLabel declaringSource localStepIndex} uses fragment '{fragment.name}' declared in '{fragment.sourceFile}' as instance '{fullAlias}'"
      let arguments ← enterUse use scope fragment fullAlias useLabel
      let outputs ← expandFragment (expandUse fuel) fragment useLabel fullAlias arguments
      leaveUse use scope fragment fullAlias useLabel insertionIndex outputs
      return outputs

/-! ## The fragment library and the outputs -/

/-- A path at or below an alias goes through one of its outputs. -/
def visibleOutput (outputs : List String) (boundaryAlias path : String) : Bool :=
  match (stripPrefix path boundaryAlias).bind (stripPrefix · ".") with
  | none => false
  | some tail => outputs.any fun output =>
    tail = output || (stripPrefix tail output).any fun tail => startsWith tail "."

def validateOutputReference (aliasOutputs : List (String × List String))
    (check : OutputReferenceCheck) : Except Report Unit :=
  match OrdMap.get? check.boundaryAlias aliasOutputs with
  | none => .ok ()
  | some outputs =>
    let available := if outputs = [] then "none" else String.intercalate ", " outputs
    bailIf (visibleOutput outputs check.boundaryAlias check.path = false)
      s!"{check.label} references private or unknown output '{check.path}' of fragment instance '{check.boundaryAlias}'; declared outputs: {available}"

def ScenarioResolver.validateOutputReferences (s : ScenarioResolver) : Except Report Unit :=
  s.outputReferenceChecks.forM (validateOutputReference s.aliasOutputs)

/-- Expand a fragment that is not used, with nothing for its parameters. -/
def validateFragment (fuel : ℕ) (fragments : List (String × LocatedFragment))
    (fragment : LocatedFragment) (index : ℕ) : Except ExpandError Unit := do
  let fragmentAlias := s!"__fragment_definition_{index}"
  let label := s!"fragment '{fragment.name}' declared in '{fragment.sourceFile}'"
  let parameters := fragment.definition.parameters.map fun (name, _) =>
    (name, ({ value := .null } : Argument))
  let validator : ScenarioResolver := {
    fragments
    fragmentStack := [fragment.name]
    aliases := [(fragmentAlias, label)] }
  let (outputs, validator) ←
    expandFragment (expandUse fuel) fragment label fragmentAlias parameters validator
  ({ validator with
    aliasOutputs := OrdMap.set fragmentAlias (outputs.map Prod.fst) validator.aliasOutputs
    : ScenarioResolver }.validateOutputReferences).mapError .report

def validateFragments (fuel : ℕ) (s : ScenarioResolver) :
    List (String × LocatedFragment) → ℕ → Except ExpandError Unit
  | [], _ => .ok ()
  | (_, fragment) :: rest, index => do
    if fragment.name ∈ s.usedFragments then pure ()
    else validateFragment fuel s.fragments fragment index
    validateFragments fuel s rest (index + 1)

def ScenarioResolver.validateFragmentLibrary (fuel : ℕ) (s : ScenarioResolver) :
    Except ExpandError Unit := validateFragments fuel s s.fragments 0

end TxGen.Composition
