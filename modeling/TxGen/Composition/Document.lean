import TxGen.Scenario.Paths
import TxGen.Scenario.Schema

set_option autoImplicit false

/-! # Composed scenario documents

The untyped form of a scenario: its steps, some of which instantiate a fragment (`use`), and the
fragments, which have parameters, outputs and steps of their own. Everything here reads or rewrites one
step; `{ var: path }` and `{ param: name }` are rewritten by `transformValue`. -/

namespace TxGen

namespace Yaml

/-- `Mapping::insert` with a string key: a key keeps its place. -/
def insert (key : String) (value : Yaml) : List (Yaml × Yaml) → List (Yaml × Yaml)
  | [] => [(.string key, value)]
  | e :: entries =>
    if e.1 = .string key then (e.1, value) :: entries else e :: insert key value entries

/-- `Mapping::remove`: the last entry takes the place of the one that is removed. -/
def swapRemove (key : String) (entries : List (Yaml × Yaml)) : List (Yaml × Yaml) :=
  match entries.findIdx? fun e => e.1 = .string key, entries.getLast? with
  | some i, some last => (entries.set i last).dropLast
  | _, _ => entries

end Yaml

namespace Composition

/-! ## Steps -/

/-- A field of a step that must be a string. -/
def stepString (field : String) (value : Yaml) (label : String) : Except Report (Option String) :=
  match value with
  | .mapping entries =>
    match Yaml.get entries field with
    | none => .ok none
    | some (.string s) => .ok (some s)
    | some _ => bail s!"{label} `{field}` must be a string"
  | _ => bail s!"{label} scenario step must be a mapping"

def stepSave (value : Yaml) (label : String) : Except Report (Option String) :=
  stepString "save" value label

def stepId (value : Yaml) (label : String) : Except Report (Option String) :=
  stepString "id" value label

def dependencyIds (label : String) : List Yaml → Except Report (List String)
  | [] => .ok []
  | .string id :: rest => do return id :: (← dependencyIds label rest)
  | _ :: _ => bail s!"{label} dependency IDs must be strings"

def stepDependencies (value : Yaml) (label : String) : Except Report (Option (List String)) :=
  match value with
  | .mapping entries =>
    match Yaml.get entries "depends_on" with
    | none => .ok none
    | some (.sequence ids) => do return some (← dependencyIds label ids)
    | some _ => bail s!"{label} `depends_on` must be a sequence"
  | _ => bail s!"{label} scenario step must be a mapping"

def setField (field : String) (value : Yaml) (label : String) (step : Yaml) : Except Report Yaml :=
  match step with
  | .mapping entries => .ok (.mapping (Yaml.insert field value entries))
  | _ => bail s!"{label} scenario step must be a mapping"

def setStepSave (save label : String) : Yaml → Except Report Yaml := setField "save" (.string save) label

def setStepId (id label : String) : Yaml → Except Report Yaml := setField "id" (.string id) label

def setStepDependencies (dependencies : List String) (label : String) : Yaml → Except Report Yaml :=
  setField "depends_on" (.sequence (dependencies.map .string)) label

/-- The keys of a step that is not a use, apart from its action. -/
def metadataKeys : List String := ["id", "depends_on", "save", "timeout"]

def actionKeys : List String := ["checkpoint", "invoke", "submit", "wait_receipt", "wait_log"]

def concreteAction (value : Yaml) (label : String) : Except Report String :=
  match value with
  | .mapping entries =>
    match (entries.filterMap fun e => e.1.asStr).filter (· ∉ metadataKeys) with
    | [action] =>
      if action ∈ actionKeys then .ok action
      else bail s!"{label} has unknown scenario step action '{action}'"
    | _ =>
      bail s!"{label} scenario step must contain exactly one of `checkpoint`, `invoke`, `submit`, `wait_receipt`, or `wait_log`"
  | _ => bail s!"{label} scenario step must be a mapping"

def outputKindForAction : String → String
  | "wait_receipt" => "receipt"
  | "wait_log" => "log"
  | action => action

/-! ## Labels -/

def stepLabel (sourceFile : String) (localStepIndex : ℕ) : String :=
  s!"step {localStepIndex + 1} in '{sourceFile}'"

def joinPath (alias? : Option String) (component : String) : String :=
  match alias? with
  | none => component
  | some a => s!"{a}.{component}"

/-! ## Fragments -/

structure RawFragment where
  parameters : List (String × String) := []
  outputs : List (String × String) := []
  steps : List Yaml

structure LocatedFragment where
  name : String
  definition : RawFragment
  sourceFile : String

structure UseDef where
  fragment : String
  aliasName : String
  arguments : List (String × Yaml)
  dependsOn : List String

structure FragmentScope where
  roots : List String := []
  aliases : List String := []
  stepIds : List String := []

def validateDependencies (label : String) : List String → List String → Except Report Unit
  | _, [] => .ok ()
  | seen, dependency :: rest => do
    wrapErr (validatePath dependency "dependency ID") s!"invalid {label} dependency"
    bailIf (dependency ∈ seen) s!"{label} lists duplicate dependency '{dependency}'"
    validateDependencies label (seen ++ [dependency]) rest

def validateDependencyList (dependencies : List String) (label : String) : Except Report Unit :=
  validateDependencies label [] dependencies

/-- The keys of a use other than those it may have. -/
def unknownUseKeys (label : String) : List (Yaml × Yaml) → Except Report (List String)
  | [] => .ok []
  | (.string key, _) :: rest => do
    let unknown ← unknownUseKeys label rest
    return if key ∈ ["use", "as", "with", "depends_on"] then unknown else key :: unknown
  | _ :: _ => bail s!"{label} composition keys must be strings"

def parseArguments (label : String) :
    List (Yaml × Yaml) → List (String × Yaml) → Except Report (List (String × Yaml))
  | [], parsed => .ok parsed
  | (.string name, value) :: rest, parsed => parseArguments label rest (OrdMap.set name value parsed)
  | _ :: _, _ => bail s!"{label} fragment parameter names must be strings"

def useArguments (entries : List (Yaml × Yaml)) (label : String) :
    Except Report (List (String × Yaml)) :=
  match Yaml.get entries "with" with
  | none => .ok []
  | some (.mapping arguments) => parseArguments label arguments []
  | some _ => bail s!"{label} fragment `with` must be a parameter mapping"

/-- A required string of a use. -/
def useString (entries : List (Yaml × Yaml)) (key message : String) : Except Report String :=
  match (Yaml.get entries key).bind Yaml.asStr with
  | some s => .ok s
  | none => bail message

def useDef (value : Yaml) (entries : List (Yaml × Yaml)) (label : String) : Except Report UseDef := do
  let unknown ← unknownUseKeys label entries
  bailIf (unknown ≠ []) (label ++ " fragment use contains unknown field(s): " ++
    String.intercalate ", " (sortedSet unknown))
  let fragment ← useString entries "use" s!"{label} `use` must name a fragment with a string"
  wrapErr (validateName fragment "fragment") s!"invalid {label}"
  let aliasName ← useString entries "as" s!"{label} fragment use requires string field `as`"
  wrapErr (validateComponent aliasName "fragment alias") s!"invalid {label}"
  let arguments ← useArguments entries label
  let dependsOn := (← stepDependencies value label).getD []
  validateDependencyList dependsOn label
  return { fragment, aliasName, arguments, dependsOn }

def parseUse (value : Yaml) (label : String) : Except Report (Option UseDef) :=
  match value with
  | .mapping entries =>
    if Yaml.containsKey entries "use" then do return some (← useDef value entries label)
    else .ok none
  | _ => .ok none

/-- What the steps before have declared in a fragment, with where they did. -/
structure LocalNames where
  roots : List (String × String) := []
  aliases : List String := []
  stepIds : List (String × String) := []

def LocalNames.scope (names : LocalNames) : FragmentScope where
  roots := names.roots.map Prod.fst
  aliases := names.aliases
  stepIds := names.stepIds.map Prod.fst

/-- The step ID of a concrete step. -/
def declareStepId (fragment : LocatedFragment) (step : Yaml) (label : String) (names : LocalNames) :
    Except Report LocalNames := do
  discard (concreteAction step label)
  match ← stepId step label with
  | none => return names
  | some id =>
    wrapErr (validateComponent id "fragment-local step ID")
      s!"invalid {label} in fragment '{fragment.name}'"
    match names.stepIds.lookup id with
    | some previous =>
      bail s!"fragment '{fragment.name}' in '{fragment.sourceFile}' reuses local step ID '{id}' at {previous} and {label}"
    | none => return { names with stepIds := names.stepIds ++ [(id, label)] }

/-- The name that a step adds to the local roots. -/
def declareRoot (fragment : LocatedFragment) (root kind label : String) (names : LocalNames) :
    Except Report LocalNames :=
  match names.roots.lookup root with
  | some previous =>
    bail s!"fragment '{fragment.name}' in '{fragment.sourceFile}' reuses local name '{root}' for {previous} and {kind} at {label}"
  | none => .ok { names with roots := names.roots ++ [(root, s!"{kind} at {label}")] }

def declareStep (fragment : LocatedFragment) (step : Yaml) (label : String) (names : LocalNames) :
    Except Report LocalNames := do
  match ← parseUse step label with
  | some use =>
    wrapErr (validateComponent use.aliasName "fragment alias")
      s!"invalid {label} in fragment '{fragment.name}'"
    declareRoot fragment use.aliasName "alias" label
      { names with aliases := names.aliases ++ [use.aliasName] }
  | none =>
    let names ← declareStepId fragment step label names
    match ← stepSave step label with
    | none => return names
    | some save =>
      wrapErr (validateComponent save "fragment-local save")
        s!"invalid {label} in fragment '{fragment.name}'"
      declareRoot fragment save "save" label names

def declareSteps (fragment : LocatedFragment) : List Yaml → ℕ → LocalNames → Except Report LocalNames
  | [], _, names => .ok names
  | step :: steps, index, names => do
    let names ← declareStep fragment step (stepLabel fragment.sourceFile index) names
    declareSteps fragment steps (index + 1) names

def validateFragmentScope (fragment : LocatedFragment) : Except Report FragmentScope := do
  return (← declareSteps fragment fragment.definition.steps 0 {}).scope

def parameterTypes : List String :=
  ["string", "account_ref", "address", "u256", "bool", "bytes", "bytes32", "value"]

def outputKinds : List String := ["checkpoint", "invoke", "submit", "receipt", "log"]

def validateFragmentDefinition (name : String) (fragment : RawFragment) (sourceFile : String) :
    Except Report Unit := do
  fragment.parameters.forM fun (parameter, parameterType) => do
    wrapErr (validateComponent parameter "fragment parameter")
      s!"invalid fragment '{name}' declared in '{sourceFile}'"
    bailIf (parameterType ∉ parameterTypes)
      s!"fragment '{name}' in '{sourceFile}' parameter '{parameter}' has unknown type '{parameterType}'"
  fragment.outputs.forM fun (output, outputKind) => do
    wrapErr (validatePath output "fragment output")
      s!"invalid fragment '{name}' declared in '{sourceFile}'"
    bailIf (outputKind ∉ outputKinds)
      s!"fragment '{name}' in '{sourceFile}' output '{output}' has unknown type '{outputKind}'"
  discard (validateFragmentScope { name, definition := fragment, sourceFile })

/-! ## Rewriting -/

/-- A reference of an expanded value: its path, and the instance whose text the path is written in
    (`none` for the root document). Only the path is in the value; no code reads the rest. -/
structure Reference where
  path : String
  writer : Option String
deriving DecidableEq

structure OutputReferenceCheck where
  boundaryAlias : String
  path : String
  label : String

/-- A value that was rewritten, with the references in it and who wrote it. -/
structure Argument where
  value : Yaml
  references : List Reference := []
  writer : Option String := none

structure ExpansionScope where
  aliasPrefix : Option String := none
  parameters : List (String × Argument) := []
  localRoots : List String := []
  localAliases : List String := []
  localStepIds : List String := []
  fragment : Option String := none

def expandedStepLabel (sourceFile : String) (localStepIndex expandedStepIndex : ℕ)
    (scope : ExpansionScope) : String :=
  match scope.fragment, scope.aliasPrefix with
  | some fragment, some instanceAlias =>
    s!"expanded step {expandedStepIndex + 1}, source '{sourceFile}', fragment '{fragment}', instance '{instanceAlias}', local step {localStepIndex + 1}"
  | _, _ => s!"expanded step {expandedStepIndex + 1} from step {localStepIndex + 1} in '{sourceFile}'"

def qualifyDependencies (dependencies : List String) (scope : ExpansionScope) : List String :=
  match scope.aliasPrefix with
  | none => dependencies
  | some a => dependencies.map fun dependency =>
    let root := pathRoot dependency
    if root ∈ scope.localStepIds ∨ root ∈ scope.localAliases then s!"{a}.{dependency}" else dependency

/-- The path of `{ var: path }`. -/
def variablePath (entries : List (Yaml × Yaml)) : Option String :=
  if entries.length = 1 then (Yaml.get entries "var").bind Yaml.asStr else none

/-- The references of a mapping: its own, if it is `{ var: path }`, and those within it. -/
def mappingReferences (entries : List (Yaml × Argument)) : List Reference :=
  match entries with
  | [(.string "var", ⟨.string path, _, writer⟩)] => [⟨path, writer⟩]
  | _ => entries.flatMap fun e => e.2.references

/-- `{ var: path }` in a scope. -/
def transformVariable (scope : ExpansionScope) (label path : String) (value : Yaml) :
    Argument × List OutputReferenceCheck :=
  let root := pathRoot path
  if root ∈ scope.localRoots then
    let rewrittenPath := joinPath scope.aliasPrefix path
    ({ value := .mapping [(.string "var", .string rewrittenPath)]
       references := [⟨rewrittenPath, scope.aliasPrefix⟩]
       writer := scope.aliasPrefix },
      if root ∈ scope.localAliases then [⟨joinPath scope.aliasPrefix root, rewrittenPath, label⟩]
      else [])
  else
    ({ value, references := [⟨path, scope.aliasPrefix⟩], writer := scope.aliasPrefix },
      [⟨root, path, label⟩])

/-- `{ param: name }` in a fragment. -/
def transformParameter (scope : ExpansionScope) (label : String) (entries : List (Yaml × Yaml)) :
    Except Report Argument :=
  match (Yaml.get entries "param").bind Yaml.asStr with
  | none => bail s!"{label} `param` expression must name a string"
  | some parameter =>
    match OrdMap.get? parameter scope.parameters with
    | some argument => .ok argument
    | none =>
      let context := match scope.fragment with
        | none => "outside a fragment"
        | some fragment => s!"in fragment '{fragment}'"
      bail s!"{label} references unknown parameter '{parameter}' {context}"

mutual

def transformValue (scope : ExpansionScope) (label : String) :
    Yaml → Except Report (Argument × List OutputReferenceCheck)
  | .mapping entries =>
    if scope.fragment.isSome ∧ entries.length = 1 ∧ Yaml.containsKey entries "param" then do
      return (← transformParameter scope label entries, [])
    else match variablePath entries with
      | some path => .ok (transformVariable scope label path (.mapping entries))
      | none => do
        let (transformed, checks) ← transformEntries scope label entries
        return ({
          value := .mapping (transformed.map fun e => (e.1, e.2.value))
          references := mappingReferences transformed
          writer := scope.aliasPrefix }, checks)
  | .sequence values => do
    let (transformed, checks) ← transformList scope label values
    return ({
      value := .sequence (transformed.map Argument.value)
      references := transformed.flatMap Argument.references
      writer := scope.aliasPrefix }, checks)
  | .tagged tag value => do
    let (transformed, checks) ← transformValue scope label value
    return ({ transformed with value := .tagged tag transformed.value, writer := scope.aliasPrefix }, checks)
  | value => .ok ({ value, writer := scope.aliasPrefix }, [])

def transformList (scope : ExpansionScope) (label : String) :
    List Yaml → Except Report (List Argument × List OutputReferenceCheck)
  | [] => .ok ([], [])
  | value :: values => do
    let (transformed, checks) ← transformValue scope label value
    let (rest, checks') ← transformList scope label values
    return (transformed :: rest, checks ++ checks')

def transformEntries (scope : ExpansionScope) (label : String) :
    List (Yaml × Yaml) → Except Report (List (Yaml × Argument) × List OutputReferenceCheck)
  | [] => .ok ([], [])
  | (key, value) :: entries => do
    let (transformed, checks) ← transformValue scope label value
    let (rest, checks') ← transformEntries scope label entries
    return ((key, transformed) :: rest, checks ++ checks')

end

end Composition

end TxGen
