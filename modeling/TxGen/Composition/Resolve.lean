import TxGen.Composition.Expansion

set_option autoImplicit false

/-! # Resolving a document

`resolve` expands the steps of a root document, removes what composition needed from it, parses what is
left and validates it. What `serde` derives (`Serde`) is given; reading files is not modelled. -/

namespace TxGen

/-! ## Steps -/

/-- How actions and durations are parsed. -/
structure StepParser where
  action : String → Yaml → Except Report StepAction
  parseDurationValue : Yaml → Except Report ℕ

namespace StepDef

def parseString : Yaml → Except Report String
  | .string s => .ok s
  | _ => bail "invalid type, expected a string"

def parseStrings : Yaml → Except Report (List String)
  | .sequence values => values.mapM parseString
  | _ => bail "invalid type, expected a sequence"

/-- A field of the mapping, if it is there. -/
def parseField {α : Type} (entries : List (Yaml × Yaml)) (field : String)
    (parse : Yaml → Except Report α) : Except Report (Option α) :=
  match Yaml.get entries field with
  | none => .ok none
  | some value => do return some (← parse value)

def parseAction (parser : StepParser) (entries : List (Yaml × Yaml)) : Except Report StepAction :=
  match entries.filter fun e => e.1 ∉ Composition.metadataKeys.map Yaml.string with
  | [(.string kind, value)] =>
    if kind ∈ Composition.actionKeys then parser.action kind value
    else bail s!"unknown variant `{kind}`"
  | [_] => bail "scenario step action must be a string"
  | _ =>
    bail "scenario step must contain exactly one of `checkpoint`, `invoke`, `submit`, `wait_receipt`, or `wait_log`"

/-- `StepDef::deserialize` -/
def parse (parser : StepParser) (value : Yaml) : Except Report StepDef :=
  match value with
  | .mapping entries => do
    let save ← parseField entries "save" parseString
    let timeout ← parseField entries "timeout" parser.parseDurationValue
    let id ← parseField entries "id" parseString
    let dependsOn := (← parseField entries "depends_on" parseStrings).getD []
    let action ← parseAction parser entries
    return { id, dependsOn, action, save, timeout }
  | _ => bail "invalid type, expected a mapping"

end StepDef

namespace Composition

/-! ## Documents -/

inductive IncludeDef
  | one (path : String)
  | many (paths : List String)

structure RawDocument where
  version : Option ℕ := none
  include? : Option IncludeDef := none
  fragments : List (String × RawFragment) := []

def RawDocument.keys : List String := ["version", "include", "fragments", "chains", "scenario"]

/-- The entries of a mapping with string keys, in order. -/
def parseMap {α : Type} (parse : Yaml → Option α) : Yaml → Option (List (String × α))
  | .mapping entries => do
    let parsed ← entries.mapM fun e => do return (← e.1.asStr, ← parse e.2)
    return OrdMap.ofList parsed
  | _ => none

/-- The known fields of a mapping, each at most once. -/
def structEntries (keys : List String) : Yaml → Option (List (Yaml × Yaml))
  | .mapping entries =>
    if (∀ e ∈ entries, e.1 ∈ keys.map Yaml.string) ∧ (entries.map Prod.fst).Nodup then some entries
    else none
  | _ => none

/-- A field with a default. -/
def defaultField {α : Type} (entries : List (Yaml × Yaml)) (field : String) (default : α)
    (parse : Yaml → Option α) : Option α :=
  match Yaml.get entries field with
  | none => some default
  | some value => parse value

def parseSteps : Yaml → Option (List Yaml)
  | .sequence steps => some steps
  | _ => none

def RawFragment.parse (value : Yaml) : Option RawFragment := do
  let entries ← structEntries ["parameters", "outputs", "steps"] value
  let parameters ← defaultField entries "parameters" [] (parseMap Yaml.asStr)
  let outputs ← defaultField entries "outputs" [] (parseMap Yaml.asStr)
  let steps ← parseSteps (← Yaml.get entries "steps")
  return { parameters, outputs, steps }

def parseVersion : Yaml → Option (Option ℕ)
  | .null => some none
  | .number (.int n) => if 0 ≤ n ∧ n < 2 ^ 64 then some (some n.toNat) else none
  | _ => none

def parseInclude : Yaml → Option (Option IncludeDef)
  | .null => some none
  | .string path => some (some (.one path))
  | .sequence paths => do return some (.many (← paths.mapM Yaml.asStr))
  | _ => none

/-- The document type that `serde` derives; unknown and repeated fields are refused. -/
def RawDocument.parse (raw : Yaml) : Option RawDocument := do
  let entries ← structEntries RawDocument.keys raw
  let version ← defaultField entries "version" none parseVersion
  let include? ← defaultField entries "include" none parseInclude
  let fragments ← defaultField entries "fragments" [] (parseMap RawFragment.parse)
  return { version, include?, fragments }

/-- A document that was parsed. Environment references are expanded before. -/
structure LocatedDocument where
  raw : Yaml
  document : RawDocument
  sourceFile : String
  baseDir : Option String
  parsed : RawDocument.parse raw = some document

def parseDocument (raw : Yaml) (sourceFile : String) (baseDir : Option String) :
    Except Report LocatedDocument :=
  match h : RawDocument.parse raw with
  | some document => .ok { raw, document, sourceFile, baseDir, parsed := h }
  | none => bail s!"invalid scenario document: {sourceFile}"

def registerFragment (sourceFile : String) (fragments : List (String × LocatedFragment))
    (entry : String × RawFragment) : Except Report (List (String × LocatedFragment)) := do
  let (name, definition) := entry
  wrapErr (validateName name "fragment") s!"invalid fragment declaration in '{sourceFile}'"
  validateFragmentDefinition name definition sourceFile
  match OrdMap.get? name fragments with
  | some previous =>
    bail s!"duplicate scenario fragment '{name}' declared in '{previous.sourceFile}' and '{sourceFile}'"
  | none => return OrdMap.set name { name, definition, sourceFile } fragments

def registerFragments (fragments : List (String × LocatedFragment)) (document : LocatedDocument) :
    Except Report (List (String × LocatedFragment)) :=
  document.document.fragments.foldlM (registerFragment document.sourceFile) fragments

/-! ## The root document -/

/-- The mapping under a string key. -/
def mappingAt (key : String) : Yaml → Option (List (Yaml × Yaml))
  | .mapping entries =>
    match Yaml.get entries key with
    | some (.mapping inner) => some inner
    | _ => none
  | _ => none

def scenarioSteps (value : Yaml) (sourceFile : String) : Except Report (List Yaml) :=
  match value with
  | .mapping _ =>
    match mappingAt "scenario" value with
    | none => bail s!"root scenario file '{sourceFile}' requires `scenario`"
    | some scenario =>
      match Yaml.get scenario "steps" with
      | some (.sequence steps) => .ok steps
      | _ => bail s!"root scenario file '{sourceFile}' requires `scenario.steps`"
  | _ => bail s!"scenario document '{sourceFile}' must be a mapping"

/-- Set the value of a key that is there. -/
def replaceKey (key : String) (f : Yaml → Yaml) : List (Yaml × Yaml) → List (Yaml × Yaml)
  | [] => []
  | e :: entries =>
    if e.1 = .string key then (e.1, f e.2) :: entries else e :: replaceKey key f entries

/-- The same for a value that may be a mapping. -/
def update (key : String) (f : Yaml → Yaml) : Yaml → Yaml
  | .mapping entries => .mapping (replaceKey key f entries)
  | value => value

def setSteps (steps : List Yaml) : Yaml → Yaml
  | .mapping scenario => .mapping (Yaml.insert "steps" (.sequence steps) scenario)
  | value => value

/-- `replace_scenario_steps`, for a document that has steps. -/
def replaceScenarioSteps (steps : List Yaml) : Yaml → Yaml := update "scenario" (setSteps steps)

def removeMappingKey (key : String) : Yaml → Yaml
  | .mapping entries => .mapping (Yaml.swapRemove key entries)
  | value => value

/-- `Path::join` of a relative path. -/
def joinDir (baseDir path : String) : String :=
  if baseDir = "" ∨ baseDir.toList.getLast? = some '/' then baseDir ++ path else s!"{baseDir}/{path}"

def isRelative (path : String) : Bool := !startsWith path "/"

def resolvePath (baseDir : String) : Yaml → Yaml
  | .string path =>
    if path ≠ "" ∧ isRelative path then .string (joinDir baseDir path) else .string path
  | value => value

/-- The workload and the sender map of a chain. -/
def resolveChainPaths (baseDir : String) (chain : Yaml) : Yaml :=
  update "request_auth" (update "sender_header" (update "map" (resolvePath baseDir)))
    (update "workload" (resolvePath baseDir) chain)

def eachValue (f : Yaml → Yaml) : Yaml → Yaml
  | .mapping entries => .mapping (entries.map fun e => (e.1, f e.2))
  | value => value

def resolveRootChainPaths (baseDir : String) : Yaml → Yaml :=
  update "chains" (eachValue (resolveChainPaths baseDir))

/-- The aliases of the root, and the first components of its saves. -/
structure RootNames where
  aliases : List (String × String) := []
  saveRoots : List (String × String) := []

def declareRootStep (step : Yaml) (label : String) (names : RootNames) : Except Report RootNames := do
  match ← parseUse step label with
  | some use =>
    wrapErr (validateComponent use.aliasName "fragment alias") s!"invalid {label}"
    match OrdMap.get? use.aliasName names.aliases with
    | some previous =>
      bail s!"duplicate scenario fragment alias '{use.aliasName}' at {label}; first declared at {previous}"
    | none => return { names with aliases := OrdMap.set use.aliasName label names.aliases }
  | none =>
    discard (concreteAction step label)
    match ← stepSave step label with
    | none => return names
    | some save =>
      wrapErr (validatePath save "scenario save") s!"invalid {label}"
      return { names with saveRoots := names.saveRoots ++ [(pathRoot save, label)] }

def declareRootSteps (sourceFile : String) : List Yaml → ℕ → RootNames → Except Report RootNames
  | [], _, names => .ok names
  | step :: steps, index, names => do
    let names ← declareRootStep step (stepLabel sourceFile index) names
    declareRootSteps sourceFile steps (index + 1) names

def validateRootScope (steps : List Yaml) (sourceFile : String) : Except Report Unit := do
  let names ← declareRootSteps sourceFile steps 0 {}
  names.aliases.forM fun (aliasName, aliasLabel) =>
    match names.saveRoots.lookup aliasName with
    | some saveLabel =>
      bail s!"scenario fragment alias '{aliasName}' at {aliasLabel} conflicts with a save namespace at {saveLabel}"
    | none => .ok ()

/-! ## Resolving -/

/-- What is parsed by derived code, or coerced by the ABI library. -/
structure Serde extends StepParser where
  spec : Yaml → Except Report ScenarioSpec
  /-- The steps of a scenario are parsed one by one. -/
  spec_steps : ∀ doc parsed, spec doc = .ok parsed → ∃ values, scenarioSteps doc "" = .ok values ∧
    values.mapM (StepDef.parse toStepParser) = .ok parsed.scenario.steps
  /-- The pool of an `AccountRef`. -/
  accountRef : Yaml → Except Report String
  coerce : String → RuntimeValue → Except Report Unit
  parseUrl : String → Option String

variable (serde : Serde)

def parameterTypeAccepts (expected : String) (actual : StaticValueType) : Bool :=
  match expected with
  | "account_ref" => actual = .accountRef
  | "string" => actual = .string
  | "address" => actual = .address || actual = .string
  | "u256" => actual = .uint || actual = .string
  | "bytes" => actual = .bytes || actual = .string
  | "bytes32" => actual = .bytes32 || actual = .string
  | "bool" => actual = .bool || actual = .string
  | _ => false

def validateAccountRef (expression : Yaml) : Except Report Unit :=
  match expression with
  | .mapping entries => do
    entries.forM fun e => match e.1 with
      | .string key =>
        bailIf (key ∉ ["pool", "select"]) s!"account_ref contains unknown field '{key}'"
      | _ => bail "account_ref fields must be strings"
    let pool ← wrapErr (serde.accountRef expression) "account_ref must contain a valid `pool` and `select`"
    bailIf (blank pool) "account_ref pool must not be empty"
  | _ => bail "account_ref must be an account reference object"

def validateLiteralParameter (expression : Yaml) (expected : String) : Except Report Unit := do
  if expected = "account_ref" then validateAccountRef serde expression
  else
    let value ← RuntimeValue.ofYaml expression
    match expected, value with
    | "string", .string _ => return ()
    | "string", _ => bail "value is not a string"
    | expected, value =>
      if expected ∈ ["address", "u256", "bytes", "bytes32", "bool"] then serde.coerce expected value
      else bail s!"unknown fragment parameter type '{expected}'"

/-- Where an argument has a static type or is a literal, it is one of the type of its parameter. -/
def validateArgumentType (expression : Yaml) (expected label : String)
    (available : List (String × AvailableRoot)) (paths : List String) : Except Report Unit := do
  if expected = "value" then return ()
  else
    match ← wrapErr (expressionStaticType expression available) s!"invalid {label}" with
    | some actual =>
      bailIf (parameterTypeAccepts expected actual = false)
        s!"{label} expects parameter type '{expected}', but its value has type {actual.debug}"
    | none =>
      if paths ≠ [] then return ()
      else
        wrapErr (validateLiteralParameter serde expression expected)
          s!"{label} expects parameter type '{expected}'"

/-- Validate one fragment argument in the caller's scope before its expanded steps run. -/
def validateParameterArgument (spec : ScenarioSpec) (check : ParameterCheck) : Except Report Unit := do
  let saves ← spec.scenario.collectSaves
  let available := spec.scenario.availableRoots (match spec.scenario.execution with
    | .sequential => List.range check.stepIndex
    | .dag => List.range spec.scenario.steps.length)
  let paths ← (collectVariablePaths check.expression).mapError fun error =>
    [s!"invalid {check.label}: {error.headI}"]
  paths.forM fun path =>
    (validateReference path check.stepIndex saves available none).mapError fun error =>
      [s!"invalid {check.label}: {error.headI}"]
  validateArgumentType serde check.expression check.expected check.label available paths

structure ResolvedScenario where
  spec : ScenarioSpec
  rendered : Yaml

def expandRoot (fuel : ℕ) (sourceFile : String) : List Yaml → ℕ → Expand Unit
  | [], _ => pure ()
  | step :: steps, index => do
    let s ← Expand.get
    let label := expandedStepLabel sourceFile index s.expandedSteps.length {}
    match ← parseUse step label with
    | some use => discard (expandUse fuel use {} sourceFile index)
    | none => discard (emitConcrete step {} sourceFile index)
    expandRoot fuel sourceFile steps (index + 1)

/-- The document without its composition, with the expanded steps. -/
def renderDocument (root : LocatedDocument) (steps : List Yaml) : Yaml :=
  let raw := replaceScenarioSteps steps (removeMappingKey "fragments" (removeMappingKey "include" root.raw))
  match root.baseDir with
  | none => raw
  | some baseDir => resolveRootChainPaths baseDir raw

def ScenarioSpec.withProvenance (spec : ScenarioSpec) (provenance : List (Option StepProvenance)) :
    ScenarioSpec :=
  { spec with scenario := { spec.scenario with
      steps := List.zipWith (fun step p => { step with provenance := p }) spec.scenario.steps provenance } }

/-- No alias of the root is a binding. -/
def checkAliases (bindings : List (String × BindingDef)) (aliases : List (String × String)) :
    Except Report Unit :=
  aliases.forM fun (aliasName, origin) =>
    bailIf ('.' ∉ aliasName.toList ∧ (bindings.lookup aliasName).isSome)
      s!"scenario fragment alias '{aliasName}' at {origin} conflicts with a scenario binding"

/-- Parse and validate what was expanded. -/
def parseExpanded (s : ScenarioResolver) (root : LocatedDocument) : Except Report ResolvedScenario := do
  let rendered := renderDocument root (s.expandedSteps.map ExpandedStep.value)
  s.expandedSteps.forM fun step =>
    discard (wrapErr (StepDef.parse serde.toStepParser step.value) s!"failed to parse {step.diagnostic}")
  let spec ← wrapErr (serde.spec rendered) s!"failed to parse fully expanded scenario '{root.sourceFile}'"
  bailIf (spec.scenario.steps.length ≠ s.expandedSteps.length)
    "internal error: expanded scenario step metadata is out of sync"
  let spec := ScenarioSpec.withProvenance spec (s.expandedSteps.map ExpandedStep.provenance)
  checkAliases spec.scenario.bindings s.aliases
  spec.validate serde.parseUrl
  s.parameterChecks.forM (validateParameterArgument serde spec)
  return { spec, rendered }

/-- Expand the steps of the root and check the fragments and the outputs. -/
def expandDocument (fuel : ℕ) (fragments : List (String × LocatedFragment)) (root : LocatedDocument) :
    Except ExpandError ScenarioResolver := do
  let rootSteps ← (scenarioSteps root.raw root.sourceFile).mapError .report
  (validateRootScope rootSteps root.sourceFile).mapError .report
  let ((), s) ← expandRoot fuel root.sourceFile rootSteps 0 { fragments }
  s.validateFragmentLibrary fuel
  s.validateOutputReferences.mapError .report
  return s

/-- Resolve a root document with the fragments that were registered. -/
def resolve (fuel : ℕ) (fragments : List (String × LocatedFragment)) (root : LocatedDocument) :
    Except ExpandError ResolvedScenario := do
  let s ← expandDocument fuel fragments root
  (parseExpanded serde s root).mapError .report

end Composition

end TxGen
