import TxGen.Composition.Steps
import TxGen.Lib.Lists

set_option autoImplicit false

/-! # The rendered document

`renderDocument` replaces the steps of a document and leaves all but its composition and its relative
paths as they are. -/

namespace TxGen

namespace Yaml

/-- No key is there twice. -/
def UniqueKeys (entries : List (Yaml × Yaml)) : Prop := (entries.map Prod.fst).Nodup

theorem get_eq_some_iff {entries : List (Yaml × Yaml)} (h : UniqueKeys entries) {name : String}
    {value : Yaml} : get entries name = some value ↔ (.string name, value) ∈ entries := by
  induction entries with
  | nil => simp [get]
  | cons e entries ih =>
      obtain ⟨hnot, hrest⟩ := List.nodup_cons.1 h
      rw [get_cons, List.mem_cons]
      by_cases he : e.1 = .string name
      · have hout : (Yaml.string name, value) ∉ entries := fun hin =>
          hnot (List.mem_map.2 ⟨_, hin, he.symm⟩)
        rw [if_pos he, Option.some.injEq, or_iff_left hout]
        exact ⟨fun hv => Prod.ext he.symm hv.symm, fun hv => (congrArg Prod.snd hv).symm⟩
      · rw [if_neg he, ih hrest, or_iff_right]
        rintro rfl
        exact he rfl

theorem swapRemove_perm (key : String) (entries : List (Yaml × Yaml)) :
    (swapRemove key entries).Perm (entries.eraseP fun e => e.1 = .string key) := by
  rw [List.eraseP_eq_eraseIdx]
  unfold swapRemove
  cases hi : entries.findIdx? fun e => e.1 = .string key with
  | none => exact .refl _
  | some i =>
      obtain ⟨hlt, -⟩ := List.findIdx?_eq_some_iff_getElem.1 hi
      cases hlast : entries.getLast? with
      | none =>
          rw [List.getLast?_eq_none_iff.1 hlast] at hlt
          exact absurd hlt (Nat.not_lt_zero i)
      | some last =>
          obtain ⟨before, rfl⟩ := List.getLast?_eq_some_iff.1 hlast
          exact List.set_dropLast_perm before last hlt

theorem mem_swapRemove {key : String} {entries : List (Yaml × Yaml)} (h : UniqueKeys entries)
    {e : Yaml × Yaml} : e ∈ swapRemove key entries ↔ e ∈ entries ∧ e.1 ≠ .string key := by
  rw [(swapRemove_perm key entries).mem_iff]
  induction entries with
  | nil => simp
  | cons first entries ih =>
      obtain ⟨hnot, hrest⟩ := List.nodup_cons.1 h
      rw [List.eraseP_cons]
      by_cases hfirst : first.1 = .string key
      · have hout : ∀ e ∈ entries, e.1 ≠ .string key := fun e he hkey =>
          hnot (List.mem_map.2 ⟨e, he, hkey.trans hfirst.symm⟩)
        simp only [hfirst, decide_true, cond_true, List.mem_cons]
        constructor
        · exact fun he => ⟨Or.inr he, hout e he⟩
        · rintro ⟨rfl | he, hne⟩
          · exact absurd hfirst hne
          · exact he
      · simp only [hfirst, decide_false, cond_false, List.mem_cons, ih hrest]
        constructor
        · rintro (rfl | ⟨he, hne⟩)
          · exact ⟨Or.inl rfl, hfirst⟩
          · exact ⟨Or.inr he, hne⟩
        · rintro ⟨rfl | he, hne⟩
          · exact Or.inl rfl
          · exact Or.inr ⟨he, hne⟩

theorem UniqueKeys.swapRemove {key : String} {entries : List (Yaml × Yaml)} (h : UniqueKeys entries) :
    UniqueKeys (swapRemove key entries) :=
  (((swapRemove_perm key entries).map Prod.fst).nodup_iff).2
    (h.sublist ((List.eraseP_sublist).map Prod.fst))

theorem get_swapRemove {key : String} {entries : List (Yaml × Yaml)} (h : UniqueKeys entries)
    (name : String) :
    get (Yaml.swapRemove key entries) name = if name = key then none else get entries name := by
  refine Option.ext fun value => ?_
  rw [get_eq_some_iff h.swapRemove, mem_swapRemove h]
  by_cases hname : name = key
  · simp [hname]
  · simp [hname, get_eq_some_iff h]

/-- Nothing is removed where there is nothing. -/
theorem swapRemove_of_get {key : String} {entries : List (Yaml × Yaml)} (h : get entries key = none) :
    Yaml.swapRemove key entries = entries := by
  have hnone : entries.findIdx? (fun e => decide (e.1 = .string key)) = none := by
    rw [List.findIdx?_eq_none_iff]
    intro e he
    have := List.find?_eq_none.1 (Option.map_eq_none_iff.1 h) e he
    simpa using this
  unfold Yaml.swapRemove
  rw [hnone]

end Yaml

namespace Composition

open Yaml

theorem map_fst_replaceKey (key : String) (f : Yaml → Yaml) (entries : List (Yaml × Yaml)) :
    (replaceKey key f entries).map Prod.fst = entries.map Prod.fst := by
  induction entries with
  | nil => rfl
  | cons e entries ih =>
      rw [replaceKey]
      split <;> simp [ih]

theorem get_replaceKey (key name : String) (f : Yaml → Yaml) (entries : List (Yaml × Yaml)) :
    get (replaceKey key f entries) name =
      if name = key then (get entries name).map f else get entries name := by
  induction entries with
  | nil => simp [replaceKey, Yaml.get]
  | cons e entries ih =>
      rw [replaceKey]
      by_cases he : e.1 = .string key
      · rw [if_pos he, get_cons, get_cons]
        by_cases hname : name = key
        · simp [hname, he]
        · simp [hname, he, Ne.symm hname]
      · rw [if_neg he, get_cons, get_cons, ih]
        by_cases hname : name = key
        · simp [hname, he]
        · simp [hname]

theorem field_update (key name : String) (f : Yaml → Yaml) (value : Yaml) :
    (update key f value).field name =
      if name = key then (value.field name).map f else value.field name := by
  cases value with
  | mapping entries => exact get_replaceKey key name f entries
  | _ => simp [update, Yaml.field]

theorem scenarioSteps_eq_ok {value : Yaml} {sourceFile : String} {steps : List Yaml} :
    scenarioSteps value sourceFile = .ok steps ↔ ∃ scenario,
      value.field "scenario" = some (.mapping scenario) ∧
        get scenario "steps" = some (.sequence steps) := by
  cases value with
  | mapping entries =>
      simp only [scenarioSteps, mappingAt, Yaml.field]
      cases hscenario : get entries "scenario" with
      | none => simp
      | some scenario =>
          cases scenario with
          | mapping scenario =>
              simp only [Option.some.injEq, Yaml.mapping.injEq, exists_eq_left']
              cases get scenario "steps" with
              | none => simp
              | some found => cases found <;> simp
          | _ => simp
  | _ => simp [scenarioSteps, Yaml.field]

/-- The document before its paths are resolved. -/
def renderSteps (root : LocatedDocument) (steps : List Yaml) : Yaml :=
  replaceScenarioSteps steps (removeMappingKey "fragments" (removeMappingKey "include" root.raw))

/-- A parsed document is a mapping of the known keys, each at most once. -/
theorem LocatedDocument.entries (root : LocatedDocument) : ∃ entries, root.raw = .mapping entries ∧
    UniqueKeys entries ∧ ∀ e ∈ entries, e.1 ∈ RawDocument.keys.map Yaml.string := by
  have hparsed := root.parsed
  unfold RawDocument.parse at hparsed
  cases hraw : root.raw with
  | mapping entries =>
      simp only [hraw, structEntries] at hparsed
      split at hparsed
      · next h => exact ⟨entries, rfl, h.2, h.1⟩
      · cases hparsed
  | _ => simp [hraw, structEntries] at hparsed

theorem field_renderSteps (root : LocatedDocument) (steps : List Yaml) (name : String) :
    (renderSteps root steps).field name =
      if name = "include" ∨ name = "fragments" then none
      else if name = "scenario" then (root.raw.field name).map (setSteps steps)
      else root.raw.field name := by
  obtain ⟨entries, hraw, hunique, -⟩ := root.entries
  rw [renderSteps, replaceScenarioSteps, field_update]
  simp only [hraw, removeMappingKey, Yaml.field, get_swapRemove hunique.swapRemove,
    get_swapRemove hunique]
  by_cases hinclude : name = "include"
  · simp [hinclude]
  by_cases hfragments : name = "fragments"
  · simp [hfragments]
  simp [hinclude, hfragments]

theorem field_renderDocument (root : LocatedDocument) (steps : List Yaml) (name : String) :
    (renderDocument root steps).field name = if name = "chains" then
        ((renderSteps root steps).field name).map
          ((root.baseDir.map fun baseDir => eachValue (resolveChainPaths baseDir)).getD id)
      else (renderSteps root steps).field name := by
  unfold renderDocument
  cases root.baseDir with
  | none => simp [renderSteps]
  | some baseDir => exact field_update "chains" name _ _

/-- The steps of the rendered document are the given ones. -/
theorem scenarioSteps_renderDocument {root : LocatedDocument} {rootSteps : List Yaml}
    (h : scenarioSteps root.raw root.sourceFile = .ok rootSteps) (steps : List Yaml)
    (sourceFile : String) : scenarioSteps (renderDocument root steps) sourceFile = .ok steps := by
  obtain ⟨scenario, hscenario, -⟩ := scenarioSteps_eq_ok.1 h
  refine scenarioSteps_eq_ok.2 ⟨Yaml.insert "steps" (.sequence steps) scenario, ?_, ?_⟩
  · rw [field_renderDocument, if_neg (by decide), field_renderSteps, if_neg (by decide),
      if_pos rfl, hscenario]
    rfl
  · rw [get_insert, if_pos rfl]

/-! ## Parsing what was expanded -/

variable {serde : Serde} {fuel : ℕ} {fragments : List (String × LocatedFragment)}
  {root : LocatedDocument} {s : ScenarioResolver} {out : ResolvedScenario}

theorem mapError_eq_ok {ε ε' α : Type} {x : Except ε α} {f : ε → ε'} {a : α} :
    x.mapError f = .ok a ↔ x = .ok a := by
  cases x <;> simp [Except.mapError]

theorem resolve_ok : resolve serde fuel fragments root = .ok out ↔
    ∃ s, expandDocument fuel fragments root = .ok s ∧ parseExpanded serde s root = .ok out := by
  simp [resolve, Fallible.bind_ok, mapError_eq_ok]

theorem expandDocument_ok (h : expandDocument fuel fragments root = .ok s) :
    ∃ rootSteps, scenarioSteps root.raw root.sourceFile = .ok rootSteps ∧
      validateRootScope rootSteps root.sourceFile = .ok () ∧
      expandRoot fuel root.sourceFile rootSteps 0 { fragments } = .ok ((), s) ∧
      s.validateFragmentLibrary fuel = .ok () ∧ s.validateOutputReferences = .ok () := by
  simp only [expandDocument, Fallible.bind_ok, mapError_eq_ok] at h
  obtain ⟨rootSteps, hsteps, ⟨⟩, hscope, ⟨⟨⟩, found⟩, hexpand, ⟨⟩, hlibrary, ⟨⟩, hrefs, hs⟩ := h
  obtain rfl := Except.ok.inj hs
  exact ⟨rootSteps, hsteps, hscope, hexpand, hlibrary, hrefs⟩

/-- What is parsed is what is rendered, and the steps are parsed one by one. -/
theorem parseExpanded_ok (h : parseExpanded serde s root = .ok out) :
    ∃ spec, out.rendered = renderDocument root (s.expandedSteps.map ExpandedStep.value) ∧
      serde.spec out.rendered = .ok spec ∧
      spec.scenario.steps.length = s.expandedSteps.length ∧
      out.spec = ScenarioSpec.withProvenance spec (s.expandedSteps.map ExpandedStep.provenance) ∧
      checkAliases out.spec.scenario.bindings s.aliases = .ok () ∧
      out.spec.validate serde.parseUrl = .ok () ∧
      (∀ check ∈ s.parameterChecks, validateParameterArgument serde out.spec check = .ok ()) ∧
      ∀ step ∈ s.expandedSteps, ∃ parsed, StepDef.parse serde.toStepParser step.value = .ok parsed := by
  simp only [parseExpanded, bind_eq_ok, wrapErr_eq_ok, bailIf_eq_ok, not_not] at h
  obtain ⟨⟨⟩, hparse, spec, hspec, ⟨⟩, hlength, ⟨⟩, haliases, ⟨⟩, hvalid, ⟨⟩, hchecks, hout⟩ := h
  obtain rfl := Except.ok.inj hout
  refine ⟨spec, rfl, hspec, hlength, rfl, haliases, hvalid, Fallible.forM_ok.1 hchecks, ?_⟩
  intro step hstep
  have hfound := Fallible.forM_ok.1 hparse step hstep
  cases hparsed : StepDef.parse serde.toStepParser step.value with
  | ok parsed => exact ⟨parsed, rfl⟩
  | error e =>
      rw [hparsed] at hfound
      cases hfound

theorem parseField_ok {α : Type} {entries : List (Yaml × Yaml)} {name : String}
    {parse : Yaml → Except Report α} {r : Option α} (h : StepDef.parseField entries name parse = .ok r) :
    (get entries name = none ∧ r = none) ∨
      ∃ value a, get entries name = some value ∧ parse value = .ok a ∧ r = some a := by
  unfold StepDef.parseField at h
  split at h
  · next hget => exact Or.inl ⟨hget, (Except.ok.inj h).symm⟩
  · next value hget =>
      obtain ⟨a, ha, h⟩ := bind_eq_ok.1 h
      exact Or.inr ⟨value, a, hget, ha, (Except.ok.inj h).symm⟩

theorem parseString_ok {value : Yaml} {s : String} (h : StepDef.parseString value = .ok s) :
    value = .string s := by
  cases value <;> simp_all [StepDef.parseString]

/-- The ID and the dependencies of a step are those of its value. -/
theorem parse_ok {parser : StepParser} {value : Yaml} {step : StepDef}
    (h : StepDef.parse parser value = .ok step) :
    step.id = value.stringField "id" ∧ step.dependsOn = dependenciesOf value := by
  cases value with
  | mapping entries =>
      simp only [StepDef.parse, bind_eq_ok] at h
      obtain ⟨save, -, timeout, -, id, hid, dependsOn, hdeps, action, -, h⟩ := h
      obtain rfl := Except.ok.inj h
      constructor
      · rcases parseField_ok hid with ⟨hget, rfl⟩ | ⟨value, found, hget, hfound, rfl⟩
        · simp [Yaml.stringField, Yaml.field, hget]
        · obtain rfl := parseString_ok hfound
          simp [Yaml.stringField, Yaml.field, hget, Yaml.asStr]
      · rcases parseField_ok hdeps with ⟨hget, rfl⟩ | ⟨value, found, hget, hfound, rfl⟩
        · simp [dependenciesOf, Yaml.field, hget]
        · cases value with
          | sequence values =>
              have hall := (Fallible.mapM_ok.1 hfound).imp fun _ _ => parseString_ok
              have hvalues : values = found.map Yaml.string :=
                List.forall₂_eq_eq_eq ▸ (List.forall₂_map_right_iff.2 hall)
              simp [dependenciesOf, Yaml.field, hget, hvalues, List.filterMap_map,
                Function.comp_def, Yaml.asStr]
          | _ => cases hfound
  | _ => cases h

/-- Step `i` of the parsed scenario is step `i` of the expansion. -/
theorem parsed_step (hexpand : expandDocument fuel fragments root = .ok s)
    (hparse : parseExpanded serde s root = .ok out) {i : ℕ} {expanded : ExpandedStep}
    (hi : s.expandedSteps[i]? = some expanded) : ∃ step, out.spec.scenario.steps[i]? = some step ∧
      step.id = expanded.value.stringField "id" ∧ step.dependsOn = dependenciesOf expanded.value := by
  obtain ⟨rootSteps, hsteps, -⟩ := expandDocument_ok hexpand
  obtain ⟨spec, hrendered, hspec, -, hout, -⟩ := parseExpanded_ok hparse
  obtain ⟨values, hvalues, hparsed⟩ := serde.spec_steps _ _ hspec
  rw [hrendered, scenarioSteps_renderDocument hsteps] at hvalues
  obtain rfl := Except.ok.inj hvalues
  have hall := List.forall₂_map_left_iff.1 (Fallible.mapM_ok.1 hparsed)
  obtain ⟨step, hstep, hfound⟩ : ∃ step, spec.scenario.steps[i]? = some step ∧
      StepDef.parse serde.toStepParser expanded.value = .ok step := by
    obtain ⟨hlt, rfl⟩ := List.getElem?_eq_some_iff.1 hi
    have hlt' : i < spec.scenario.steps.length := hall.length_eq ▸ hlt
    exact ⟨_, List.getElem?_eq_getElem hlt', hall.get hlt hlt'⟩
  obtain ⟨hid, hdeps⟩ := parse_ok hfound
  refine ⟨{ step with provenance := expanded.provenance }, ?_, hid, hdeps⟩
  rw [hout]
  simp [ScenarioSpec.withProvenance, List.getElem?_zipWith, hstep, hi]

/-! ### A parser for documents of checkpoints and submissions -/

namespace CompositionSample

def fields (entries : List (String × Yaml)) : Yaml := .mapping (entries.map fun e => (.string e.1, e.2))

def varOf (path : String) : Yaml := fields [("var", string path)]

def paramOf (name : String) : Yaml := fields [("param", string name)]

def parser : StepParser where
  action kind value :=
    match value.stringField "chain", kind with
    | some chain, "checkpoint" => .ok (.checkpoint { chain })
    | some chain, "submit" => .ok (.submit {
        chain
        template := (value.stringField "template").getD ""
        withValue := (value.field "with").getD .null })
    | _, _ => bail "missing field `chain`"
  parseDurationValue _ := bail "invalid duration"

def chain : ChainDef :=
  { network := "dev", rpcUrl := "rpc", observation := { pollInterval := 1 }, workload := "/w.yml" }

def sampleSerde : Serde where
  toStepParser := parser
  spec doc := do
    let values ← scenarioSteps doc ""
    let steps ← values.mapM (StepDef.parse parser)
    let execution :=
      if (doc.field "scenario").bind (Yaml.stringField "execution") = some "dag" then .dag else .sequential
    return { version := 1, chains := [("main", chain)], scenario := { name := "sample", execution, steps } }
  spec_steps doc parsed h := by
    obtain ⟨values, hvalues, h⟩ := bind_eq_ok.1 h
    obtain ⟨steps, hsteps, h⟩ := bind_eq_ok.1 h
    obtain rfl := Except.ok.inj h
    exact ⟨values, hvalues, hsteps⟩
  accountRef _ := bail "invalid account"
  coerce _ _ := .ok ()
  parseUrl _ := none

def checkpoint : Yaml := fields [("chain", string "main")]

/-- A root document of the given steps, read from `/scenarios`. -/
def document (execution : String) (steps : List Yaml) : Except Report LocatedDocument :=
  parseDocument (fields [("version", .number (.int 1)), ("chains", fields []),
    ("scenario", fields [("execution", string execution), ("steps", .sequence steps)])])
    "root.yml" (some "/scenarios")

end CompositionSample

end Composition

end TxGen
