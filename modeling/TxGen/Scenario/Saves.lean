import TxGen.Scenario.AppendOnly
import TxGen.Scenario.Graph
import TxGen.Scenario.Validation

set_option autoImplicit false

/-! # The saves of an accepted scenario

`collect_saves` looks at one save after the other. What it establishes is about all of them: the paths of
two steps, and of a step and a binding, are apart, so that the values can be saved in any order and none
of them is in the way of another. -/

namespace TxGen

/-- What is known of the saves of `steps` when `saves` have been collected. -/
structure Collected (bindings : List (String × BindingDef)) (steps : List StepDef)
    (saves : List (String × ℕ)) : Prop where
  listed : ∀ {i : ℕ} {step : StepDef} {p : String}, steps[i]? = some step → step.save = some p →
    OrdMap.get? p saves = some i
  valid : ∀ {i : ℕ} {step : StepDef} {p : String}, steps[i]? = some step → step.save = some p →
    validateVariablePath p = .ok () ∧ bindings.lookup (pathRoot p) = none
  apart : ∀ {i j : ℕ} {a b : StepDef} {p q : String}, steps[i]? = some a → steps[j]? = some b → i ≠ j →
    a.save = some p → b.save = some q → Apart (components p) (components q)

theorem validateVariablePath_of_validatePath {path context : String}
    (h : validatePath path context = .ok ()) : validateVariablePath path = .ok () := by
  simp only [validateVariablePath, validatePath, validateName, bind_eq_ok, bailIf_eq_ok] at h ⊢
  exact h

/-- A save that passes the check is apart from those before it. -/
theorem checkSave_ok {bindings : List (String × BindingDef)} {all : List StepDef} {step : StepDef}
    {index : ℕ} {save : String} {saves : List (String × ℕ)}
    (h : checkSave bindings all step index save saves = .ok ()) :
    validateVariablePath save = .ok () ∧ bindings.lookup (pathRoot save) = none ∧
      OrdMap.get? save saves = none ∧
      ∀ q i, OrdMap.get? q saves = some i → Apart (components save) (components q) := by
  unfold checkSave at h
  obtain ⟨⟨⟩, hpath, h⟩ := bind_eq_ok.1 h
  dsimp only at h
  obtain ⟨⟨⟩, hroot, h⟩ := bind_eq_ok.1 h
  rw [bailIf_eq_ok, Bool.not_eq_true, Option.isSome_eq_false_iff, Option.isNone_iff_eq_none] at hroot
  refine ⟨validateVariablePath_of_validatePath hpath, hroot, ?_⟩
  split at h
  · cases h
  · rename_i hnew
    refine ⟨hnew, fun q i hq => ?_⟩
    split at h
    · cases h
    · rename_i hnone
      have hq' := List.find?_eq_none.1 hnone _ (OrdMap.mem_of_get? hq)
      rw [Bool.or_eq_true, not_or, Bool.not_eq_true, Bool.not_eq_true] at hq'
      have hne : save ≠ q := by
        rintro rfl
        rw [hnew] at hq
        cases hq
      exact apart_iff.2 ⟨hne, hq'.2, hq'.1⟩

theorem Collected.skip {bindings : List (String × BindingDef)} {steps : List StepDef}
    {saves : List (String × ℕ)} (h : Collected bindings steps saves) {step : StepDef}
    (hsave : step.save = none) : Collected bindings (steps ++ [step]) saves := by
  have hold : ∀ {i : ℕ} {a : StepDef} {p : String}, (steps ++ [step])[i]? = some a → a.save = some p →
      steps[i]? = some a := by
    intro i a p ha hp
    rcases List.getElem?_concat_cases ha with ha | ⟨-, rfl⟩
    · exact ha
    · rw [hsave] at hp
      cases hp
  exact ⟨fun ha hp => h.listed (hold ha hp) hp, fun ha hp => h.valid (hold ha hp) hp,
    fun ha hb hne hp hq => h.apart (hold ha hp) (hold hb hq) hne hp hq⟩

theorem Collected.save {bindings : List (String × BindingDef)} {steps : List StepDef}
    {saves : List (String × ℕ)} (h : Collected bindings steps saves) {step : StepDef} {p : String}
    (hsave : step.save = some p) (hpath : validateVariablePath p = .ok ())
    (hroot : bindings.lookup (pathRoot p) = none) (hnew : OrdMap.get? p saves = none)
    (hapart : ∀ q i, OrdMap.get? q saves = some i → Apart (components p) (components q)) :
    Collected bindings (steps ++ [step]) (OrdMap.set p steps.length saves) := by
  have hcases : ∀ {i : ℕ} {a : StepDef} {q : String}, (steps ++ [step])[i]? = some a →
      a.save = some q → steps[i]? = some a ∧ OrdMap.get? q saves = some i ∨
        i = steps.length ∧ q = p := by
    intro i a q ha hq
    rcases List.getElem?_concat_cases ha with ha | ⟨rfl, rfl⟩
    · exact Or.inl ⟨ha, h.listed ha hq⟩
    · exact Or.inr ⟨rfl, Option.some.inj (hq.symm.trans hsave)⟩
  refine ⟨fun {i a q} ha hq => ?_, fun {i a q} ha hq => ?_, fun {i j a b q r} ha hb hne hq hr => ?_⟩
  · rcases hcases ha hq with ⟨-, hold⟩ | ⟨rfl, rfl⟩
    · have hqp : q ≠ p := by
        rintro rfl
        rw [hnew] at hold
        cases hold
      rw [OrdMap.get?_set_ne hqp]
      exact hold
    · rw [OrdMap.get?_set, if_pos rfl]
  · rcases hcases ha hq with ⟨hold, -⟩ | ⟨-, rfl⟩
    · exact h.valid hold hq
    · exact ⟨hpath, hroot⟩
  · rcases hcases ha hq with ⟨hold, hgot⟩ | ⟨rfl, rfl⟩
    · rcases hcases hb hr with ⟨hold', -⟩ | ⟨-, rfl⟩
      · exact h.apart hold hold' hne hq hr
      · exact (hapart q i hgot).symm
    · rcases hcases hb hr with ⟨-, hgot⟩ | ⟨rfl, -⟩
      · exact hapart r j hgot
      · exact absurd rfl hne

theorem collectSavesFrom_ok {bindings : List (String × BindingDef)} {all rest steps : List StepDef}
    {saves result : List (String × ℕ)} (h : Collected bindings steps saves)
    (hok : collectSavesFrom bindings all rest steps.length saves = .ok result) :
    Collected bindings (steps ++ rest) result := by
  induction rest generalizing steps saves with
  | nil =>
      obtain rfl := Except.ok.inj hok
      rwa [List.append_nil]
  | cons step rest ih =>
      have hnext : steps.length + 1 = (steps ++ [step]).length := by simp
      rw [collectSavesFrom] at hok
      split at hok
      · rename_i hsave
        rw [hnext] at hok
        simpa using ih (h.skip hsave) hok
      · rename_i p hsave
        obtain ⟨⟨⟩, hcheck, hok⟩ := bind_eq_ok.1 hok
        obtain ⟨hpath, hroot, hnew, hapart⟩ := checkSave_ok hcheck
        rw [hnext] at hok
        simpa using ih (h.save hsave hpath hroot hnew hapart) hok

namespace ScenarioDef

/-- The saves of an accepted scenario. -/
theorem collectSaves_ok {sc : ScenarioDef} {saves : List (String × ℕ)} (h : sc.collectSaves = .ok saves) :
    Collected sc.bindings sc.steps saves :=
  @collectSavesFrom_ok sc.bindings sc.steps sc.steps [] [] saves ⟨nofun, nofun, nofun⟩ h

/-- The checks of `validate` that concern names: those of the bindings and those of the saves. -/
structure NamesApart (sc : ScenarioDef) : Prop where
  binding : ∀ b ∈ sc.bindings, validateVariablePath b.1 = .ok () ∧ components b.1 = [b.1]
  save : ∀ {i : ℕ} {step : StepDef} {p : String}, sc.steps[i]? = some step → step.save = some p →
    validateVariablePath p = .ok () ∧ ∀ b ∈ sc.bindings, Apart (components p) (components b.1)
  saves : ∀ {i j : ℕ} {a b : StepDef} {p q : String}, sc.steps[i]? = some a → sc.steps[j]? = some b →
    i ≠ j → a.save = some p → b.save = some q → Apart (components p) (components q)

/-- A path is apart from every name that is not its root. -/
theorem apart_of_root_ne {p name : String} (hname : components name = [name]) (hne : pathRoot p ≠ name) :
    Apart (components p) (components name) := by
  have hroot := pathRoot_components p
  obtain ⟨root, rest, hp⟩ := List.exists_cons_of_ne_nil (components_ne_nil p)
  rw [hp, List.head?_cons, Option.some.injEq] at hroot
  rw [hp, hname]
  exact Apart.of_head_ne (hroot ▸ hne) rest []

end ScenarioDef

/-- In an accepted scenario no name is in the way of another. -/
theorem ScenarioSpec.namesApart {spec : ScenarioSpec} {parseUrl : String → Option String}
    (hok : spec.validate parseUrl = .ok ()) : spec.scenario.NamesApart := by
  rw [ScenarioSpec.validate] at hok
  simp only [bind_eq_ok, bailIf_eq_ok] at hok
  obtain ⟨-, -, -, -, -, -, -, -, -, -, -, -, ⟨⟩, hbindings, saves, hsaves, -⟩ := hok
  have hcollected := ScenarioDef.collectSaves_ok hsaves
  have hbinding : ∀ b ∈ spec.scenario.bindings,
      validateVariablePath b.1 = .ok () ∧ components b.1 = [b.1] := by
    intro b hb
    obtain ⟨⟨⟩, hname, -⟩ := bind_eq_ok.1 (Fallible.forM_ok.1 hbindings b hb)
    exact RuntimeContext.validateComponent_ok hname
  refine ⟨hbinding, fun {i step p} hstep hp => ?_, hcollected.apart⟩
  obtain ⟨hpath, hroot⟩ := hcollected.valid hstep hp
  refine ⟨hpath, fun b hb => ScenarioDef.apart_of_root_ne (hbinding b hb).2 ?_⟩
  intro heq
  rw [List.lookup_eq_none_iff] at hroot
  have := hroot b hb
  simp [heq] at this

end TxGen
