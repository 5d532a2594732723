import TxGen.Core.Merge
import TxGen.Generate.Substitution

set_option autoImplicit false

/-! # Which steps use inline access keys

Before a run the adapter looks at the template of a step with its overlay as it is written; the
transaction is built from the template with the overlay materialized. An overlay that is as a whole an
expression shows nothing of what it adds, and hides the template that it is merged into. -/

namespace TxGen

/-! ## The authentication of a template -/

/-- The value under `auth`. -/
def templateAuth (value : Yaml) : Option Yaml :=
  match value.untagRef with
  | .mapping entries => Yaml.get entries "auth"
  | _ => none

/-- The mode, when it is written as a string. -/
def authMode (auth : Yaml) : Option String :=
  match auth.untagRef with
  | .mapping entries => (Yaml.get entries "mode").bind fun mode => mode.untagRef.asStr
  | _ => none

/-- The group of inline access keys. -/
def inlineAccessKeyGroup : String := "tempo:inline-access-key"

def scenarioUniqueNonceGroup (template overlay : Yaml) : Option String :=
  match (templateAuth (template.merge overlay)).filter (·.untagRef ≠ .null) with
  | none => none
  | some auth =>
    match authMode auth with
    | none => some inlineAccessKeyGroup
    | some mode => if mode = "key_authorization" then some inlineAccessKeyGroup else none

/-- A mapping whose only key is an operator. -/
def Yaml.isExpression : Yaml → Bool
  | .mapping [(key, _)] => (recognizedOperator key).isSome
  | _ => false

def Yaml.isSequence : Yaml → Bool
  | .sequence _ => true
  | _ => false

theorem Yaml.asStr_eq_some {value : Yaml} {s : String} : value.asStr = some s ↔ value = .string s := by
  cases value <;> simp [asStr]

/-! ## What a template must have for an inline access key -/

/-- Not absent, and not written as another mode. -/
def AuthDetected (auth : Yaml) : Prop :=
  auth.untagRef ≠ .null ∧ ∀ mode, authMode auth = some mode → mode = "key_authorization"

/-- The fields of the authentication, by position or by name with a mode that is not another one. -/
def AuthWritten (auth : Yaml) : Prop :=
  match auth.untagRef with
  | .sequence _ => True
  | .mapping entries => ∃ mode, Yaml.get entries "mode" = some mode ∧
      ∀ s, mode.untagRef = .string s → s = "key_authorization"
  | _ => False

theorem scenarioUniqueNonceGroup_iff {template overlay : Yaml} :
    scenarioUniqueNonceGroup template overlay = some inlineAccessKeyGroup ↔
      ∃ auth, templateAuth (template.merge overlay) = some auth ∧ AuthDetected auth := by
  rw [scenarioUniqueNonceGroup]
  cases hauth : templateAuth (template.merge overlay) with
  | none => simp
  | some auth =>
      by_cases hnull : auth.untagRef = .null
      · simp [Option.filter, hnull, AuthDetected]
      · cases hmode : authMode auth with
        | none => simp [Option.filter, hnull, hmode, AuthDetected]
        | some mode => simp [Option.filter, hnull, hmode, AuthDetected]

theorem AuthWritten.detected {auth : Yaml} (h : AuthWritten auth) : AuthDetected auth := by
  rw [AuthWritten] at h
  split at h
  · next values hauth => simp [AuthDetected, authMode, hauth]
  · next entries hauth =>
      obtain ⟨mode, hget, hmode⟩ := h
      refine ⟨by simp [hauth], fun s hs => hmode s ?_⟩
      simpa [authMode, hauth, hget, Yaml.asStr_eq_some] using hs
  · exact h.elim

/-! ## Materializing an overlay -/

section Materialize

variable {τ ν : Type} {abi : Abi τ ν} {ctx : RuntimeContext}

theorem recognizedOperator_var {key : Yaml} (h : recognizedOperator key = some .var) :
    key = .string "var" := by
  cases key with
  | string s =>
      simp only [recognizedOperator, Yaml.asStr] at h
      split at h <;> simp_all
  | _ => cases h

/-- An expression that is not a reference has a string as its value. -/
theorem materializeYaml_operator {key operand value : Yaml} {operator : Operator}
    (hkey : recognizedOperator key = some operator) (hvar : operator ≠ .var)
    (h : materializeYaml abi ctx (.mapping [(key, operand)]) = .ok value) :
    ∃ s, value = .string s := by
  simp only [materializeYaml, hkey, bind_eq_ok] at h
  obtain ⟨runtime, hruntime, h⟩ := h
  obtain rfl := Except.ok.inj h
  cases operator with
  | var => exact absurd rfl hvar
  | _ =>
      simp only [applyOperator, bind_eq_ok] at hruntime
      first
        | (obtain ⟨_, _, _, _, hruntime⟩ := hruntime
           obtain rfl := Except.ok.inj hruntime
           exact ⟨_, rfl⟩)
        | (obtain ⟨_, _, hruntime⟩ := hruntime
           obtain rfl := Except.ok.inj hruntime
           exact ⟨_, rfl⟩)

theorem materializeEntries_ok {entries entries' : List (Yaml × Yaml)} :
    materializeEntries abi ctx entries = .ok entries' ↔
      Yaml.EntriesRel (fun value value' => materializeYaml abi ctx value = .ok value')
        entries entries' := by
  induction entries generalizing entries' with
  | nil => simp [materializeEntries, Yaml.EntriesRel, eq_comm]
  | cons e entries ih =>
      obtain ⟨key, value⟩ := e
      rw [materializeEntries, Yaml.EntriesRel, List.forall₂_cons_left_iff]
      simp only [bind_eq_ok, ih]
      constructor
      · rintro ⟨value', hvalue, rest, hrest, heq⟩
        obtain rfl := Except.ok.inj heq
        exact ⟨_, _, ⟨rfl, hvalue⟩, hrest, rfl⟩
      · rintro ⟨⟨key', value'⟩, rest, ⟨hkey, hvalue⟩, hrest, rfl⟩
        exact ⟨value', hvalue, rest, hrest, by rw [← hkey]; rfl⟩

/-- A mapping that is not an expression keeps its keys. -/
theorem materializeYaml_mapping {entries : List (Yaml × Yaml)} {value : Yaml}
    (hplain : (Yaml.mapping entries).isExpression = false)
    (h : materializeYaml abi ctx (.mapping entries) = .ok value) :
    ∃ entries', value = .mapping entries' ∧
      Yaml.EntriesRel (fun value value' => materializeYaml abi ctx value = .ok value')
        entries entries' := by
  have hmany : ∀ entries : List (Yaml × Yaml), (do
      noOperator entries
      return .mapping (← materializeEntries abi ctx entries) : Except Report Yaml) = .ok value →
      ∃ entries', value = .mapping entries' ∧ Yaml.EntriesRel
        (fun value value' => materializeYaml abi ctx value = .ok value') entries entries' := by
    intro entries h
    simp only [bind_eq_ok] at h
    obtain ⟨_, _, entries', hentries, h⟩ := h
    exact ⟨entries', (Except.ok.inj h).symm, materializeEntries_ok.1 hentries⟩
  rcases entries with _ | ⟨⟨key, operand⟩, _ | ⟨second, rest⟩⟩
  · exact hmany _ h
  · have hkey : recognizedOperator key = none := by simpa [Yaml.isExpression] using hplain
    simp only [materializeYaml, hkey, bind_eq_ok] at h
    obtain ⟨operand', hoperand, h⟩ := h
    exact ⟨[(key, operand')], (Except.ok.inj h).symm, .cons ⟨rfl, hoperand⟩ .nil⟩
  · exact hmany _ h

/-- Strings stay as they are, below tags too. -/
theorem untagRef_materialize_string : ∀ {value value' : Yaml} {s : String},
    materializeYaml abi ctx value = .ok value' → value.untagRef = .string s →
      value'.untagRef = .string s
  | .string _, value', s, h, hs => by
      rw [materializeYaml] at h
      · obtain rfl := Except.ok.inj h
        exact hs
      all_goals simp
  | .tagged tag value, value', s, h, hs => by
      simp only [materializeYaml, bind_eq_ok] at h
      obtain ⟨inner, hinner, h⟩ := h
      obtain rfl := Except.ok.inj h
      have hinner' : inner.untagRef = .string s := untagRef_materialize_string hinner hs
      exact hinner'
  | .null, _, _, _, hs => by cases hs
  | .bool _, _, _, _, hs => by cases hs
  | .number _, _, _, _, hs => by cases hs
  | .sequence _, _, _, _, hs => by cases hs
  | .mapping _, _, _, _, hs => by cases hs

/-- The only key of an expression is an operator, so no mode is written. -/
theorem detected_of_isExpression {value : Yaml} (h : value.isExpression = true) :
    AuthDetected value := by
  unfold Yaml.isExpression at h
  split at h
  · next key operand =>
      refine ⟨by simp [Yaml.untagRef], fun s hs => ?_⟩
      have hmode : key ≠ .string "mode" := by
        rintro rfl
        cases h
      simp [authMode, Yaml.untagRef, Yaml.get_cons, hmode] at hs
  · cases h

/-- What is written as an authentication with an expression for it is detected. -/
theorem detected_of_materialize : ∀ {value value' : Yaml},
    materializeYaml abi ctx value = .ok value' → AuthWritten value' → AuthDetected value
  | .mapping entries, value', h, hwritten => by
      cases hexpr : (Yaml.mapping entries).isExpression with
      | true =>
          exact detected_of_isExpression hexpr
      | false =>
          obtain ⟨entries', rfl, hrel⟩ := materializeYaml_mapping hexpr h
          refine ⟨by simp [Yaml.untagRef], fun s hs => ?_⟩
          obtain ⟨mode', hmode', hwritten⟩ := hwritten
          rcases hrel.get_cases "mode" with ⟨hnone, -⟩ | ⟨mode, new, hget, hnew, hmode⟩
          · simp [authMode, Yaml.untagRef, hnone] at hs
          · obtain rfl := Option.some.inj (hnew.symm.trans hmode')
            simp only [authMode, Yaml.untagRef, hget, Option.bind_some] at hs
            exact hwritten s (untagRef_materialize_string hmode (Yaml.asStr_eq_some.1 hs))
  | .tagged tag value, value', h, hwritten => by
      simp only [materializeYaml, bind_eq_ok] at h
      obtain ⟨inner, hinner, h⟩ := h
      obtain rfl := Except.ok.inj h
      have hinner' : AuthDetected value := detected_of_materialize hinner hwritten
      exact hinner'
  | .sequence values, _, _, _ => ⟨by simp [Yaml.untagRef], fun s hs => by cases hs⟩
  | .null, _, h, hwritten | .bool _, _, h, hwritten | .number _, _, h, hwritten
  | .string _, _, h, hwritten => by
      rw [materializeYaml] at h
      · obtain rfl := Except.ok.inj h
        exact hwritten.elim
      all_goals simp

/-! ## Merging the overlay -/

theorem not_mapping_materialize {value value' : Yaml} (hvalue : ∀ entries, value ≠ .mapping entries)
    (h : materializeYaml abi ctx value = .ok value') :
    (∀ entries, value' ≠ .mapping entries) ∧ (value ≠ .null → value' ≠ .null) := by
  cases value with
  | mapping entries => exact absurd rfl (hvalue entries)
  | sequence values =>
      simp only [materializeYaml, bind_eq_ok] at h
      obtain ⟨values', -, h⟩ := h
      obtain rfl := Except.ok.inj h
      exact ⟨by simp, by simp⟩
  | tagged tag value =>
      simp only [materializeYaml, bind_eq_ok] at h
      obtain ⟨inner, -, h⟩ := h
      obtain rfl := Except.ok.inj h
      exact ⟨by simp, by simp⟩
  | _ =>
      rw [materializeYaml] at h
      · obtain rfl := Except.ok.inj h
        exact ⟨hvalue, id⟩
      all_goals simp

theorem isVarRef_of_keys {entries entries' : List (Yaml × Yaml)}
    (h : entries'.map Prod.fst = entries.map Prod.fst)
    (hplain : (Yaml.mapping entries).isExpression = false) :
    (Yaml.mapping entries').isVarRef = false := by
  unfold Yaml.isVarRef
  split
  · next value heq =>
      cases heq
      match entries, h, hplain with
      | [(key, operand)], h, hplain =>
          obtain rfl : Yaml.string "var" = key := by simpa using h
          cases hplain
  · rfl

/-- An overlay that replaces its base does so when it is materialized. -/
theorem merge_materialize_replaces {base value value' : Yaml} (hnull : value ≠ .null)
    (hreplaces : Yaml.Replaces base value) (hplain : value.isExpression = false)
    (h : materializeYaml abi ctx value = .ok value') : base.merge value' = value' := by
  by_cases hmapping : ∃ entries, value = .mapping entries
  · obtain ⟨entries, rfl⟩ := hmapping
    obtain ⟨entries', rfl, hrel⟩ := materializeYaml_mapping hplain h
    refine Yaml.merge_replaces (by simp) ?_
    rcases hreplaces with hbase | hvar | hbase | hvalue
    · exact .inl hbase
    · rw [isVarRef_of_keys rfl hplain] at hvar
      cases hvar
    · exact .inr (.inr (.inl hbase))
    · exact absurd rfl (hvalue entries)
  · have hno := not_mapping_materialize (fun entries he => hmapping ⟨entries, he⟩) h
    exact Yaml.merge_replaces (hno.2 hnull) (.inr (.inr (.inr hno.1)))

/-- A string stays a string when it is merged. -/
theorem untagRef_merge_string {base value value' : Yaml} {s : String}
    (h : materializeYaml abi ctx value = .ok value')
    (hs : (base.merge value).untagRef = .string s) : (base.merge value').untagRef = .string s := by
  rcases Yaml.merge_cases base value with rfl | ⟨hnull, hreplaces⟩ | ⟨es, es', rfl, rfl, hes, hes'⟩
  · rw [materializeYaml] at h
    · obtain rfl := Except.ok.inj h
      exact hs
    all_goals simp
  · rw [Yaml.merge_replaces hnull hreplaces] at hs
    have hs' := untagRef_materialize_string h hs
    rw [Yaml.merge_replaces (fun hn => by simp [hn, Yaml.untagRef] at hs')
      (.inr (.inr (.inr fun entries hn => by simp [hn, Yaml.untagRef] at hs')))]
    exact hs'
  · rw [Yaml.merge_mapping hes hes'] at hs
    cases hs

theorem untagRef_mergeValue_string {old new new' : Option Yaml} {mode mode' : Yaml} {s : String}
    (h : Option.Rel (fun value value' => materializeYaml abi ctx value = .ok value') new new')
    (hmode : Yaml.mergeValue old new = some mode) (hmode' : Yaml.mergeValue old new' = some mode')
    (hs : mode.untagRef = .string s) : mode'.untagRef = .string s := by
  cases h with
  | none =>
      rw [hmode] at hmode'
      rwa [← Option.some.inj hmode']
  | some hnew =>
      cases old with
      | none =>
          obtain rfl := Option.some.inj hmode
          obtain rfl := Option.some.inj hmode'
          exact untagRef_materialize_string hnew hs
      | some old =>
          obtain rfl := Option.some.inj hmode
          obtain rfl := Option.some.inj hmode'
          exact untagRef_merge_string hnew hs

/-- An authentication that is detected as it is written on top of another one. -/
theorem detected_of_merge {base value value' : Yaml}
    (hkeys : ∀ entries, value = .mapping entries → (entries.map Prod.fst).Nodup)
    (h : materializeYaml abi ctx value = .ok value') (hwritten : AuthWritten (base.merge value')) :
    AuthDetected (base.merge value) := by
  rcases Yaml.merge_cases base value with rfl | ⟨hnull, hreplaces⟩ | ⟨es, es', rfl, rfl, hes, hes'⟩
  · rw [materializeYaml] at h
    · obtain rfl := Except.ok.inj h
      exact hwritten.detected
    all_goals simp
  · rw [Yaml.merge_replaces hnull hreplaces]
    cases hexpr : value.isExpression with
    | true => exact detected_of_isExpression hexpr
    | false =>
        rw [merge_materialize_replaces hnull hreplaces hexpr h] at hwritten
        exact detected_of_materialize h hwritten
  · rw [Yaml.merge_mapping hes hes']
    cases hexpr : (Yaml.mapping es').isExpression with
    | true =>
        -- an operator that is not `var` gives a string, which is no authentication
        unfold Yaml.isExpression at hexpr
        split at hexpr
        · next key operand heq =>
            cases heq
            obtain ⟨operator, hoperator⟩ := Option.isSome_iff_exists.1 hexpr
            have hvar : operator ≠ .var := by
              rintro rfl
              rw [recognizedOperator_var hoperator] at hes'
              cases hes'
            obtain ⟨s, rfl⟩ := materializeYaml_operator hoperator hvar h
            rw [Yaml.merge_replaces (by simp) (.inr (.inr (.inr (by simp))))] at hwritten
            exact hwritten.elim
        · cases hexpr
    | false =>
        obtain ⟨entries', rfl, hrel⟩ := materializeYaml_mapping hexpr h
        rw [Yaml.merge_mapping hes (isVarRef_of_keys hrel.keys hexpr)] at hwritten
        have hnodup := hkeys es' rfl
        obtain ⟨mode', hmode', hkey⟩ := hwritten
        rw [Yaml.get_mergeEntries (by rwa [hrel.keys])] at hmode'
        refine ⟨by simp [Yaml.untagRef], fun s hs => ?_⟩
        simp only [authMode, Yaml.untagRef, Yaml.get_mergeEntries hnodup] at hs
        obtain ⟨mode, hmode, hs⟩ := Option.bind_eq_some_iff.1 hs
        exact hkey s (untagRef_mergeValue_string (hrel.get "mode") hmode hmode'
          (Yaml.asStr_eq_some.1 hs))

/-- The fields of a template that may use an inline access key, by position or with an `auth` that may. -/
def TemplateWritten (value : Yaml) : Prop :=
  value.untagRef.isSequence = true ∨ ∃ auth, templateAuth value = some auth ∧ AuthWritten auth

/-- As the template is written its inline access key can be seen. -/
def TemplateDetected (value : Yaml) : Prop :=
  value.untagRef.isSequence = true ∨ ∃ auth, templateAuth value = some auth ∧ AuthDetected auth

theorem TemplateWritten.detected {value : Yaml} (h : TemplateWritten value) :
    TemplateDetected value :=
  h.imp_right fun ⟨auth, hauth, hwritten⟩ => ⟨auth, hauth, hwritten.detected⟩

/-- An overlay for itself. -/
theorem templateDetected_of_materialize : ∀ {overlay overlay' : Yaml},
    overlay.untagRef.isExpression = false → materializeYaml abi ctx overlay = .ok overlay' →
      TemplateWritten overlay' → TemplateDetected overlay
  | .mapping entries, overlay', hplain, h, hwritten => by
      obtain ⟨entries', rfl, hrel⟩ := materializeYaml_mapping hplain h
      rcases hwritten with hseq | ⟨auth', hauth', hwritten⟩
      · cases hseq
      · rcases hrel.get_cases "auth" with ⟨-, hnone⟩ | ⟨auth, new, hget, hnew, hauth⟩
        · exact absurd (hnone.symm.trans hauth') nofun
        · obtain rfl := Option.some.inj (hnew.symm.trans hauth')
          exact .inr ⟨auth, hget, detected_of_materialize hauth hwritten⟩
  | .tagged tag value, overlay', hplain, h, hwritten => by
      simp only [materializeYaml, bind_eq_ok] at h
      obtain ⟨inner, hinner, h⟩ := h
      obtain rfl := Except.ok.inj h
      have hdetected : TemplateDetected value :=
        templateDetected_of_materialize hplain hinner hwritten
      exact hdetected
  | .sequence values, _, _, _, _ => .inl rfl
  | .null, _, _, h, hwritten | .bool _, _, _, h, hwritten | .number _, _, _, h, hwritten
  | .string _, _, _, h, hwritten => by
      rw [materializeYaml] at h
      · obtain rfl := Except.ok.inj h
        exact hwritten.detected
      all_goals simp

/-- What is seen of a template with an overlay that is not as a whole an expression. -/
theorem templateDetected_of_merge {template overlay overlay' : Yaml}
    (hkeys : overlay.distinctKeys = true) (hplain : overlay.untagRef.isExpression = false)
    (h : materializeYaml abi ctx overlay = .ok overlay')
    (hwritten : TemplateWritten (template.merge overlay')) :
    TemplateDetected (template.merge overlay) := by
  rcases Yaml.merge_cases template overlay with rfl | ⟨hnull, hreplaces⟩ |
    ⟨es, es', rfl, rfl, hes, hes'⟩
  · rw [materializeYaml] at h
    · obtain rfl := Except.ok.inj h
      exact hwritten.detected
    all_goals simp
  · rw [Yaml.merge_replaces hnull hreplaces]
    have hexpr : overlay.isExpression = false := by
      cases overlay <;> first | exact hplain | rfl
    rw [merge_materialize_replaces hnull hreplaces hexpr h] at hwritten
    exact templateDetected_of_materialize hplain h hwritten
  · rw [Yaml.merge_mapping hes hes']
    obtain ⟨entries', rfl, hrel⟩ := materializeYaml_mapping hplain h
    rw [Yaml.merge_mapping hes (isVarRef_of_keys hrel.keys hplain)] at hwritten
    have hnodup := Yaml.nodup_of_distinctKeys hkeys
    rcases hwritten with hseq | ⟨auth', hauth', hwritten⟩
    · cases hseq
    · change Yaml.get (Yaml.mergeEntries es entries') "auth" = some auth' at hauth'
      rw [Yaml.get_mergeEntries (by rwa [hrel.keys])] at hauth'
      refine .inr ?_
      change ∃ auth, Yaml.get (Yaml.mergeEntries es es') "auth" = some auth ∧ AuthDetected auth
      rw [Yaml.get_mergeEntries hnodup]
      rcases hrel.get_cases "auth" with ⟨hnew, hnew'⟩ | ⟨value, value', hnew, hnew', hvalue⟩
      · exact ⟨auth', by rw [← hauth', hnew, hnew'], hwritten.detected⟩
      · rw [hnew'] at hauth'
        rw [hnew]
        cases hold : Yaml.get es "auth" with
        | none =>
            rw [hold] at hauth'
            obtain rfl := Option.some.inj hauth'
            exact ⟨value, rfl, detected_of_materialize hvalue hwritten⟩
        | some old =>
            rw [hold] at hauth'
            obtain rfl := Option.some.inj hauth'
            refine ⟨old.merge value, rfl, detected_of_merge ?_ hvalue hwritten⟩
            rintro entries rfl
            exact Yaml.nodup_of_distinctKeys (Yaml.distinctKeys_get hkeys hnew)

end Materialize

/-! ## References to the setup -/

section Substitute

variable {displayAddress : Address → String} {bindings : Bindings}

/-- The value of a binding has no authentication. -/
theorem not_written_bindingToValue {name : String} {binding : ResolvedBinding}
    {field : Option String} {value : Yaml}
    (h : bindingToValue displayAddress name binding field = .ok value) :
    ¬ TemplateWritten value ∧ ¬ AuthWritten value := by
  rcases bindingToValue_shape displayAddress h with ⟨s, rfl⟩ | ⟨n, rfl⟩ | ⟨pool, index, rfl⟩ <;>
    simp [TemplateWritten, AuthWritten, templateAuth, accountRefValue, Yaml.untagRef,
      Yaml.isSequence, Yaml.get_cons]

theorem substituteVars_mapping {entries : List (Yaml × Yaml)} {value : Yaml}
    (hpath : varPath entries = none)
    (h : substituteVars displayAddress bindings (.mapping entries) = .ok value) :
    ∃ entries', value = .mapping entries' ∧ Yaml.EntriesRel
      (fun value value' => substituteVars displayAddress bindings value = .ok value')
        entries entries' := by
  simp only [substituteVars, hpath, bind_eq_ok] at h
  obtain ⟨entries', hentries, h⟩ := h
  exact ⟨entries', (Except.ok.inj h).symm, (substituteEntries_ok displayAddress).1 hentries⟩

/-- Strings stay as they are, below tags too. -/
theorem untagRef_substitute_string {value value' : Yaml} {s : String}
    (h : substituteVars displayAddress bindings value = .ok value')
    (hs : value.untagRef = .string s) : value'.untagRef = .string s := by
  cases value with
  | mapping entries => cases hs
  | sequence values => cases hs
  | _ =>
      rw [substituteVars] at h
      · obtain rfl := Except.ok.inj h
        exact hs
      all_goals simp

theorem authWritten_of_substitute {auth auth' : Yaml}
    (h : substituteVars displayAddress bindings auth = .ok auth') (hwritten : AuthWritten auth') :
    AuthWritten auth := by
  cases auth with
  | mapping entries =>
      cases hpath : varPath entries with
      | some path =>
          rcases substituteVars_reference displayAddress hpath h with
            ⟨-, rfl⟩ | ⟨name, binding, field, -, hbinding⟩
          · exact hwritten
          · exact absurd hwritten (not_written_bindingToValue hbinding).2
      | none =>
          obtain ⟨entries', rfl, hrel⟩ := substituteVars_mapping hpath h
          obtain ⟨mode', hmode', hkey⟩ := hwritten
          rcases hrel.get_cases "mode" with ⟨-, hnone⟩ | ⟨mode, new, hget, hnew, hmode⟩
          · exact absurd (hnone.symm.trans hmode') nofun
          · obtain rfl := Option.some.inj (hnew.symm.trans hmode')
            exact ⟨mode, hget, fun s hs => hkey s (untagRef_substitute_string hmode hs)⟩
  | sequence values => trivial
  | _ =>
      rw [substituteVars] at h
      · obtain rfl := Except.ok.inj h
        exact hwritten
      all_goals simp

theorem templateWritten_of_substitute {value value' : Yaml}
    (h : substituteVars displayAddress bindings value = .ok value')
    (hwritten : TemplateWritten value') : TemplateWritten value := by
  cases value with
  | mapping entries =>
      cases hpath : varPath entries with
      | some path =>
          rcases substituteVars_reference displayAddress hpath h with
            ⟨-, rfl⟩ | ⟨name, binding, field, -, hbinding⟩
          · exact hwritten
          · exact absurd hwritten (not_written_bindingToValue hbinding).1
      | none =>
          obtain ⟨entries', rfl, hrel⟩ := substituteVars_mapping hpath h
          rcases hwritten with hseq | ⟨auth', hauth', hwritten⟩
          · cases hseq
          · rcases hrel.get_cases "auth" with ⟨-, hnone⟩ | ⟨auth, new, hget, hnew, hauth⟩
            · exact absurd (hnone.symm.trans hauth') nofun
            · obtain rfl := Option.some.inj (hnew.symm.trans hauth')
              exact .inr ⟨auth, hget, authWritten_of_substitute hauth hwritten⟩
  | sequence values => exact .inl rfl
  | _ =>
      rw [substituteVars] at h
      · obtain rfl := Except.ok.inj h
        exact hwritten
      all_goals simp

end Substitute

/-! ## Templates as they are built -/

section Materialized

variable {τ ν : Type} (abi : Abi τ ν) (ctx : RuntimeContext) (bindings : Bindings)

/-- The template of a submission: with its overlay, and the references to the setup replaced. -/
def materializedTemplate (template overlay : Yaml) : Except Report Yaml := do
  let overlay ← materializeYaml abi ctx overlay
  substituteVars abi.displayAddress bindings (template.merge overlay)

/-- **Detection.** A template that uses an inline access key is detected, unless its overlay is as a
    whole an expression or it is written as a list. -/
theorem detected_of_materialized {template overlay value : Yaml}
    (h : materializedTemplate abi ctx bindings template overlay = .ok value)
    (hkeys : overlay.distinctKeys = true) (hplain : overlay.untagRef.isExpression = false)
    (hfields : (template.merge overlay).untagRef.isSequence = false)
    (hwritten : TemplateWritten value) :
    scenarioUniqueNonceGroup template overlay = some inlineAccessKeyGroup := by
  obtain ⟨overlay', hoverlay, hsubstitute⟩ := bind_eq_ok.1 h
  have hmerged := templateWritten_of_substitute hsubstitute hwritten
  rcases templateDetected_of_merge hkeys hplain hoverlay hmerged with hseq | hauth
  · rw [hfields] at hseq
    cases hseq
  · exact scenarioUniqueNonceGroup_iff.2 hauth

end Materialized

end TxGen
