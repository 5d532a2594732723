import TxGen.Scenario.Graph
import TxGen.Scenario.Results
import TxGen.Scenario.Validation

set_option autoImplicit false

/-! # What an expression reads

`variablePaths` collects the references of an expression before anything runs. Here it is compared with
evaluation: an expression reads nothing of the context but its references, so that in two contexts that
agree on them it has the same value, or fails with the same error. A step reads the references of its
expressions, and one more if its arguments, taken together, have the form of a reference. -/

namespace TxGen

section Agreement

variable {τ ν : Type} (abi : Abi τ ν) (ctx₁ ctx₂ : RuntimeContext)

/-- The paths resolve alike. -/
def SameAt (paths : List String) : Prop := ∀ p ∈ paths, ctx₁.get p = ctx₂.get p

/-- Whatever is done with the expression comes out alike. -/
structure AlikeIn (e : Yaml) : Prop where
  eval : evalExpression abi ctx₁ e = evalExpression abi ctx₂ e
  operands : operandValues abi ctx₁ e = operandValues abi ctx₂ e
  materialize : materializeYaml abi ctx₁ e = materializeYaml abi ctx₂ e

variable {abi ctx₁ ctx₂}

theorem SameAt.append {xs ys : List String} (h : SameAt ctx₁ ctx₂ (xs ++ ys)) :
    SameAt ctx₁ ctx₂ xs ∧ SameAt ctx₁ ctx₂ ys :=
  ⟨fun p hp => h p (List.mem_append_left _ hp), fun p hp => h p (List.mem_append_right _ hp)⟩

/-! ## Parts of a value -/

theorem evalList_alike {values : List Yaml} (h : ∀ v ∈ values, AlikeIn abi ctx₁ ctx₂ v) :
    evalList abi ctx₁ values = evalList abi ctx₂ values ∧
      evalEach abi ctx₁ values = evalEach abi ctx₂ values ∧
      materializeList abi ctx₁ values = materializeList abi ctx₂ values := by
  induction values with
  | nil => exact ⟨rfl, rfl, rfl⟩
  | cons v values ih =>
      obtain ⟨hv, hrest⟩ := List.forall_mem_cons.1 h
      obtain ⟨hlist, heach, hmaterialize⟩ := ih hrest
      simp only [evalList, evalEach, materializeList, hv.eval, hv.materialize, hlist, heach,
        hmaterialize, and_self]

theorem evalEntries_alike {entries : List (Yaml × Yaml)}
    (h : ∀ e ∈ entries, AlikeIn abi ctx₁ ctx₂ e.2) :
    evalEntries abi ctx₁ entries = evalEntries abi ctx₂ entries ∧
      materializeEntries abi ctx₁ entries = materializeEntries abi ctx₂ entries := by
  induction entries with
  | nil => exact ⟨rfl, rfl⟩
  | cons e entries ih =>
      obtain ⟨key, v⟩ := e
      obtain ⟨hv, hrest⟩ := List.forall_mem_cons.1 h
      obtain ⟨hentries, hmaterialize⟩ := ih hrest
      refine ⟨?_, ?_⟩
      · cases key <;> simp only [evalEntries, hv.eval, hentries]
      · simp only [materializeEntries, hv.materialize, hmaterialize]

/-- The values of a typed expression are those of its `values`. -/
theorem typedValues_alike {entries : List (Yaml × Yaml)}
    (h : ∀ e ∈ entries, AlikeIn abi ctx₁ ctx₂ e.2) :
    typedValues abi ctx₁ entries = typedValues abi ctx₂ entries := by
  induction entries with
  | nil => rfl
  | cons e entries ih =>
      obtain ⟨hv, hrest⟩ := List.forall_mem_cons.1 h
      unfold typedValues
      split
      · rfl
      · rename_i heq
        obtain ⟨rfl, -⟩ := List.cons.inj heq
        simpa only [operandValues] using hv.operands
      · rename_i heq
        obtain ⟨-, rfl⟩ := List.cons.inj heq
        exact ih hrest

theorem applyOperator_alike {operator : Operator} {operand : Yaml}
    (h : AlikeIn abi ctx₁ ctx₂ operand) (hvar : operator ≠ .var) :
    applyOperator abi ctx₁ operator operand (evalExpression abi ctx₁ operand)
        (operandValues abi ctx₁ operand) =
      applyOperator abi ctx₂ operator operand (evalExpression abi ctx₂ operand)
        (operandValues abi ctx₂ operand) := by
  rw [h.eval, h.operands]
  cases operator <;> first | exact absurd rfl hvar | rfl

theorem AlikeIn.sequence {values : List Yaml} (h : ∀ v ∈ values, AlikeIn abi ctx₁ ctx₂ v) :
    AlikeIn abi ctx₁ ctx₂ (.sequence values) := by
  obtain ⟨hlist, heach, hmaterialize⟩ := evalList_alike h
  constructor <;> simp only [evalExpression, operandValues, materializeYaml, hlist, heach, hmaterialize]

/-- A reference is the only mapping that is more than its values. -/
theorem AlikeIn.mapping {entries : List (Yaml × Yaml)} (h : ∀ e ∈ entries, AlikeIn abi ctx₁ ctx₂ e.2)
    (hvar : ∀ key path, entries = [(key, .string path)] → recognizedOperator key = some .var →
      ctx₁.get path = ctx₂.get path) : AlikeIn abi ctx₁ ctx₂ (.mapping entries) := by
  refine ⟨?_, by simp only [operandValues, typedValues_alike h], ?_⟩
  · match entries, h, hvar with
    | [], _, _ => rfl
    | [(key, operand)], h, hvar =>
        have hoperand := h _ List.mem_cons_self
        unfold evalExpression
        cases hop : recognizedOperator key with
        | none => cases key <;> simp only [hoperand.eval]
        | some operator =>
            by_cases hoperator : operator = .var
            · subst hoperator
              cases operand <;> first | exact hvar key _ rfl hop | rfl
            · exact applyOperator_alike hoperand hoperator
    | a :: b :: rest, h, _ => simp only [evalExpression, (evalEntries_alike h).1]
  · match entries, h, hvar with
    | [], _, _ => rfl
    | [(key, operand)], h, hvar =>
        have hoperand := h _ List.mem_cons_self
        unfold materializeYaml
        cases hop : recognizedOperator key with
        | none => simp only [hoperand.materialize]
        | some operator =>
            by_cases hoperator : operator = .var
            · subst hoperator
              cases operand <;> simp only [applyOperator]
              rw [hvar key _ rfl hop]
            · simp only [applyOperator_alike hoperand hoperator]
    | a :: b :: rest, h, _ => simp only [materializeYaml, (evalEntries_alike h).2]

/-! ## Values -/

/-- A mapping is a reference, or its references are those of its values. -/
theorem variablePaths_mapping {entries : List (Yaml × Yaml)} {paths : List String}
    (h : variablePaths (.mapping entries) = .ok paths) :
    (∃ key path, entries = [(key, .string path)] ∧ recognizedOperator key = some .var ∧
      validateVariablePath path = .ok () ∧ paths = [path]) ∨
    variablePathsEntries entries = .ok paths ∧
      ∀ key path, entries = [(key, .string path)] → recognizedOperator key ≠ some .var := by
  match entries, h with
  | [], h => exact Or.inr ⟨h, nofun⟩
  | [(key, operand)], h =>
      unfold variablePaths at h
      by_cases hvar : recognizedOperator key = some .var
      · rw [hvar] at h
        cases operand with
        | string path =>
            obtain ⟨⟨⟩, hpath, h⟩ := bind_eq_ok.1 h
            exact Or.inl ⟨key, path, rfl, hvar, hpath, (Except.ok.inj h).symm⟩
        | _ => exact absurd h bail_ne_ok
      · refine Or.inr ⟨?_, fun k path heq => ?_⟩
        · have hpaths : variablePaths operand = .ok paths := by
            split at h
            · rename_i hop
              exact absurd hop hvar
            · exact h
          simp only [variablePathsEntries, hpaths]
          exact congrArg Except.ok (List.append_nil paths)
        · obtain ⟨rfl, -⟩ := Prod.mk.inj (List.cons.inj heq).1
          exact hvar
  | a :: b :: rest, h =>
      unfold variablePaths at h
      obtain ⟨⟨⟩, -, h⟩ := bind_eq_ok.1 h
      exact Or.inr ⟨h, nofun⟩

mutual

/-- An expression reads its references only. -/
theorem alike_of_sameAt : ∀ {e : Yaml} {paths : List String}, variablePaths e = .ok paths →
    SameAt ctx₁ ctx₂ paths → AlikeIn abi ctx₁ ctx₂ e
  | .mapping entries, paths, h, hsame => by
      rcases variablePaths_mapping h with ⟨key, path, rfl, hop, -, rfl⟩ | ⟨hentries, hnot⟩
      · have hstring : AlikeIn abi ctx₁ ctx₂ (.string path) := ⟨rfl, rfl, rfl⟩
        refine .mapping (List.forall_mem_singleton.2 hstring) fun k p heq _ => ?_
        obtain ⟨-, hp⟩ := Prod.mk.inj (List.cons.inj heq).1
        obtain rfl := Yaml.string.inj hp
        exact hsame _ List.mem_cons_self
      · exact .mapping (alike_entries hentries hsame) fun k p heq hop => absurd hop (hnot k p heq)
  | .sequence values, _, h, hsame => .sequence (alike_values h hsame)
  | .tagged tag v, _, h, hsame => by
      have hv : AlikeIn abi ctx₁ ctx₂ v := alike_of_sameAt h hsame
      refine ⟨hv.eval, rfl, ?_⟩
      simp only [materializeYaml, hv.materialize]
  | .null, _, _, _ => ⟨rfl, rfl, rfl⟩
  | .bool _, _, _, _ => ⟨rfl, rfl, rfl⟩
  | .number _, _, _, _ => ⟨rfl, rfl, rfl⟩
  | .string _, _, _, _ => ⟨rfl, rfl, rfl⟩

theorem alike_values : ∀ {values : List Yaml} {paths : List String},
    variablePathsList values = .ok paths → SameAt ctx₁ ctx₂ paths →
    ∀ v ∈ values, AlikeIn abi ctx₁ ctx₂ v
  | [], _, _, _ => nofun
  | v :: values, _, h, hsame => by
      obtain ⟨xs, hxs, h⟩ := bind_eq_ok.1 h
      obtain ⟨ys, hys, h⟩ := bind_eq_ok.1 h
      obtain rfl := Except.ok.inj h
      obtain ⟨hfirst, hrest⟩ := hsame.append
      exact List.forall_mem_cons.2 ⟨alike_of_sameAt hxs hfirst, alike_values hys hrest⟩

theorem alike_entries : ∀ {entries : List (Yaml × Yaml)} {paths : List String},
    variablePathsEntries entries = .ok paths → SameAt ctx₁ ctx₂ paths →
    ∀ e ∈ entries, AlikeIn abi ctx₁ ctx₂ e.2
  | [], _, _, _ => nofun
  | (_, v) :: entries, _, h, hsame => by
      obtain ⟨xs, hxs, h⟩ := bind_eq_ok.1 h
      obtain ⟨ys, hys, h⟩ := bind_eq_ok.1 h
      obtain rfl := Except.ok.inj h
      obtain ⟨hfirst, hrest⟩ := hsame.append
      exact List.forall_mem_cons.2 ⟨alike_of_sameAt hxs hfirst, alike_entries hys hrest⟩

end

/-! ## Steps -/

theorem expressionAs_alike {e : Yaml} (h : AlikeIn abi ctx₁ ctx₂ e) (typeName : String) :
    expressionAs abi ctx₁ typeName e = expressionAs abi ctx₂ typeName e := by
  simp only [expressionAs, h.eval]

theorem optionalAs_alike {e : Option Yaml} (h : ∀ x ∈ e.toList, AlikeIn abi ctx₁ ctx₂ x)
    (typeName : String) : optionalAs abi ctx₁ typeName e = optionalAs abi ctx₂ typeName e := by
  cases e with
  | none => rfl
  | some e => simp only [optionalAs, expressionAs_alike (h e (by simp))]

theorem resolveFilters_alike {filters : List (String × Yaml)}
    (h : ∀ x ∈ filters.map Prod.snd, AlikeIn abi ctx₁ ctx₂ x) :
    resolveFilters abi ctx₁ filters = resolveFilters abi ctx₂ filters := by
  induction filters with
  | nil => rfl
  | cons filter filters ih =>
      obtain ⟨hfirst, hrest⟩ := List.forall_mem_cons.1 h
      simp only [resolveFilters, hfirst.eval, ih hrest]

theorem prepareReceiptEvents_alike {events : List (String × ReceiptEventDef)}
    (h : ∀ e ∈ events, ∀ x ∈ e.2.address.toList ++ e.2.whereValue.map Prod.snd,
      AlikeIn abi ctx₁ ctx₂ x) :
    prepareReceiptEvents abi ctx₁ events = prepareReceiptEvents abi ctx₂ events := by
  induction events with
  | nil => rfl
  | cons event events ih =>
      obtain ⟨hfirst, hrest⟩ := List.forall_mem_cons.1 h
      obtain ⟨haddress, hfilters⟩ := List.forall_mem_append.1 hfirst
      simp only [prepareReceiptEvents, optionalAs_alike haddress, resolveFilters_alike hfilters, ih hrest]

end Agreement

/-- The reference that the arguments of an `invoke` are when there is only one and it is called `var`. -/
def StepDef.wholeReference (step : StepDef) : Option String :=
  match step.action with
  | .invoke invoke =>
    match invoke.withValue with
    | [("var", .string path)] => some path
    | _ => none
  | _ => none

section Agreement

variable {τ ν : Type} {abi : Abi τ ν} {ctx₁ ctx₂ : RuntimeContext}

theorem recognizedOperator_eq_var {key : Yaml} (h : recognizedOperator key = some .var) :
    key = .string "var" := by
  unfold recognizedOperator at h
  split at h
  · rename_i hkey
    cases key <;> simp_all [Yaml.asStr]
  all_goals cases h

/-- A step reads the references of its expressions, and that of its arguments taken together. -/
theorem prepare_alike {step : StepDef} (h : ∀ e ∈ step.expressions, AlikeIn abi ctx₁ ctx₂ e)
    (hwhole : ∀ path, step.wholeReference = some path → ctx₁.get path = ctx₂.get path) :
    step.prepare abi ctx₁ = step.prepare abi ctx₂ := by
  unfold StepDef.prepare
  unfold StepDef.expressions at h
  unfold StepDef.wholeReference at hwhole
  cases hstep : step.action with
  | checkpoint _ => rfl
  | invoke invoke =>
      simp only [hstep] at h hwhole
      have harguments : AlikeIn abi ctx₁ ctx₂
          (.mapping (invoke.withValue.map fun e => (.string e.1, e.2))) := by
        refine .mapping (fun e he => ?_) fun key path hsingle hop => hwhole path ?_
        · obtain ⟨x, hx, rfl⟩ := List.mem_map.1 he
          exact h x.2 (List.mem_map_of_mem hx)
        · obtain ⟨e, he, hkey⟩ := List.map_eq_singleton_iff.1 hsingle
          obtain ⟨rfl, hvalue⟩ := Prod.mk.inj hkey
          obtain ⟨name, value⟩ := e
          obtain rfl : value = .string path := hvalue
          obtain rfl : name = "var" := Yaml.string.inj (recognizedOperator_eq_var hop)
          simp only [he]
      simp only [harguments.materialize]
  | submit submit =>
      simp only [hstep, List.forall_mem_singleton] at h
      simp only [h.materialize]
  | waitReceipt wait =>
      simp only [hstep, List.forall_mem_cons] at h
      simp only [expressionAs_alike h.1, optionalAs_alike h.2]
  | waitLog wait =>
      simp only [hstep, List.forall_mem_append] at h
      obtain ⟨⟨⟨⟨⟨hfrom, haddress⟩, hhash⟩, hsender⟩, hfilters⟩, hevents⟩ := h
      have hgroup : ∀ e ∈ wait.events, ∀ x ∈ e.2.address.toList ++ e.2.whereValue.map Prod.snd,
          AlikeIn abi ctx₁ ctx₂ x := fun e he x hx => hevents x (List.mem_flatMap.2 ⟨e, he, hx⟩)
      simp only [prepareWaitLog]
      split
      · simp only [resolveFilters_alike hfilters, optionalAs_alike haddress, optionalAs_alike hhash,
          optionalAs_alike hsender, optionalAs_alike hfrom]
      · cases htx : wait.transactionHash with
        | none => rfl
        | some transactionHash =>
            have htx' : AlikeIn abi ctx₁ ctx₂ transactionHash := hhash _ (by simp [htx])
            simp only [expressionAs_alike htx', optionalAs_alike hsender,
              prepareReceiptEvents_alike hgroup]

end Agreement

/-! ## Accepted references -/

mutual

/-- The references of an expression are well formed. -/
theorem variablePaths_valid : ∀ {e : Yaml} {paths : List String}, variablePaths e = .ok paths →
    ∀ p ∈ paths, validateVariablePath p = .ok ()
  | .mapping entries, paths, h => by
      rcases variablePaths_mapping h with ⟨key, path, rfl, -, hpath, rfl⟩ | ⟨hentries, -⟩
      · exact List.forall_mem_singleton.2 hpath
      · exact variablePathsEntries_valid hentries
  | .sequence values, _, h => variablePathsList_valid h
  | .tagged _ v, _, h => @variablePaths_valid v _ h
  | .null, _, h => by obtain rfl := Except.ok.inj h; exact nofun
  | .bool _, _, h => by obtain rfl := Except.ok.inj h; exact nofun
  | .number _, _, h => by obtain rfl := Except.ok.inj h; exact nofun
  | .string _, _, h => by obtain rfl := Except.ok.inj h; exact nofun

theorem variablePathsList_valid : ∀ {values : List Yaml} {paths : List String},
    variablePathsList values = .ok paths → ∀ p ∈ paths, validateVariablePath p = .ok ()
  | [], _, h => by obtain rfl := Except.ok.inj h; exact nofun
  | v :: values, _, h => by
      obtain ⟨xs, hxs, h⟩ := bind_eq_ok.1 h
      obtain ⟨ys, hys, h⟩ := bind_eq_ok.1 h
      obtain rfl := Except.ok.inj h
      exact List.forall_mem_append.2 ⟨variablePaths_valid hxs, variablePathsList_valid hys⟩

theorem variablePathsEntries_valid : ∀ {entries : List (Yaml × Yaml)} {paths : List String},
    variablePathsEntries entries = .ok paths → ∀ p ∈ paths, validateVariablePath p = .ok ()
  | [], _, h => by obtain rfl := Except.ok.inj h; exact nofun
  | (_, v) :: entries, _, h => by
      obtain ⟨xs, hxs, h⟩ := bind_eq_ok.1 h
      obtain ⟨ys, hys, h⟩ := bind_eq_ok.1 h
      obtain rfl := Except.ok.inj h
      exact List.forall_mem_append.2 ⟨variablePaths_valid hxs, variablePathsEntries_valid hys⟩

end

theorem mem_sortedSet {xs : List String} {x : String} : x ∈ sortedSet xs ↔ x ∈ xs := by
  have hset : sortedSet xs = (OrdMap.ofList (xs.map fun x => (x, ()))).map Prod.fst := by
    rw [sortedSet, OrdMap.ofList, List.foldl_map]
  rw [hset]
  constructor
  · intro hx
    obtain ⟨e, he, rfl⟩ := List.mem_map.1 hx
    obtain ⟨y, hy, rfl⟩ := List.mem_map.1 (OrdMap.mem_of_mem_ofList he)
    exact hy
  · intro hx
    by_contra hnot
    have hnone : OrdMap.get? x (OrdMap.ofList (xs.map fun x => (x, ()))) = none := by
      by_contra hsome
      obtain ⟨v, hv⟩ := Option.ne_none_iff_exists'.1 hsome
      exact hnot (List.mem_map.2 ⟨_, OrdMap.mem_of_get? hv, rfl⟩)
    rw [OrdMap.ofList, OrdMap.get?_foldl_set, Option.or_eq_none_iff] at hnone
    refine OrdMap.notMem_of_get? hnone.1 ?_
    simpa using hx

/-- A path that is at or below a candidate continues its components. -/
theorem pathTail_eq_some {path candidate : String} {tail : Option String}
    (h : pathTail path candidate = some tail) :
    path = candidate ∧ tail = none ∨ ∃ t, tail = some t ∧ path = candidate ++ "." ++ t := by
  unfold pathTail at h
  split at h
  · rename_i heq
    exact Or.inl ⟨heq, (Option.some.inj h).symm⟩
  · obtain ⟨t, ht, rfl⟩ := Option.map_eq_some_iff.1 h
    obtain ⟨rest, hrest, hdot⟩ := Option.bind_eq_some_iff.1 ht
    rw [stripPrefix_eq_some] at hrest hdot
    exact Or.inr ⟨t, rfl, by rw [hrest, hdot, String.append_assoc]⟩

theorem prefix_of_pathTail {path candidate : String} {tail : Option String}
    (h : pathTail path candidate = some tail) : components candidate <+: components path := by
  rcases pathTail_eq_some h with ⟨rfl, -⟩ | ⟨t, -, rfl⟩
  · exact List.prefix_refl _
  · rw [components_dot]
    exact List.prefix_append _ _

/-- A fold that keeps the best so far or takes the next ends with one of them. -/
theorem mem_of_foldl_some {β : Type} {f : Option β → β → Option β}
    (hf : ∀ best next, f best next = some next ∨ f best next = best) {found : List β}
    {best : Option β} {b : β} (h : found.foldl f best = some b) : b ∈ found ∨ best = some b := by
  induction found generalizing best with
  | nil => exact Or.inr h
  | cons next found ih =>
      rcases ih h with hin | hnext
      · exact Or.inl (List.mem_cons_of_mem _ hin)
      · rcases hf best next with htaken | hkept
        · exact Or.inl (List.mem_cons.2 (Or.inl (Option.some.inj (htaken.symm.trans hnext)).symm))
        · exact Or.inr (hkept.symm.trans hnext)

/-- The longest match is one of the values. -/
theorem longestPathMatch_mem {α : Type} {path root : String} {a : α} {tail : Option String}
    {values : List (String × α)} (h : longestPathMatch path values = some (root, a, tail)) :
    (root, a) ∈ values ∧ pathTail path root = some tail := by
  unfold longestPathMatch at h
  have hstep := mem_of_foldl_some (by
    rintro (_ | best) next
    · exact Or.inl rfl
    · dsimp only
      split <;> simp) h
  rcases hstep with hin | hnone
  · obtain ⟨⟨candidate, value⟩, hmem, hmatch⟩ := List.mem_filterMap.1 hin
    obtain ⟨t, ht, heq⟩ := Option.map_eq_some_iff.1 hmatch
    simp only [Prod.mk.injEq] at heq
    obtain ⟨hroot, hvalue, htail⟩ := heq
    rw [← hroot, ← hvalue, ← htail]
    exact ⟨hmem, ht⟩
  · cases hnone

/-- An accepted reference is at or below something that is available. -/
theorem validateReference_ok {path : String} {index : ℕ} {saves : List (String × ℕ)}
    {available : List (String × AvailableRoot)} {ancestors : Option (List ℕ)}
    (h : validateReference path index saves available ancestors = .ok ()) :
    ∃ root kind tail, longestPathMatch path available = some (root, kind, tail) := by
  unfold validateReference at h
  split at h
  · unfold unknownReference at h
    dsimp only at h
    split at h
    · obtain ⟨-, -, h⟩ := bind_eq_ok.1 h
      cases h
    · obtain ⟨-, -, h⟩ := bind_eq_ok.1 h
      cases h
    · cases h
  all_goals
    rename_i hmatch
    exact ⟨_, _, _, hmatch⟩

/-- What is available is a binding or the save of one of the steps. -/
theorem ScenarioDef.mem_availableRoots {sc : ScenarioDef} {steps : List ℕ} {root : String}
    {kind : AvailableRoot} (h : (root, kind) ∈ sc.availableRoots steps) :
    (∃ binding, (root, binding) ∈ sc.bindings ∧ kind = binding.root) ∨
      ∃ i ∈ steps, ∃ step, sc.steps[i]? = some step ∧ step.save = some root ∧
        kind = .saved step.savedKind := by
  rcases List.mem_append.1 (OrdMap.mem_of_mem_ofList h) with hbinding | hsave
  · obtain ⟨⟨name, binding⟩, hmem, heq⟩ := List.mem_map.1 hbinding
    obtain ⟨rfl, rfl⟩ := Prod.mk.inj heq
    exact Or.inl ⟨binding, hmem, rfl⟩
  · obtain ⟨i, hi, hroot⟩ := List.mem_filterMap.1 hsave
    simp only [savedRoot, Option.bind_eq_bind, Option.bind_eq_some_iff, Option.pure_def,
      Option.some.injEq, Prod.mk.injEq] at hroot
    obtain ⟨step, hstep, save, hpath, rfl, rfl⟩ := hroot
    exact Or.inr ⟨i, hi, step, hstep, hpath, rfl⟩

/-- The roots that the validator has for the references of a step. -/
def ScenarioDef.referenceRoots (sc : ScenarioDef) (index : ℕ) : List (String × AvailableRoot) :=
  match sc.execution with
  | .sequential => sc.availableRoots (List.range index)
  | .dag =>
    match sc.validateDagGraph with
    | .ok ancestors =>
      sc.availableRoots ((List.range sc.steps.length).filter (· ∈ ancestors index))
    | .error _ => []

/-- The references of the expressions of a step have been checked against what `steps` make available. -/
def StepDef.Checked (sc : ScenarioDef) (steps : List ℕ) (step : StepDef) : Prop :=
  ∀ e ∈ step.expressions, ∃ paths, variablePaths e = .ok paths ∧ ∀ p ∈ paths,
    ∃ index saves ancestors,
      validateReference p index saves (sc.availableRoots steps) ancestors = .ok ()

theorem ScenarioSpec.validateStep_checked {spec : ScenarioSpec} {index : ℕ} {step : StepDef}
    {saves : List (String × ℕ)} {steps : List ℕ} {ancestors : Option (List ℕ)}
    (h : spec.validateStep index step saves (spec.scenario.availableRoots steps) ancestors = .ok ()) :
    step.Checked spec.scenario steps := by
  unfold validateStep at h
  obtain ⟨⟨⟩, -, h⟩ := bind_eq_ok.1 h
  obtain ⟨⟨⟩, -, h⟩ := bind_eq_ok.1 h
  obtain ⟨⟨⟩, -, h⟩ := bind_eq_ok.1 h
  intro e he
  obtain ⟨paths, hpaths, hchecked⟩ := bind_eq_ok.1 (Fallible.forM_ok.1 h e he)
  obtain ⟨collected, hcollected, hsorted⟩ := bind_eq_ok.1 (Fallible.mapError_ok.1 hpaths)
  obtain rfl := Except.ok.inj hsorted
  refine ⟨collected, hcollected, fun p hp => ⟨index, saves, ancestors, ?_⟩⟩
  exact Fallible.mapError_ok.1 (Fallible.forM_ok.1 hchecked p (mem_sortedSet.2 hp))

namespace ScenarioSpec

variable {spec : ScenarioSpec} {parseUrl : String → Option String}

/-- Every step of an accepted scenario has been validated, with what is available to it. -/
theorem validated_steps (hok : spec.validate parseUrl = .ok ()) {j : ℕ} {step : StepDef}
    (hstep : spec.scenario.steps[j]? = some step) : ∃ saves ancestors,
      spec.validateStep j step saves (spec.scenario.referenceRoots j) ancestors = .ok () := by
  rw [ScenarioSpec.validate] at hok
  simp only [bind_eq_ok, bailIf_eq_ok] at hok
  obtain ⟨-, -, -, -, -, -, -, -, -, -, -, -, -, -, saves, -, hsteps⟩ := hok
  rw [ScenarioSpec.validateSteps] at hsteps
  rw [ScenarioDef.referenceRoots]
  cases hmode : spec.scenario.execution with
  | sequential =>
      rw [hmode] at hsteps
      obtain ⟨_, -, hsteps⟩ := bind_eq_ok.1 hsteps
      have hchecked := forSteps_ok hsteps hstep
      rw [Nat.zero_add] at hchecked
      obtain ⟨⟨⟩, -, hchecked⟩ := bind_eq_ok.1 hchecked
      exact ⟨saves, none, hchecked⟩
  | dag =>
      rw [hmode] at hsteps
      obtain ⟨ancestors, hgraph, hsteps⟩ := bind_eq_ok.1 hsteps
      have hchecked := forSteps_ok hsteps hstep
      rw [Nat.zero_add] at hchecked
      simp only [hgraph]
      exact ⟨saves, _, hchecked⟩

/-- The names of the events of a group are single components. -/
theorem event_names (hok : spec.validate parseUrl = .ok ()) {j : ℕ} {step : StepDef}
    (hstep : spec.scenario.steps[j]? = some step) {wait : WaitLogStep} (hwait : step.action = .waitLog wait) :
    ∀ id ∈ wait.events.map Prod.fst, '.' ∉ id.toList := by
  obtain ⟨saves, ancestors, hvalid⟩ := validated_steps hok hstep
  obtain ⟨⟨⟩, -, hvalid⟩ := bind_eq_ok.1 hvalid
  obtain ⟨⟨⟩, -, hvalid⟩ := bind_eq_ok.1 hvalid
  obtain ⟨⟨⟩, haction, -⟩ := bind_eq_ok.1 hvalid
  rw [hwait] at haction
  obtain ⟨⟨⟩, hevents, -⟩ := bind_eq_ok.1 haction
  intro id hid
  obtain ⟨e, he, rfl⟩ := List.mem_map.1 hid
  unfold validateLogEvents at hevents
  rw [if_neg (List.ne_nil_of_mem he)] at hevents
  obtain ⟨⟨⟩, -, hevents⟩ := bind_eq_ok.1 hevents
  obtain ⟨⟨⟩, -, hevents⟩ := bind_eq_ok.1 hevents
  obtain ⟨⟨⟩, -, hevents⟩ := bind_eq_ok.1 hevents
  obtain ⟨⟨⟩, hname, -⟩ := bind_eq_ok.1 (Fallible.forM_ok.1 hevents e he)
  obtain ⟨⟨⟩, -, hdot⟩ := bind_eq_ok.1 (wrapErr_eq_ok.1 hname)
  exact bailIf_eq_ok.1 hdot

/-- In an accepted DAG the references of a step have been checked against its ancestors. -/
theorem checked_dag (hok : spec.validate parseUrl = .ok ()) (hmode : spec.scenario.execution = .dag) :
    ∃ (ids : StepIds) (h : spec.scenario.DagIds ids), h.graph.Acyclic ∧
      ∀ j step, spec.scenario.steps[j]? = some step → ∃ ancestors : List ℕ,
        spec.scenario.referenceRoots j = spec.scenario.availableRoots ancestors ∧
        (∀ i, i ∈ ancestors ↔ h.graph.Precedes i j) ∧ step.Checked spec.scenario ancestors := by
  obtain ⟨ancestors, hgraph⟩ := (spec.validate_ok hok).2 hmode
  obtain ⟨ids, h, hacyclic, hancestors⟩ := ScenarioDef.validateDagGraph_ok hgraph
  have hroots : ∀ j, spec.scenario.referenceRoots j = spec.scenario.availableRoots
      ((List.range spec.scenario.steps.length).filter (· ∈ ancestors j)) := by
    intro j
    rw [ScenarioDef.referenceRoots]
    simp only [hmode, hgraph]
  refine ⟨ids, h, hacyclic, fun j step hstep => ⟨_, hroots j, fun i => ?_, ?_⟩⟩
  · have hlt := (List.getElem?_eq_some_iff.1 hstep).1
    rw [List.mem_filter, List.mem_range, decide_eq_true_eq, hancestors j hlt]
    refine and_iff_right_of_imp fun hprecedes => ?_
    obtain ⟨v, hedge, -⟩ := Relation.TransGen.head'_iff.1 hprecedes
    exact h.graph.deps_lt v i hedge.2
  · obtain ⟨saves, below, hvalid⟩ := validated_steps hok hstep
    rw [hroots] at hvalid
    exact validateStep_checked hvalid

/-- In an accepted sequential scenario they have been checked against the steps before it. -/
theorem checked_sequential (hok : spec.validate parseUrl = .ok ())
    (hmode : spec.scenario.execution = .sequential) {j : ℕ} {step : StepDef}
    (hstep : spec.scenario.steps[j]? = some step) :
    spec.scenario.referenceRoots j = spec.scenario.availableRoots (List.range j) ∧
      step.Checked spec.scenario (List.range j) := by
  have hroots : spec.scenario.referenceRoots j = spec.scenario.availableRoots (List.range j) := by
    rw [ScenarioDef.referenceRoots, hmode]
  obtain ⟨saves, below, hvalid⟩ := validated_steps hok hstep
  rw [hroots] at hvalid
  exact ⟨hroots, validateStep_checked hvalid⟩

end ScenarioSpec

end TxGen
