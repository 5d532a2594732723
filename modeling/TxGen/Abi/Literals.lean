import TxGen.Abi.CallValues

set_option autoImplicit false

/-! # Literal call arguments

A call whose arguments are literals is encoded with the values of the literals, unless one of them is the
string `random`, which is taken for the generator. Whatever is encoded has the types of the function. -/

namespace TxGen

/-! ## Draws that do not draw -/

namespace Draw

variable {ρ α β : Type}

/-- The draw fails if `fails`, and gives `a` without a draw otherwise. -/
def Yields (x : Draw ρ α) (a : α) (fails : Prop) : Prop :=
  ∀ r, (¬ fails → x r = .ok (a, r)) ∧ (fails → ∃ e, x r = .error e)

variable {x : Draw ρ α} {f : α → Draw ρ β} {a : α} {b : β} {p q : Prop}

theorem yields_pure : Yields (pure a : Draw ρ α) a False := fun _ => ⟨fun _ => rfl, False.elim⟩

theorem yields_lift {result : Except Report α} (h : result = .ok a) :
    Yields (liftM result : Draw ρ α) a False := by
  intro r
  refine ⟨fun _ => ?_, False.elim⟩
  exact lift_ok.2 ⟨h, rfl⟩

theorem Yields.congr (h : Yields x a p) (hpq : p ↔ q) : Yields x a q := by
  intro r
  exact ⟨fun hq => (h r).1 (mt hpq.1 hq), fun hq => (h r).2 (hpq.2 hq)⟩

theorem Yields.bind (hx : Yields x a p) (hf : Yields (f a) b q) : Yields (x >>= f) b (p ∨ q) := by
  intro r
  have hrun : (x >>= f) r = (x r >>= fun result => f result.1 result.2) := rfl
  rw [hrun]
  refine ⟨fun hfails => ?_, fun hfails => ?_⟩
  · rw [(hx r).1 fun hp => hfails (.inl hp)]
    exact (hf r).1 fun hq => hfails (.inr hq)
  · by_cases hp : p
    · obtain ⟨e, he⟩ := (hx r).2 hp
      exact ⟨e, by rw [he]; rfl⟩
    · rw [(hx r).1 hp]
      exact (hf r).2 (hfails.resolve_left hp)

/-- A last step that does not fail. -/
theorem Yields.map (hx : Yields x a p) (g : α → β) :
    Yields (x >>= fun a => pure (g a)) (g a) p := by
  have hpure : Yields (pure (g a) : Draw ρ β) (g a) False := yields_pure
  exact (hx.bind hpure).congr (by simp)

/-- A first step that does not fail. -/
theorem Yields.lift_bind {result : Except Report α} (h : result = .ok a) (hf : Yields (f a) b q) :
    Yields (liftM result >>= f) b q :=
  ((yields_lift h).bind hf).congr (by simp)

/-- Lists of draws. -/
theorem Yields.mapM {f : α → Draw ρ β} {l : List α} {vs : List β} {fails : β → Prop}
    (h : List.Forall₂ (fun a v => Yields (f a) v (fails v)) l vs) :
    Yields (l.mapM f) vs (∃ v ∈ vs, fails v) := by
  induction h with
  | nil => exact yields_pure.congr (by simp)
  | @cons a v l vs hfirst _ ih =>
      rw [List.mapM_cons]
      have hrest : Yields (l.mapM f >>= fun vs => pure (v :: vs)) (v :: vs) (∃ v ∈ vs, fails v) :=
        ih.map _
      exact (hfirst.bind hrest).congr (by simp)

theorem mapM_ok {f : α → Draw ρ β} {l : List α} {vs : List β} {r r' : ρ}
    (h : l.mapM f r = .ok (vs, r')) :
    vs.length = l.length ∧ ∀ v ∈ vs, ∃ a ∈ l, ∃ r r', f a r = .ok (v, r') := by
  induction l generalizing vs r with
  | nil =>
      obtain ⟨rfl, -⟩ := pure_ok.1 h
      exact ⟨rfl, nofun⟩
  | cons a l ih =>
      rw [List.mapM_cons] at h
      obtain ⟨v, r₁, hfirst, h⟩ := bind_ok.1 h
      obtain ⟨rest, r₂, hrest, h⟩ := bind_ok.1 h
      obtain ⟨rfl, rfl⟩ := pure_ok.1 h
      obtain ⟨hlength, hmem⟩ := ih hrest
      refine ⟨by simp [hlength], List.forall_mem_cons.2 ⟨⟨a, by simp, _, _, hfirst⟩, fun w hw => ?_⟩⟩
      obtain ⟨b, hb, hread⟩ := hmem w hw
      exact ⟨b, List.mem_cons_of_mem _ hb, hread⟩

theorem yields_error {e : Report} (h : ∀ r, x r = .error e) : Yields x a True := by
  intro r
  exact ⟨fun hn => absurd trivial hn, fun _ => ⟨e, h r⟩⟩

end Draw

/-! ## Types of values -/

namespace DynSolValue

mutual

/-- The value is one of the type. -/
def HasType : DynSolType → DynSolValue → Prop
  | .bool, .bool _ => True
  | .int bits, .int value bits' =>
    bits' = bits ∧ -2 ^ bits ≤ 2 * value.toInt ∧ 2 * value.toInt < 2 ^ bits
  | .uint bits, .uint value bits' => bits' = bits ∧ value.toNat < 2 ^ bits
  | .fixedBytes size, .fixedBytes value size' =>
    size' = size ∧ ∃ bytes, bytes.length = size ∧ value = highBytes bytes
  | .address, .address _ => True
  | .bytes, .bytes _ => True
  | .string, .string _ => True
  | .array inner, .array values => ∀ value ∈ values, HasType inner value
  | .fixedArray inner size, .fixedArray values =>
    values.length = size ∧ ∀ value ∈ values, HasType inner value
  | .tuple types, .tuple values => HaveTypes types values
  | _, _ => False

def HaveTypes : List DynSolType → List DynSolValue → Prop
  | [], [] => True
  | ty :: types, value :: values => HasType ty value ∧ HaveTypes types values
  | _, _ => False

end

/-- The string `random` is in the value. -/
def SaysRandom (value : DynSolValue) : Prop :=
  value = .string "random" ∨ Within (.string "random") value

theorem within_iff_elements {e v : DynSolValue} :
    Within e v ↔ ∃ w ∈ v.elements, w = e ∨ Within e w := by
  constructor
  · rintro (h | ⟨hmem, hwithin⟩)
    · exact ⟨e, h, .inl rfl⟩
    · exact ⟨_, hmem, .inr hwithin⟩
  · rintro ⟨w, hmem, rfl | hwithin⟩
    · exact .element hmem
    · exact .deeper hmem hwithin

end DynSolValue

open DynSolValue

theorem size_succ_le {n bits : ℕ} : n.size + 1 ≤ bits ↔ 2 * (n + 1) ≤ 2 ^ bits := by
  cases bits with
  | zero => omega
  | succ bits =>
      rw [Nat.add_le_add_iff_right, Nat.size_le, Nat.pow_succ]
      omega

/-- The bits of a signed number bound it in two's complement. -/
theorem signedBits_le {value : Word} {bits : ℕ} : signedBits value ≤ bits ↔
    -2 ^ bits ≤ 2 * value.toInt ∧ 2 * value.toInt < 2 ^ bits := by
  have hpow : (2 : ℤ) ^ bits = ((2 ^ bits : ℕ) : ℤ) := by simp
  have hpos : 0 < 2 ^ bits := Nat.two_pow_pos bits
  rw [hpow]
  unfold signedBits
  split
  · next h =>
      rw [h, Int.ofNat_eq_natCast]
      omega
  · next n hn h =>
      have hne : n ≠ 0 := fun h0 => hn h0
      rw [size_succ_le, h, Int.ofNat_eq_natCast]
      cases bits with
      | zero => omega
      | succ bits =>
          rw [Nat.pow_succ]
          omega
  · next n h =>
      rw [size_succ_le, h, Int.negSucc_eq]
      omega

theorem haveTypes_iff {types : List DynSolType} {values : List DynSolValue} :
    HaveTypes types values ↔ List.Forall₂ HasType types values := by
  induction types generalizing values with
  | nil => cases values <;> simp [HaveTypes]
  | cons ty types ih => cases values <;> simp [HaveTypes, ih]

theorem mapError_eq_ok {ε ε' α : Type} {x : Except ε α} {f : ε → ε'} {a : α} :
    x.mapError f = .ok a ↔ x = .ok a := by
  cases x <;> simp [Except.mapError]

theorem forall_of_forall₂_right {α β : Type} {p : β → Prop} {l : List α} {l' : List β}
    (h : List.Forall₂ (fun _ b => p b) l l') : ∀ b ∈ l', p b := by
  induction h with
  | nil => exact nofun
  | cons hb _ ih => exact List.forall_mem_cons.2 ⟨hb, ih⟩

namespace AbiCrate

variable {ρ : Type} {abi : AbiCrate} {resolver : Resolver ρ}

/-! ## What is encoded has its type -/

theorem hasType_of_readElementary {value : Yaml} {ty : DynSolType} {v : DynSolValue}
    (h : abi.readElementary value ty = .ok v) : HasType ty v := by
  unfold readElementary at h
  cases ty with
  | address | bool | string | bytes =>
      simp only [bind_eq_ok] at h
      obtain ⟨_, -, h⟩ := h
      first
        | (obtain rfl := Except.ok.inj h
           trivial)
        | (obtain ⟨_, -, h⟩ := h
           obtain rfl := Except.ok.inj h
           trivial)
  | uint bits =>
      simp only [bind_eq_ok, bailIf_eq_ok] at h
      obtain ⟨val, -, _, hrange, h⟩ := h
      obtain rfl := Except.ok.inj h
      exact ⟨rfl, Nat.size_le.1 (Nat.le_of_not_lt hrange)⟩
  | int bits =>
      simp only [bind_eq_ok, bailIf_eq_ok] at h
      obtain ⟨val, -, _, hrange, h⟩ := h
      obtain rfl := Except.ok.inj h
      exact ⟨rfl, signedBits_le.1 (Nat.le_of_not_lt hrange)⟩
  | fixedBytes size =>
      simp only [bind_eq_ok, bailIf_eq_ok, not_not] at h
      obtain ⟨s, -, bytes, -, _, hlength, h⟩ := h
      obtain rfl := Except.ok.inj h
      exact ⟨rfl, bytes, hlength, rfl⟩
  | _ => exact absurd h bail_ne_ok

theorem hasType_of_randomValue {ty : DynSolType} {v : DynSolValue} {r r' : ρ}
    (h : abi.randomValue resolver ty r = .ok (v, r')) : HasType ty v := by
  unfold randomValue at h
  cases ty with
  | address =>
      obtain ⟨address, _, -, h⟩ := Draw.bind_ok.1 h
      obtain ⟨rfl, -⟩ := Draw.pure_ok.1 h
      trivial
  | uint bits =>
      obtain ⟨word, _, -, h⟩ := Draw.bind_ok.1 h
      obtain ⟨rfl, -⟩ := Draw.pure_ok.1 h
      refine ⟨rfl, ?_⟩
      -- the low bits are shifted out
      rw [BitVec.toNat_ushiftRight, Nat.shiftRight_eq_div_pow]
      refine Nat.div_lt_of_lt_mul (lt_of_lt_of_le word.isLt ?_)
      rw [← Nat.pow_add]
      exact Nat.pow_le_pow_right (by omega) (by omega)
  | _ => exact absurd (Draw.lift_ok.1 h).1 bail_ne_ok

/-- Each value of a list is read for itself. -/
theorem yamlToDynValues_ok {pairs : List (Yaml × DynSolType)} {vs : List DynSolValue} {r r' : ρ}
    (h : abi.yamlToDynValues resolver pairs r = .ok (vs, r')) :
    List.Forall₂ (fun pair v => ∃ r r', abi.yamlToDynValue resolver pair.1 pair.2 r = .ok (v, r'))
      pairs vs := by
  induction pairs generalizing vs r with
  | nil =>
      rw [yamlToDynValues] at h
      obtain ⟨rfl, -⟩ := Draw.pure_ok.1 h
      exact .nil
  | cons pair pairs ih =>
      obtain ⟨value, ty⟩ := pair
      rw [yamlToDynValues] at h
      obtain ⟨first, r₁, hfirst, h⟩ := Draw.bind_ok.1 h
      obtain ⟨rest, r₂, hrest, h⟩ := Draw.bind_ok.1 h
      obtain ⟨rfl, rfl⟩ := Draw.pure_ok.1 h
      exact .cons ⟨r, r₁, hfirst⟩ (ih hrest)

/-- A value that is read has the type that it is read at. -/
theorem hasType_of_yamlToDynValue {value : Yaml} {ty : DynSolType} {v : DynSolValue} {r r' : ρ}
    (h : abi.yamlToDynValue resolver value ty r = .ok (v, r')) : HasType ty v := by
  induction hsize : value.size using Nat.strong_induction_on generalizing value ty v r r' with
  | _ size ih =>
  subst hsize
  -- the values of a list stand below it
  have hbelow : ∀ {pairs : List (Yaml × DynSolType)} {vs : List DynSolValue} {r r' : ρ},
      (∀ pair ∈ pairs, pair.1.size < value.size) →
      abi.yamlToDynValues resolver pairs r = .ok (vs, r') →
      List.Forall₂ HasType (pairs.map Prod.snd) vs := by
    intro pairs vs r r' hpairs hvs
    rw [List.forall₂_map_left_iff]
    refine (List.forall₂_and_left _ _ |>.2 ⟨hpairs, yamlToDynValues_ok hvs⟩).imp ?_
    rintro pair v ⟨hlt, r, r', hread⟩
    exact ih _ hlt hread rfl
  have hall : ∀ {inner : DynSolType} {message : String} {values : List Yaml} {vs : List DynSolValue}
      {r r' : ρ}, readSequence value message = .ok values →
      abi.yamlToDynValues resolver (values.map (·, inner)) r = .ok (vs, r') →
      ∀ v ∈ vs, HasType inner v := by
    intro inner message values vs r r' hvalues hvs
    have htypes := hbelow (fun pair hpair => ?_) hvs
    · rw [List.map_map, List.forall₂_map_left_iff] at htypes
      exact forall_of_forall₂_right htypes
    · obtain ⟨value', hmem, rfl⟩ := List.mem_map.1 hpair
      exact Nat.lt_of_le_of_lt (Yaml.size_le_of_mem hmem) (sizeList_of_readSequence hvalues)
  cases hparse : parseGenerator value with
  | some generator =>
      by_cases hrandom : generator = .random
      · rw [yamlToDynValue_random (hrandom ▸ hparse)] at h
        exact hasType_of_randomValue h
      · rw [yamlToDynValue_generator hparse hrandom] at h
        obtain ⟨value', r₁, hresolve, h⟩ := Draw.bind_ok.1 h
        exact ih _ (Resolver.size_of_resolveYaml hparse hresolve) h rfl
  | none =>
      rw [yamlToDynValue_literal hparse] at h
      cases ty with
      | array inner =>
          obtain ⟨values, _, hvalues, h⟩ := Draw.bind_ok.1 h
          obtain ⟨vs, _, hvs, h⟩ := Draw.bind_ok.1 h
          obtain ⟨rfl, -⟩ := Draw.pure_ok.1 h
          exact hall (Draw.lift_ok.1 hvalues).1 hvs
      | fixedArray inner size =>
          obtain ⟨values, _, hvalues, h⟩ := Draw.bind_ok.1 h
          obtain ⟨vs, _, hvs, h⟩ := Draw.bind_ok.1 h
          obtain ⟨_, _, hlength, h⟩ := Draw.bind_ok.1 h
          obtain ⟨rfl, -⟩ := Draw.pure_ok.1 h
          exact ⟨not_not.1 (bailIf_eq_ok.1 (Draw.lift_ok.1 hlength).1),
            hall (Draw.lift_ok.1 hvalues).1 hvs⟩
      | tuple types =>
          obtain ⟨values, _, hvalues, h⟩ := Draw.bind_ok.1 h
          obtain ⟨_, _, hlength, h⟩ := Draw.bind_ok.1 h
          obtain ⟨vs, _, hvs, h⟩ := Draw.bind_ok.1 h
          obtain ⟨rfl, -⟩ := Draw.pure_ok.1 h
          have hlt := sizeList_of_readSequence (Draw.lift_ok.1 hvalues).1
          have heq := not_not.1 (bailIf_eq_ok.1 (Draw.lift_ok.1 hlength).1)
          have htypes := hbelow (fun pair hpair => Nat.lt_of_le_of_lt
            (Yaml.size_le_of_mem (List.of_mem_zip hpair).1) hlt) hvs
          rw [List.map_snd_zip heq.ge] at htypes
          exact haveTypes_iff.2 htypes
      | _ => exact hasType_of_readElementary (Draw.lift_ok.1 h).1

variable (abi) in
mutual

/-- The value is one of the type of the parameter. -/
def HasParam : Param → DynSolValue → Prop
  | .mk _ ty components, v =>
    if components.isEmpty then ∃ t, abi.parseType ty = .ok t ∧ HasType t v
    else if ty = "tuple" then ∃ values, v = .tuple values ∧ HaveParams components values
    else
      match tupleLength ty with
      | none => False
      | some length =>
        if length = "" then
          ∃ values, v = .array values ∧ ∀ w ∈ values, ∃ ws, w = .tuple ws ∧ HaveParams components ws
        else ∃ values, v = .fixedArray values ∧ parseUsize length = some values.length ∧
          ∀ w ∈ values, ∃ ws, w = .tuple ws ∧ HaveParams components ws

def HaveParams : List Param → List DynSolValue → Prop
  | [], [] => True
  | param :: params, value :: values => HasParam param value ∧ HaveParams params values
  | _, _ => False

end

/-- A tuple whose components have their types, by position and by name. -/
theorem haveParams_of_tupleValue {components : List Param} {value : Yaml} {v : DynSolValue} {r r' : ρ}
    (hposition : ∀ {values vs r r'}, values.length = components.length →
      abi.componentValues resolver components values r = .ok (vs, r') → abi.HaveParams components vs)
    (hname : ∀ {entries vs r r'},
      abi.fieldValues resolver components entries r = .ok (vs, r') → abi.HaveParams components vs)
    (h : abi.yamlToTupleValue resolver value components r = .ok (v, r')) :
    ∃ values, v = .tuple values ∧ abi.HaveParams components values := by
  unfold yamlToTupleValue tupleValue at h
  cases huntag : value.untagRef with
  | sequence values =>
      rw [huntag] at h
      obtain ⟨_, _, hlength, h⟩ := Draw.bind_ok.1 h
      obtain ⟨vs, _, hvs, h⟩ := Draw.bind_ok.1 h
      obtain ⟨rfl, -⟩ := Draw.pure_ok.1 h
      exact ⟨vs, rfl, hposition (not_not.1 (bailIf_eq_ok.1 (Draw.lift_ok.1 hlength).1)) hvs⟩
  | mapping entries =>
      rw [huntag] at h
      obtain ⟨_, _, hlength, h⟩ := Draw.bind_ok.1 h
      obtain ⟨vs, _, hvs, h⟩ := Draw.bind_ok.1 h
      obtain ⟨rfl, -⟩ := Draw.pure_ok.1 h
      exact ⟨vs, rfl, hname hvs⟩
  | _ =>
      rw [huntag] at h
      exact absurd (Draw.lift_ok.1 h).1 bail_ne_ok

mutual

theorem hasParam_of_yamlToParamValue : ∀ {param : Param} {value : Yaml} {v : DynSolValue} {r r' : ρ},
    abi.yamlToParamValue resolver param value r = .ok (v, r') → abi.HasParam param v
  | .mk name ty components, value, v, r, r', h => by
      rw [yamlToParamValue] at h
      rw [HasParam]
      have htuple : ∀ {value : Yaml} {v : DynSolValue} {r r' : ρ},
          abi.yamlToTupleValue resolver value components r = .ok (v, r') →
            ∃ values, v = .tuple values ∧ abi.HaveParams components values :=
        haveParams_of_tupleValue haveParams_of_componentValues haveParams_of_fieldValues
      split at h
      · next hempty =>
          rw [if_pos hempty]
          obtain ⟨t, _, ht, h⟩ := Draw.bind_ok.1 h
          exact ⟨t, mapError_eq_ok.1 (Draw.lift_ok.1 ht).1, hasType_of_yamlToDynValue h⟩
      · next hempty =>
          rw [if_neg hempty]
          split at h
          · next hty =>
              rw [if_pos hty]
              exact htuple h
          · next hty =>
              rw [if_neg hty]
              cases hlength : tupleLength ty with
              | none =>
                  rw [hlength] at h
                  exact absurd (Draw.lift_ok.1 h).1 bail_ne_ok
              | some length =>
                  rw [hlength] at h
                  dsimp only at h ⊢
                  obtain ⟨values, _, hvalues, h⟩ := Draw.bind_ok.1 h
                  obtain ⟨vs, _, hvs, h⟩ := Draw.bind_ok.1 h
                  have hall : ∀ w ∈ vs, ∃ ws, w = .tuple ws ∧ abi.HaveParams components ws := by
                    intro w hw
                    obtain ⟨value, -, _, _, hread⟩ := (Draw.mapM_ok hvs).2 w hw
                    exact htuple hread
                  split at h
                  · next hdynamic =>
                      obtain ⟨rfl, -⟩ := Draw.pure_ok.1 h
                      rw [if_pos hdynamic]
                      exact ⟨vs, rfl, hall⟩
                  · next hdynamic =>
                      obtain ⟨expected, _, hexpected, h⟩ := Draw.bind_ok.1 h
                      obtain ⟨_, _, hcount, h⟩ := Draw.bind_ok.1 h
                      obtain ⟨rfl, -⟩ := Draw.pure_ok.1 h
                      rw [if_neg hdynamic]
                      refine ⟨vs, rfl, ?_, hall⟩
                      rw [not_not.1 (bailIf_eq_ok.1 (Draw.lift_ok.1 hcount).1)]
                      exact okOr_eq_ok.1 (Draw.lift_ok.1 hexpected).1

theorem haveParams_of_componentValues : ∀ {components : List Param} {values : List Yaml}
    {vs : List DynSolValue} {r r' : ρ}, values.length = components.length →
    abi.componentValues resolver components values r = .ok (vs, r') → abi.HaveParams components vs
  | [], [], vs, r, r', _, h => by
      rw [componentValues] at h
      · obtain ⟨rfl, -⟩ := Draw.pure_ok.1 h
        trivial
      · simp
  | component :: components, value :: values, vs, r, r', hlength, h => by
      rw [componentValues] at h
      obtain ⟨first, _, hfirst, h⟩ := Draw.bind_ok.1 h
      obtain ⟨rest, _, hrest, h⟩ := Draw.bind_ok.1 h
      obtain ⟨rfl, -⟩ := Draw.pure_ok.1 h
      exact ⟨hasParam_of_yamlToParamValue hfirst,
        haveParams_of_componentValues (by simpa using hlength) hrest⟩

theorem haveParams_of_fieldValues : ∀ {components : List Param} {entries : List (Yaml × Yaml)}
    {vs : List DynSolValue} {r r' : ρ},
    abi.fieldValues resolver components entries r = .ok (vs, r') → abi.HaveParams components vs
  | [], entries, vs, r, r', h => by
      rw [fieldValues] at h
      obtain ⟨rfl, -⟩ := Draw.pure_ok.1 h
      trivial
  | component :: components, entries, vs, r, r', h => by
      rw [fieldValues] at h
      obtain ⟨_, _, -, h⟩ := Draw.bind_ok.1 h
      obtain ⟨value, _, -, h⟩ := Draw.bind_ok.1 h
      obtain ⟨first, _, hfirst, h⟩ := Draw.bind_ok.1 h
      obtain ⟨rest, _, hrest, h⟩ := Draw.bind_ok.1 h
      obtain ⟨rfl, -⟩ := Draw.pure_ok.1 h
      exact ⟨hasParam_of_yamlToParamValue hfirst, haveParams_of_fieldValues hrest⟩

end

/-! ## Literals -/

variable (abi) in
mutual

/-- `Literal ty y v`: `y` is how the value `v` of the type is written. -/
def Literal : DynSolType → Yaml → DynSolValue → Prop
  | .address, y, v => ∃ s a, y = .string s ∧ abi.parseAddress s = .ok a ∧ v = .address a
  | .bool, y, v => ∃ b, y = .bool b ∧ v = .bool b
  | .string, y, v => ∃ s, y = .string s ∧ v = .string s
  | .bytes, y, v => ∃ s bytes, y = .string s ∧ abi.parseBytes s = .ok bytes ∧ v = .bytes bytes
  | .fixedBytes size, y, v => ∃ s bytes, y = .string s ∧ abi.parseBytes s = .ok bytes ∧
      bytes.length = size ∧ v = .fixedBytes (highBytes bytes) size
  | .uint bits, y, v => ∃ n, ((∃ m, y = .number m) ∨ ∃ s, y = .string s) ∧ abi.readU256 y = .ok n ∧
      n.toNat < 2 ^ bits ∧ v = .uint n bits
  | .int bits, y, v => ∃ n, ((∃ m, y = .number m) ∨ ∃ s, y = .string s) ∧ abi.readI256 y = .ok n ∧
      (-2 ^ bits ≤ 2 * n.toInt ∧ 2 * n.toInt < 2 ^ bits) ∧ v = .int n bits
  | .array inner, y, v => ∃ ys vs, y = .sequence ys ∧ v = .array vs ∧
      List.Forall₂ (Literal inner) ys vs
  | .fixedArray inner size, y, v => ∃ ys vs, y = .sequence ys ∧ v = .fixedArray vs ∧
      ys.length = size ∧ List.Forall₂ (Literal inner) ys vs
  | .tuple types, y, v => ∃ ys vs, y = .sequence ys ∧ v = .tuple vs ∧ Literals types ys vs
  | _, _, _ => False

def Literals : List DynSolType → List Yaml → List DynSolValue → Prop
  | [], [], [] => True
  | ty :: types, y :: ys, v :: vs => Literal ty y v ∧ Literals types ys vs
  | _, _, _ => False

end

variable (abi) in
mutual

/-- `ParamLiteral param y v`: `y` is how the value `v` of the parameter is written. A tuple is a list, or a
    mapping by the names of its components. -/
def ParamLiteral : Param → Yaml → DynSolValue → Prop
  | .mk _ ty components, y, v =>
    if components.isEmpty then ∃ t, abi.parseType ty = .ok t ∧ Literal abi t y v
    else if ty = "tuple" then
      ∃ vs, v = .tuple vs ∧ ((∃ ys, y = .sequence ys ∧ ComponentLiterals components ys vs) ∨
        ∃ entries, y = .mapping entries ∧ entries.length = components.length ∧
          FieldLiterals components entries vs)
    else ∃ length ys ws, tupleLength ty = some length ∧ y = .sequence ys ∧
      List.Forall₂ (fun y w => ∃ vs, w = .tuple vs ∧
        ((∃ ys, y = .sequence ys ∧ ComponentLiterals components ys vs) ∨
          ∃ entries, y = .mapping entries ∧ entries.length = components.length ∧
            FieldLiterals components entries vs)) ys ws ∧
      if length = "" then v = .array ws else parseUsize length = some ws.length ∧ v = .fixedArray ws

def ComponentLiterals : List Param → List Yaml → List DynSolValue → Prop
  | [], [], [] => True
  | component :: components, y :: ys, v :: vs =>
    ParamLiteral component y v ∧ ComponentLiterals components ys vs
  | _, _, _ => False

def FieldLiterals : List Param → List (Yaml × Yaml) → List DynSolValue → Prop
  | [], _, [] => True
  | component :: components, entries, v :: vs => component.name ≠ "" ∧
    (∃ y, Yaml.get entries component.name = some y ∧ ParamLiteral component y v) ∧
      FieldLiterals components entries vs
  | _, _, _ => False

end

/-- The word `random` is not an address, a byte string or a number. -/
structure KnowsRandom (abi : AbiCrate) : Prop where
  address : ∀ a, abi.parseAddress "random" ≠ .ok a
  bytes : ∀ bytes, abi.parseBytes "random" ≠ .ok bytes
  u256 : ∀ n, abi.readU256 (.string "random") ≠ .ok n
  i256 : ∀ n, abi.readI256 (.string "random") ≠ .ok n

theorem parseGenerator_string {s : String} (h : s ≠ "random") : parseGenerator (.string s) = none := by
  simp [parseGenerator, h]

theorem parseGenerator_sequence (ys : List Yaml) : parseGenerator (.sequence ys) = none := by
  simp [parseGenerator]

theorem parseGenerator_number (n : YamlNumber) : parseGenerator (.number n) = none := by
  simp [parseGenerator]

theorem parseGenerator_bool (b : Bool) : parseGenerator (.bool b) = none := by
  simp [parseGenerator]

@[simp] theorem parseGenerator_random : parseGenerator (.string "random") = some .random := by
  simp [parseGenerator, Yaml.tagFree]

/-- A list of values says `random` if one of them does. -/
theorem saysRandom_iff {v : DynSolValue} (h : ∀ s, v ≠ .string s) :
    v.SaysRandom ↔ ∃ w ∈ v.elements, w.SaysRandom := by
  rw [SaysRandom, within_iff_elements]
  exact ⟨fun hv => hv.resolve_left (h _), .inr⟩

@[simp] theorem saysRandom_string {s : String} : (DynSolValue.string s).SaysRandom ↔ s = "random" := by
  rw [SaysRandom, within_iff_elements]
  simp [elements]

@[simp] theorem saysRandom_array {vs : List DynSolValue} :
    (DynSolValue.array vs).SaysRandom ↔ ∃ v ∈ vs, v.SaysRandom := saysRandom_iff (by simp)

@[simp] theorem saysRandom_fixedArray {vs : List DynSolValue} :
    (DynSolValue.fixedArray vs).SaysRandom ↔ ∃ v ∈ vs, v.SaysRandom := saysRandom_iff (by simp)

@[simp] theorem saysRandom_tuple {vs : List DynSolValue} :
    (DynSolValue.tuple vs).SaysRandom ↔ ∃ v ∈ vs, v.SaysRandom := saysRandom_iff (by simp)

/-- Values that are read each for itself. -/
theorem yields_values {pairs : List (Yaml × DynSolType)} {vs : List DynSolValue}
    (h : List.Forall₂ (fun pair v =>
      Draw.Yields (abi.yamlToDynValue resolver pair.1 pair.2) v v.SaysRandom) pairs vs) :
    Draw.Yields (abi.yamlToDynValues resolver pairs) vs (∃ v ∈ vs, v.SaysRandom) := by
  induction h with
  | nil =>
      rw [yamlToDynValues]
      exact Draw.yields_pure.congr (by simp)
  | @cons pair v pairs vs hfirst _ ih =>
      obtain ⟨value, ty⟩ := pair
      rw [yamlToDynValues]
      exact (hfirst.bind (ih.map _)).congr (by simp)

/-- A literal without parts, which is not a string. -/
theorem yields_elementary {y : Yaml} {ty : DynSolType} {v : DynSolValue}
    (hparse : parseGenerator y = none) (hread : abi.readElementary y ty = .ok v)
    (hty : (∀ inner, ty ≠ .array inner) ∧ (∀ inner size, ty ≠ .fixedArray inner size) ∧
      ∀ types, ty ≠ .tuple types) (hstring : ∀ s, v ≠ .string s) (hparts : v.elements = []) :
    Draw.Yields (abi.yamlToDynValue resolver y ty) v v.SaysRandom := by
  have hliteral : abi.yamlToDynValue resolver y ty = liftM (abi.readElementary y ty) := by
    rw [yamlToDynValue_literal hparse]
    cases ty with
    | array inner => exact absurd rfl (hty.1 inner)
    | fixedArray inner size => exact absurd rfl (hty.2.1 inner size)
    | tuple types => exact absurd rfl (hty.2.2 types)
    | _ => rfl
  rw [hliteral]
  refine (Draw.yields_lift hread).congr ?_
  rw [saysRandom_iff hstring, hparts]
  simp

/-- The literal of a number is not the string `random`. -/
theorem parseGenerator_scalar {y : Yaml} (h : (∃ m, y = .number m) ∨ ∃ s, y = .string s)
    (hne : y ≠ .string "random") : parseGenerator y = none := by
  rcases h with ⟨m, rfl⟩ | ⟨s, rfl⟩
  · exact parseGenerator_number m
  · exact parseGenerator_string fun hs => hne (by rw [hs])

mutual

/-- A literal is read, unless it says `random`. -/
theorem yields_literal (hrandom : KnowsRandom abi) : ∀ {ty : DynSolType} {y : Yaml} {v : DynSolValue},
    abi.Literal ty y v → Draw.Yields (abi.yamlToDynValue resolver y ty) v v.SaysRandom
  | .address, y, v, h => by
      obtain ⟨s, a, rfl, hparse, rfl⟩ := h
      refine yields_elementary (parseGenerator_string ?_) ?_ (by simp) (by simp) rfl
      · rintro rfl
        exact hrandom.address _ hparse
      · simp only [readElementary, readString, Yaml.untagRef, bind_eq_ok]
        exact ⟨s, rfl, a, hparse, rfl⟩
  | .bool, y, v, h => by
      obtain ⟨b, rfl, rfl⟩ := h
      exact yields_elementary (parseGenerator_bool b) rfl (by simp) (by simp) rfl
  | .string, y, v, h => by
      obtain ⟨s, rfl, rfl⟩ := h
      by_cases hs : s = "random"
      · subst hs
        -- the one literal that is a generator, and no value is generated for a string
        rw [yamlToDynValue_random parseGenerator_random]
        exact (Draw.yields_error fun r => rfl).congr (by simp)
      · have hliteral : abi.yamlToDynValue resolver (.string s) .string =
            liftM (abi.readElementary (.string s) .string) := by
          rw [yamlToDynValue_literal (parseGenerator_string hs)]
        rw [hliteral]
        exact (Draw.yields_lift rfl).congr (by simp [hs])
  | .bytes, y, v, h => by
      obtain ⟨s, bytes, rfl, hparse, rfl⟩ := h
      refine yields_elementary (parseGenerator_string ?_) ?_ (by simp) (by simp) rfl
      · rintro rfl
        exact hrandom.bytes _ hparse
      · simp only [readElementary, readString, Yaml.untagRef, bind_eq_ok]
        exact ⟨s, rfl, bytes, hparse, rfl⟩
  | .fixedBytes size, y, v, h => by
      obtain ⟨s, bytes, rfl, hparse, hlength, rfl⟩ := h
      refine yields_elementary (parseGenerator_string ?_) ?_ (by simp) (by simp) rfl
      · rintro rfl
        exact hrandom.bytes _ hparse
      · simp only [readElementary, readString, Yaml.untagRef, bind_eq_ok, bailIf_eq_ok]
        exact ⟨s, rfl, bytes, hparse, (), by simp [hlength], rfl⟩
  | .uint bits, y, v, h => by
      obtain ⟨n, hscalar, hread, hrange, rfl⟩ := h
      refine yields_elementary (parseGenerator_scalar hscalar ?_) ?_ (by simp) (by simp) rfl
      · rintro rfl
        exact hrandom.u256 _ hread
      · simp only [readElementary, bind_eq_ok, bailIf_eq_ok, wrapErr_eq_ok]
        exact ⟨n, hread, (), Nat.not_lt.2 (Nat.size_le.2 hrange), rfl⟩
  | .int bits, y, v, h => by
      obtain ⟨n, hscalar, hread, hrange, rfl⟩ := h
      refine yields_elementary (parseGenerator_scalar hscalar ?_) ?_ (by simp) (by simp) rfl
      · rintro rfl
        exact hrandom.i256 _ hread
      · simp only [readElementary, bind_eq_ok, bailIf_eq_ok, wrapErr_eq_ok]
        exact ⟨n, hread, (), Nat.not_lt.2 (signedBits_le.2 hrange), rfl⟩
  | .array inner, y, v, h => by
      obtain ⟨ys, vs, rfl, rfl, hinner⟩ := h
      have hvalues : Draw.Yields (abi.yamlToDynValues resolver (ys.map (·, inner))) vs
          (∃ v ∈ vs, v.SaysRandom) := by
        refine yields_values (List.forall₂_map_left_iff.2 (hinner.imp fun y v hy => ?_))
        exact yields_literal hrandom hy
      rw [yamlToDynValue_literal (parseGenerator_sequence ys)]
      exact (Draw.Yields.lift_bind rfl (hvalues.map _)).congr saysRandom_array.symm
  | .fixedArray inner size, y, v, h => by
      obtain ⟨ys, vs, rfl, rfl, hlength, hinner⟩ := h
      have hvalues : Draw.Yields (abi.yamlToDynValues resolver (ys.map (·, inner))) vs
          (∃ v ∈ vs, v.SaysRandom) := by
        refine yields_values (List.forall₂_map_left_iff.2 (hinner.imp fun y v hy => ?_))
        exact yields_literal hrandom hy
      rw [yamlToDynValue_literal (parseGenerator_sequence ys)]
      have hcount : vs.length = size := hinner.length_eq.symm.trans hlength
      have hend : Draw.Yields (do
          bailIf (vs.length ≠ size)
            s!"{abi.displayType (.fixedArray inner size)} expects {size} values, got {vs.length}"
          return .fixedArray vs : Draw ρ DynSolValue) (.fixedArray vs) False :=
        Draw.Yields.lift_bind (a := ()) (bailIf_eq_ok.2 (not_not.2 hcount)) Draw.yields_pure
      exact (Draw.Yields.lift_bind rfl (hvalues.bind hend)).congr (by simp)
  | .tuple types, y, v, h => by
      obtain ⟨ys, vs, rfl, rfl, htypes⟩ := h
      obtain ⟨hlength, hpairs⟩ := yields_literals hrandom htypes
      rw [yamlToDynValue_literal (parseGenerator_sequence ys)]
      refine (Draw.Yields.lift_bind rfl (Draw.Yields.lift_bind (a := ()) (bailIf_eq_ok.2 ?_)
        ((yields_values hpairs).map _))).congr saysRandom_tuple.symm
      exact not_not.2 hlength
  | .function, _, _, h | .customStruct _ _ _, _, _, h => h.elim

/-- The literals of a tuple, each at its type. -/
theorem yields_literals (hrandom : KnowsRandom abi) :
    ∀ {types : List DynSolType} {ys : List Yaml} {vs : List DynSolValue}, abi.Literals types ys vs →
      ys.length = types.length ∧ List.Forall₂ (fun pair v =>
        Draw.Yields (abi.yamlToDynValue resolver pair.1 pair.2) v v.SaysRandom) (ys.zip types) vs
  | [], [], [], _ => ⟨rfl, .nil⟩
  | ty :: types, y :: ys, v :: vs, h => by
      obtain ⟨hlength, hrest⟩ := yields_literals hrandom h.2
      exact ⟨by simp [hlength], .cons (yields_literal hrandom h.1) hrest⟩

end

/-- A literal of a tuple whose components are read by position and by name. -/
theorem yields_tuple {components : List Param} {y : Yaml} {vs : List DynSolValue}
    (hposition : ∀ {ys vs}, abi.ComponentLiterals components ys vs → ys.length = components.length ∧
      Draw.Yields (abi.componentValues resolver components ys) vs (∃ v ∈ vs, v.SaysRandom))
    (hname : ∀ {entries vs}, abi.FieldLiterals components entries vs →
      Draw.Yields (abi.fieldValues resolver components entries) vs (∃ v ∈ vs, v.SaysRandom))
    (h : (∃ ys, y = .sequence ys ∧ abi.ComponentLiterals components ys vs) ∨
      ∃ entries, y = .mapping entries ∧ entries.length = components.length ∧
        abi.FieldLiterals components entries vs) :
    Draw.Yields (abi.yamlToTupleValue resolver y components) (.tuple vs)
      (DynSolValue.tuple vs).SaysRandom := by
  rcases h with ⟨ys, rfl, hys⟩ | ⟨entries, rfl, hcount, hentries⟩
  · obtain ⟨hlength, hyields⟩ := hposition hys
    refine (Draw.Yields.lift_bind (a := ()) (bailIf_eq_ok.2 ?_) (hyields.map _)).congr
      saysRandom_tuple.symm
    exact not_not.2 hlength
  · refine (Draw.Yields.lift_bind (a := ()) (bailIf_eq_ok.2 ?_) ((hname hentries).map _)).congr
      saysRandom_tuple.symm
    exact not_not.2 hcount

mutual

theorem yields_param (hrandom : KnowsRandom abi) : ∀ {param : Param} {y : Yaml} {v : DynSolValue},
    abi.ParamLiteral param y v → Draw.Yields (abi.yamlToParamValue resolver param y) v v.SaysRandom
  | .mk name ty components, y, v, h => by
      have htuple : ∀ {y : Yaml} {vs : List DynSolValue},
          ((∃ ys, y = .sequence ys ∧ abi.ComponentLiterals components ys vs) ∨
            ∃ entries, y = .mapping entries ∧ entries.length = components.length ∧
              abi.FieldLiterals components entries vs) →
          Draw.Yields (abi.yamlToTupleValue resolver y components) (.tuple vs)
            (DynSolValue.tuple vs).SaysRandom :=
        yields_tuple (yields_components hrandom) (yields_fields hrandom)
      rw [ParamLiteral] at h
      rw [yamlToParamValue]
      split at h
      · next hempty =>
          obtain ⟨t, hparse, hliteral⟩ := h
          rw [if_pos hempty, yamlToSolValue, hparse]
          exact Draw.Yields.lift_bind rfl (yields_literal hrandom hliteral)
      · next hempty =>
          rw [if_neg hempty]
          split at h
          · next hty =>
              obtain ⟨vs, rfl, hvs⟩ := h
              rw [if_pos hty]
              exact htuple hvs
          · next hty =>
              obtain ⟨length, ys, ws, hlength, rfl, hws, hv⟩ := h
              rw [if_neg hty, hlength]
              have hvalues : Draw.Yields (ys.mapM (tupleValue components
                  (abi.componentValues resolver components) (abi.fieldValues resolver components)))
                  ws (∃ w ∈ ws, w.SaysRandom) := by
                refine Draw.Yields.mapM (hws.imp ?_)
                rintro y w ⟨vs, rfl, hvs⟩
                exact htuple hvs
              refine Draw.Yields.lift_bind rfl ?_
              split at hv
              · next hdynamic =>
                  subst hv
                  simp only [if_pos hdynamic]
                  exact (hvalues.map _).congr saysRandom_array.symm
              · next hdynamic =>
                  obtain ⟨hsize, rfl⟩ := hv
                  have hend : Draw.Yields (do
                      let expected ← liftM (okOr (parseUsize length) "invalid digit found in string")
                      bailIf (ws.length ≠ expected)
                        s!"{ty} expects {expected} values, got {ws.length}"
                      return .fixedArray ws : Draw ρ DynSolValue) (.fixedArray ws) False := by
                    refine Draw.Yields.lift_bind (okOr_eq_ok.2 hsize) ?_
                    exact Draw.Yields.lift_bind (a := ()) (bailIf_eq_ok.2 (not_not.2 rfl))
                      Draw.yields_pure
                  simp only [if_neg hdynamic]
                  exact (hvalues.bind hend).congr (by simp)

theorem yields_components (hrandom : KnowsRandom abi) :
    ∀ {components : List Param} {ys : List Yaml} {vs : List DynSolValue},
      abi.ComponentLiterals components ys vs → ys.length = components.length ∧
        Draw.Yields (abi.componentValues resolver components ys) vs (∃ v ∈ vs, v.SaysRandom)
  | [], [], [], _ => by
      rw [componentValues]
      · exact ⟨rfl, Draw.yields_pure.congr (by simp)⟩
      · simp
  | component :: components, y :: ys, v :: vs, h => by
      obtain ⟨hlength, hrest⟩ := yields_components hrandom h.2
      rw [componentValues]
      refine ⟨by simp [hlength], ?_⟩
      exact ((yields_param hrandom h.1).bind (hrest.map _)).congr (by simp)

theorem yields_fields (hrandom : KnowsRandom abi) :
    ∀ {components : List Param} {entries : List (Yaml × Yaml)} {vs : List DynSolValue},
      abi.FieldLiterals components entries vs →
        Draw.Yields (abi.fieldValues resolver components entries) vs (∃ v ∈ vs, v.SaysRandom)
  | [], entries, [], _ => by
      rw [fieldValues]
      exact Draw.yields_pure.congr (by simp)
  | component :: components, entries, v :: vs, h => by
      obtain ⟨hnamed, ⟨y, hget, hliteral⟩, hrest⟩ := h
      rw [fieldValues]
      refine (Draw.Yields.lift_bind (a := ()) (bailIf_eq_ok.2 hnamed)
        (Draw.Yields.lift_bind (okOr_eq_ok.2 hget)
          ((yields_param hrandom hliteral).bind ((yields_fields hrandom hrest).map _)))).congr ?_
      simp

end

end AbiCrate

/-! ## Calls -/

/-- A call with literals. -/
theorem AbiCrate.yields_call {ρ : Type} {abi : AbiCrate}
    (hrandom : abi.KnowsRandom) {functions : List AbiFunction} {function : String} {func : AbiFunction}
    (hfunc : AbiCrate.findFunction functions function = some func) {args : List Yaml}
    {values : List DynSolValue} (hliterals : abi.ComponentLiterals func.inputs args values)
    (resolver : Resolver ρ) : Draw.Yields (abi.encodeFunctionCall resolver functions function args)
      (func.selector ++ abi.abiEncodeParams values) (∃ v ∈ values, v.SaysRandom) := by
  obtain ⟨hlength, hvalues⟩ := AbiCrate.yields_components hrandom hliterals
  refine Draw.Yields.lift_bind (okOr_eq_ok.2 hfunc) ?_
  refine Draw.Yields.lift_bind (a := ()) (bailIf_eq_ok.2 ?_) (hvalues.map _)
  exact not_not.2 hlength.symm

namespace CallSample

/-- Words are encoded one after the other. -/
def encodeWords : List DynSolValue → List UInt8
  | [] => []
  | .tuple values :: rest =>
    (values.filterMap DynSolValue.asWord).flatMap (fun word => toBeBytes 32 word.toNat) ++ encodeWords rest
  | value :: rest =>
    (value.asWord.map fun word => toBeBytes 32 word.toNat).getD [] ++ encodeWords rest

def abi : AbiCrate where
  parseType ty :=
    if ty = "uint256" then .ok (.uint 256) else if ty = "string" then .ok .string
    else bail "unknown type"
  displayType _ := "type"
  parseAddress _ := bail "invalid string length"
  parseBytes _ := bail "invalid string length"
  readU256 value :=
    match value with
    | .number (.int n) => if 0 ≤ n then .ok (BitVec.ofNat 256 n.toNat) else bail "invalid value"
    | _ => bail "invalid value"
  readI256 value :=
    match value with
    | .number (.int n) => .ok (BitVec.ofInt 256 n)
    | _ => bail "invalid value"
  abiEncodeParams := encodeWords

theorem abi_knowsRandom : abi.KnowsRandom := by
  constructor <;> simp [abi]

def resolver : Resolver ℕ where
  accounts _ _ := liftM (m := Except Report) (bail "pool not found")
  addressPools _ _ := liftM (m := Except Report) (bail "pool not found")
  randomIndex _ h r := .ok (⟨0, h⟩, r + 1)
  randomSlot _ r := .ok (0, r + 1)
  randomBytes len r := .ok (List.replicate len 0, r + 1)
  randomAddress r := .ok (0, r + 1)
  randomWord r := .ok (0, r + 1)
  displayAddress _ := "0x"

/-- `move((uint256 x, uint256 y))` -/
def move : AbiFunction where
  name := "move"
  signature := "move((uint256,uint256))"
  selector := [1, 2, 3, 4]
  inputs := [.mk "to" "tuple" [.mk "x" "uint256" [], .mk "y" "uint256" []]]

/-- `say(string)` -/
def say : AbiFunction where
  name := "say"
  signature := "say(string)"
  selector := [5, 6, 7, 8]
  inputs := [.mk "text" "string" []]

end CallSample

end TxGen
