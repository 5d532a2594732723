import TxGen.Abi.Types
import TxGen.Core.Merge
import TxGen.Scenario.Value

set_option autoImplicit false

/-! # Generator expressions

A value can be a generator expression: the string `random`, or a mapping whose only key names the
generator. Values are parsed as the derived deserializers do it: a variant or a field is known by its name
or its position, the fields of a struct may stand in a list, and nothing below a tag is looked at. -/

namespace TxGen

inductive SelectMode
  /-- Select randomly. -/
  | random
  /-- Select by specific index. -/
  | index (index : ℕ)
deriving DecidableEq

/-- Uniform random integer range. -/
inductive UniformRange
  /-- Inclusive `[min, max]` range. -/
  | range (min max : Yaml)
  /-- Inclusive range with optional step. -/
  | options (min max : Yaml) (step : Option Yaml)
deriving DecidableEq

inductive Generator
  /-- Uniform random integer in range `[min, max]`. -/
  | uniform (range : UniformRange)
  /-- Random choice from a list of values. -/
  | choice (choices : List Yaml)
  /-- Account address from a signer pool. -/
  | pool (pool : String) (select : SelectMode)
  /-- Destination address from an address-only pool. -/
  | addressPool (pool : String) (select : SelectMode)
  /-- Random bytes of given length. -/
  | randomBytes (len : ℕ)
  /-- Random value. -/
  | random
  /-- Explicit constant value. -/
  | const (value : Yaml)
deriving DecidableEq

/-! ## Parsing -/

namespace Yaml

mutual

/-- No tags anywhere in the value. -/
def tagFree : Yaml → Bool
  | .tagged .. => false
  | .sequence values => tagFreeList values
  | .mapping entries => tagFreeEntries entries
  | _ => true

def tagFreeList : List Yaml → Bool
  | [] => true
  | value :: values => value.tagFree && tagFreeList values

def tagFreeEntries : List (Yaml × Yaml) → Bool
  | [] => true
  | (key, value) :: entries => key.tagFree && value.tagFree && tagFreeEntries entries

end

mutual

/-- The number of values in the value. -/
def size : Yaml → ℕ
  | .sequence values => sizeList values + 1
  | .mapping entries => sizeEntries entries + 1
  | .tagged _ value => value.size + 1
  | _ => 1

def sizeList : List Yaml → ℕ
  | [] => 0
  | value :: values => value.size + sizeList values

def sizeEntries : List (Yaml × Yaml) → ℕ
  | [] => 0
  | (_, value) :: entries => value.size + sizeEntries entries

end

theorem size_pos (value : Yaml) : 0 < value.size := by
  cases value <;> simp [size]

theorem size_le_of_mem {value : Yaml} {values : List Yaml} (h : value ∈ values) :
    value.size ≤ sizeList values := by
  induction values with
  | nil => cases h
  | cons first values ih =>
      rw [sizeList]
      rcases List.mem_cons.1 h with rfl | h
      · omega
      · have := ih h
        omega

theorem size_le_of_get {key : String} {value : Yaml} {entries : List (Yaml × Yaml)}
    (h : get entries key = some value) : value.size ≤ sizeEntries entries := by
  induction entries with
  | nil => cases h
  | cons e entries ih =>
      rw [sizeEntries]
      rw [get_cons] at h
      split at h
      · obtain rfl := Option.some.inj h
        omega
      · have := ih h
        omega

theorem size_untagRef (value : Yaml) : value.untagRef.size ≤ value.size := by
  induction value using untagRef.induct with
  | case1 tag value ih =>
      rw [untagRef, size]
      omega
  | case2 value h =>
      rw [untagRef]
      exact h

end Yaml

/-- The name that a key stands for: `none` if it cannot be one, and nothing for an unknown one. -/
def identifier (names : List String) : Yaml → Option (Option String)
  | .string name => some (if name ∈ names then some name else none)
  | .number (.int position) => if 0 ≤ position then some names[position.toNat]? else none
  | _ => none

/-- The fields of a struct by position or by name; unknown ones are skipped, and none stands twice. -/
def structFields (names : List String) : Yaml → Option (List (Option Yaml))
  | .sequence values =>
    if values.length ≤ names.length then some ((List.range names.length).map (values[·]?)) else none
  | .mapping entries =>
    if entries.all fun e => (identifier names e.1).isSome then
      names.mapM fun name =>
        match entries.filter fun e => identifier names e.1 = some (some name) with
        | [] => some none
        | [e] => some (some e.2)
        | _ => none
    else none
  | _ => none

def parseUniformRange : Yaml → Option UniformRange
  | .sequence [min, max] => some (.range min max)
  | value =>
    match structFields ["min", "max", "step"] value with
    | some [some min, some max, step] => some (.options min max (step.filter (· ≠ .null)))
    | _ => none

/-- `usize` -/
def yamlUsize : Yaml → Option ℕ
  | .number (.int n) => if 0 ≤ n then some n.toNat else none
  | _ => none

def parseSelectMode : Yaml → Option SelectMode
  | .string name => if name = "random" then some .random else none
  | value =>
    match structFields ["index"] value with
    | some [some index] => (yamlUsize index).map .index
    | _ => none

/-- The fields of `Pool` and of `AddressPool`. -/
def parsePool (value : Yaml) : Option (String × SelectMode) :=
  match structFields ["pool", "select"] value with
  | some [some (.string pool), some select] => (parseSelectMode select).map (pool, ·)
  | _ => none

def generatorNames : List String :=
  ["uniform", "choice", "pool", "address_pool", "random_bytes", "random", "const"]

/-- The generator of a name, with what stands under it. -/
def parseVariant (name : String) (value : Yaml) : Option Generator :=
  match name with
  | "uniform" => (parseUniformRange value).map .uniform
  | "choice" =>
    match value with
    | .sequence choices => some (.choice choices)
    | _ => none
  | "pool" => (parsePool value).map fun (pool, select) => .pool pool select
  | "address_pool" => (parsePool value).map fun (pool, select) => .addressPool pool select
  | "random_bytes" => (yamlUsize value).map .randomBytes
  | "random" => if value = .null then some .random else none
  | "const" => some (.const value)
  | _ => none

def parseGenerator (value : Yaml) : Option Generator :=
  if value.tagFree then
    match value with
    | .string name => if name = "random" then some .random else none
    | .mapping [(key, value)] =>
      match identifier generatorNames key with
      | some (some name) => parseVariant name value
      | _ => none
    | _ => none
  else none

/-- A scalar is not a generator, unless it is the string `random`. -/
theorem parseGenerator_eq_some {value : Yaml} {generator : Generator}
    (h : parseGenerator value = some generator) : value.tagFree = true ∧
      ((value = .string "random" ∧ generator = .random) ∨
        ∃ key body name, value = .mapping [(key, body)] ∧
          identifier generatorNames key = some (some name) ∧ parseVariant name body = some generator) := by
  unfold parseGenerator at h
  split at h
  · next hfree =>
      refine ⟨hfree, ?_⟩
      split at h
      · split at h
        · next hname => exact .inl ⟨by rw [hname], (Option.some.inj h).symm⟩
        · cases h
      · next key body =>
          split at h
          · next name hname => exact .inr ⟨key, body, name, rfl, hname, h⟩
          · cases h
      · cases h
  · cases h

/-- What a generator holds stands below it. -/
theorem parseVariant_holds {name : String} {body : Yaml} {generator : Generator}
    (h : parseVariant name body = some generator) :
    (∀ choices, generator = .choice choices → body = .sequence choices) ∧
      ∀ value, generator = .const value → body = value := by
  unfold parseVariant at h
  split at h
  · obtain ⟨_, -, rfl⟩ := Option.map_eq_some_iff.1 h
    exact ⟨nofun, nofun⟩
  · split at h
    · obtain rfl := Option.some.inj h
      exact ⟨fun choices hc => by rw [Generator.choice.inj hc], nofun⟩
    · cases h
  · obtain ⟨_, -, rfl⟩ := Option.map_eq_some_iff.1 h
    exact ⟨nofun, nofun⟩
  · obtain ⟨_, -, rfl⟩ := Option.map_eq_some_iff.1 h
    exact ⟨nofun, nofun⟩
  · obtain ⟨_, -, rfl⟩ := Option.map_eq_some_iff.1 h
    exact ⟨nofun, nofun⟩
  · split at h
    · obtain rfl := Option.some.inj h
      exact ⟨nofun, nofun⟩
    · cases h
  · obtain rfl := Option.some.inj h
    exact ⟨nofun, fun value hv => Generator.const.inj hv⟩
  · cases h

theorem size_of_choice {value : Yaml} {choices : List Yaml} {choice : Yaml}
    (h : parseGenerator value = some (.choice choices)) (hmem : choice ∈ choices) :
    choice.size < value.size := by
  obtain ⟨-, ⟨-, hrandom⟩ | ⟨key, body, name, rfl, -, hbody⟩⟩ := parseGenerator_eq_some h
  · cases hrandom
  · obtain rfl := (parseVariant_holds hbody).1 choices rfl
    have := Yaml.size_le_of_mem hmem
    simp only [Yaml.size, Yaml.sizeEntries]
    omega

theorem size_of_const {value inner : Yaml} (h : parseGenerator value = some (.const inner)) :
    inner.size < value.size := by
  obtain ⟨-, ⟨-, hrandom⟩ | ⟨key, body, name, rfl, -, hbody⟩⟩ := parseGenerator_eq_some h
  · cases hrandom
  · obtain rfl := (parseVariant_holds hbody).2 inner rfl
    simp only [Yaml.size, Yaml.sizeEntries]
    omega

/-! ## Drawing -/

/-- What is drawn from the random number generator, or an error. -/
abbrev Draw (ρ : Type) : Type → Type := StateT ρ (Except Report)

namespace Draw

variable {ρ α β : Type}

theorem bind_ok {x : Draw ρ α} {f : α → Draw ρ β} {r r' : ρ} {b : β} :
    (x >>= f) r = .ok (b, r') ↔ ∃ a r₁, x r = .ok (a, r₁) ∧ f a r₁ = .ok (b, r') := by
  show (x r >>= fun result => f result.1 result.2) = .ok (b, r') ↔ _
  rw [bind_eq_ok]
  exact ⟨fun ⟨result, h⟩ => ⟨result.1, result.2, h⟩, fun ⟨a, r₁, h⟩ => ⟨(a, r₁), h⟩⟩

@[simp] theorem pure_ok {a b : α} {r r' : ρ} :
    (pure a : Draw ρ α) r = .ok (b, r') ↔ a = b ∧ r = r' := by
  simp [pure, StateT.pure, Except.pure]

@[simp] theorem lift_ok {result : Except Report α} {a : α} {r r' : ρ} :
    (liftM result : Draw ρ α) r = .ok (a, r') ↔ result = .ok a ∧ r = r' := by
  cases result <;> simp [liftM, monadLift, MonadLift.monadLift, StateT.lift, bind, Except.bind, pure,
    Except.pure]

end Draw

/-- The accounts, the address pools and the random number generator of a resolver. -/
structure Resolver (ρ : Type) where
  accounts : String → SelectMode → Draw ρ Address
  addressPools : String → SelectMode → Draw ρ Address
  /-- `random_range(0..len)` -/
  randomIndex : (len : ℕ) → 0 < len → Draw ρ (Fin len)
  /-- `random_range(0..=slots)` -/
  randomSlot : ℤ → Draw ρ ℤ
  /-- `fill` -/
  randomBytes : ℕ → Draw ρ (List UInt8)
  randomAddress : Draw ρ Address
  randomWord : Draw ρ Word
  displayAddress : Address → String

/-- `i128`, as `checked_sub`, `checked_mul` and `checked_add` leave it -/
def checkedI128 (value : ℤ) (message : String) : Except Report ℤ :=
  if -2 ^ 127 ≤ value ∧ value < 2 ^ 127 then .ok value else bail message

def yamlI128 (value : Yaml) (context : String) : Except Report ℤ :=
  match value with
  | .number (.int n) => checkedI128 n s!"{context} must be an integer"
  | _ => bail s!"{context} must be an integer"

/-- The ends of a range, and its step. -/
def uniformBounds : UniformRange → Except Report (ℤ × ℤ × ℤ)
  | .range min max => do
    return (← yamlI128 min "uniform min", ← yamlI128 max "uniform max", 1)
  | .options min max step => do
    let min ← yamlI128 min "uniform min"
    let max ← yamlI128 max "uniform max"
    let step ← match step with
      | some step => yamlI128 step "uniform step"
      | none => pure 1
    return (min, max, step)

namespace Resolver

variable {ρ : Type} (resolver : Resolver ρ)

def sampleUniformI128 (range : UniformRange) : Draw ρ ℤ := do
  let (min, max, step) ← uniformBounds range
  bailIf (step ≤ 0) "uniform step must be greater than zero"
  bailIf (max < min) "uniform min must be less than or equal to max"
  let span ← checkedI128 (max - min) "uniform range overflowed"
  let offset ← resolver.randomSlot (span / step)
  let distance ← checkedI128 (offset * step) "uniform selection overflowed"
  checkedI128 (min + distance) "uniform selection overflowed"

/-- A generator expression is resolved to a value, and any other value stays. -/
def resolveYaml (value : Yaml) : Draw ρ Yaml :=
  match h : parseGenerator value with
  | none => pure value
  | some (.uniform range) => do return .number (.int (← resolver.sampleUniformI128 range))
  | some (.choice choices) =>
    if hlen : 0 < choices.length then do
      let i ← resolver.randomIndex choices.length hlen
      have : choices[i].size < value.size := size_of_choice h (List.getElem_mem i.isLt)
      resolveYaml choices[i]
    else liftM (m := Except Report) (bail "choice generator must contain at least one value")
  | some (.pool pool select) => do
    return .string (resolver.displayAddress (← resolver.accounts pool select))
  | some (.addressPool pool select) => do
    return .string (resolver.displayAddress (← resolver.addressPools pool select))
  | some (.randomBytes len) => do return .string (hexString (← resolver.randomBytes len))
  | some (.const value) => pure value
  | some .random =>
    liftM (m := Except Report) (bail "cannot resolve untyped random generator to a YAML value")
termination_by value.size

/-- What a value is resolved to. -/
inductive Resolves : Yaml → Yaml → Prop
  | plain {value : Yaml} (h : parseGenerator value = none) : Resolves value value
  | number {value : Yaml} {range : UniformRange} (h : parseGenerator value = some (.uniform range))
      (n : ℤ) : Resolves value (.number (.int n))
  | address {value : Yaml} {pool : String} {select : SelectMode}
      (h : parseGenerator value = some (.pool pool select) ∨
        parseGenerator value = some (.addressPool pool select)) (address : Address) :
      Resolves value (.string (resolver.displayAddress address))
  | bytes {value : Yaml} {len : ℕ} (h : parseGenerator value = some (.randomBytes len))
      (bytes : List UInt8) : Resolves value (.string (hexString bytes))
  | const {value inner : Yaml} (h : parseGenerator value = some (.const inner)) : Resolves value inner
  | choice {value choice result : Yaml} {choices : List Yaml}
      (h : parseGenerator value = some (.choice choices)) (hmem : choice ∈ choices)
      (hchoice : Resolves choice result) : Resolves value result

variable {resolver}

/-- `Value::from_generator` -/
theorem resolveYaml_generator {value : Yaml} (generator : Generator) :
    parseGenerator value = some generator → resolver.resolveYaml value =
      match generator with
      | .uniform range => do return .number (.int (← resolver.sampleUniformI128 range))
      | .choice choices =>
        if hlen : 0 < choices.length then do
          resolver.resolveYaml choices[← resolver.randomIndex choices.length hlen]
        else liftM (m := Except Report) (bail "choice generator must contain at least one value")
      | .pool pool select => do
        return .string (resolver.displayAddress (← resolver.accounts pool select))
      | .addressPool pool select => do
        return .string (resolver.displayAddress (← resolver.addressPools pool select))
      | .randomBytes len => do return .string (hexString (← resolver.randomBytes len))
      | .const value => pure value
      | .random =>
        liftM (m := Except Report) (bail "cannot resolve untyped random generator to a YAML value") := by
  intro h
  rw [resolveYaml]
  split
  · next hnone => simp [hnone] at h
  all_goals
    next hparse =>
      obtain rfl := Option.some.inj (hparse.symm.trans h)
      rfl

theorem resolveYaml_plain {value : Yaml} (h : parseGenerator value = none) :
    resolver.resolveYaml value = pure value := by
  rw [resolveYaml]
  split <;> simp_all

theorem resolves_of_resolveYaml {value result : Yaml} {r r' : ρ}
    (h : resolver.resolveYaml value r = .ok (result, r')) : resolver.Resolves value result := by
  induction hsize : value.size using Nat.strong_induction_on generalizing value r with
  | _ size ih =>
      cases hparse : parseGenerator value with
      | none =>
          rw [resolveYaml_plain hparse] at h
          obtain ⟨rfl, -⟩ := Draw.pure_ok.1 h
          exact .plain hparse
      | some generator =>
      rw [resolveYaml_generator generator hparse] at h
      cases generator with
      | uniform range =>
          obtain ⟨n, _, -, hn⟩ := Draw.bind_ok.1 h
          obtain ⟨rfl, -⟩ := Draw.pure_ok.1 hn
          exact .number hparse n
      | choice choices =>
          dsimp only at h
          split at h
          · obtain ⟨i, r₁, -, hchoice⟩ := Draw.bind_ok.1 h
            have hmem : choices[i] ∈ choices := List.getElem_mem i.isLt
            exact .choice hparse hmem (ih _ (hsize ▸ size_of_choice hparse hmem) hchoice rfl)
          · exact absurd (Draw.lift_ok.1 h).1 bail_ne_ok
      | pool pool select =>
          obtain ⟨address, _, -, haddress⟩ := Draw.bind_ok.1 h
          obtain ⟨rfl, -⟩ := Draw.pure_ok.1 haddress
          exact .address (.inl hparse) address
      | addressPool pool select =>
          obtain ⟨address, _, -, haddress⟩ := Draw.bind_ok.1 h
          obtain ⟨rfl, -⟩ := Draw.pure_ok.1 haddress
          exact .address (.inr hparse) address
      | randomBytes len =>
          obtain ⟨bytes, _, -, hbytes⟩ := Draw.bind_ok.1 h
          obtain ⟨rfl, -⟩ := Draw.pure_ok.1 hbytes
          exact .bytes hparse bytes
      | const inner =>
          obtain ⟨rfl, -⟩ := Draw.pure_ok.1 h
          exact .const hparse
      | random => exact absurd (Draw.lift_ok.1 h).1 bail_ne_ok

/-- A generator is resolved to a scalar, or to something that stands below it. -/
theorem Resolves.size {value result : Yaml} (h : resolver.Resolves value result) :
    result.size ≤ value.size ∧ (parseGenerator value ≠ none → result.size < value.size) := by
  have hmapping : ∀ {value : Yaml} {generator : Generator},
      parseGenerator value = some generator → generator ≠ .random → 1 < value.size := by
    intro value generator hparse hne
    obtain ⟨-, ⟨-, hrandom⟩ | ⟨key, body, name, rfl, -, -⟩⟩ := parseGenerator_eq_some hparse
    · exact absurd hrandom hne
    · have := Yaml.size_pos body
      simp only [Yaml.size, Yaml.sizeEntries]
      omega
  induction h with
  | plain h => exact ⟨le_rfl, fun hn => absurd h hn⟩
  | number h n =>
      have := hmapping h nofun
      exact ⟨this.le, fun _ => this⟩
  | address h address =>
      rcases h with h | h
      · have := hmapping h nofun
        exact ⟨this.le, fun _ => this⟩
      · have := hmapping h nofun
        exact ⟨this.le, fun _ => this⟩
  | bytes h bytes =>
      have := hmapping h nofun
      exact ⟨this.le, fun _ => this⟩
  | const h => exact ⟨(size_of_const h).le, fun _ => size_of_const h⟩
  | choice h hmem _ ih =>
      have := Nat.lt_of_le_of_lt ih.1 (size_of_choice h hmem)
      exact ⟨this.le, fun _ => this⟩

/-- What is below a generator is smaller. -/
theorem size_of_resolveYaml {value result : Yaml} {r r' : ρ} {generator : Generator}
    (hgenerator : parseGenerator value = some generator)
    (h : resolver.resolveYaml value r = .ok (result, r')) : result.size < value.size :=
  (resolves_of_resolveYaml h).size.2 (by simp [hgenerator])

end Resolver

end TxGen
