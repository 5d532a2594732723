import TxGen.Abi.IndexedValue
import TxGen.Lib.Lists
import TxGen.Scenario.EventAssignment

set_option autoImplicit false

/-! # Event filters on indexed arguments

`EventMatcher.ofFilters` resolves the `where` clause of an event. For an indexed argument of a dynamic or
composite type the topic holds a hash, and the filter hashes the value it is given. How a log is decoded
is given. -/

namespace TxGen

structure LogData where
  topics : List Word
  data : List UInt8

/-- A parameter of an event, with its Solidity type. -/
structure ResolvedParameter extends EventParameter where
  solType : DynSolType

/-- The topics of the indexed arguments. -/
def LogData.argumentTopics (log : LogData) (anonymous : Bool) : List Word :=
  log.topics.drop (if anonymous then 0 else 1)

/-- An event of an ABI. `decodeLog` gives the indexed and the other values of a log of the event; for a
    parameter whose topic is a hash the value is the topic. -/
structure Event where
  parameters : List ResolvedParameter
  anonymous : Bool
  decodeLog : LogData → Option (List DynSolValue × List DynSolValue)
  decoded : ∀ data indexed body, decodeLog data = some (indexed, body) →
    indexed.length = parameters.countP (·.indexed) ∧ body.length = parameters.countP (!·.indexed)
  hashed : ∀ data indexed body, decodeLog data = some (indexed, body) →
    List.Forall₂ (fun (parameter, topic) value =>
        indexedValueIsHashed parameter.solType = true → value = .fixedBytes topic 32)
      ((parameters.filter (·.indexed)).zip (data.argumentTopics anonymous)) indexed

/-- The topic of the indexed argument of the name. -/
def Event.topic (event : Event) (data : LogData) (name : String) : Option Word :=
  (((event.parameters.filter (·.indexed)).zip (data.argumentTopics event.anonymous)).find?
    (·.1.name = name)).map (·.2)

def Event.matcher (event : Event) (expected : List (String × DynSolValue)) :
    EventMatcher LogData DynSolValue where
  parameters := event.parameters.map (·.toEventParameter)
  expected := expected
  decodeLog := event.decodeLog
  decoded := by
    intro data indexed body h
    rw [List.countP_map, List.countP_map]
    exact event.decoded data indexed body h

section Filters

variable (abi : Abi DynSolType DynSolValue) (ctx : RuntimeContext)

def coerceEventFilter (expression : Yaml) (expected : DynSolType) : Except Report DynSolValue := do
  abi.coerceDynSol (← evalExpression abi ctx expression) expected

def validateFilterNames (parameters : List ResolvedParameter) (names : List String) :
    Except Report Unit :=
  names.forM fun name => do
    bailIf (name ≠ "" ∧ 1 < parameters.countP (·.name = name))
      s!"event argument filter '{name}' is ambiguous"
    bailIf (¬ parameters.any (·.name = name)) s!"event has no argument named '{name}'"

/-- The value that an argument must have; a hash can be given as one. -/
def filterValue (parameter : ResolvedParameter) (expression : Yaml) : Except Report DynSolValue :=
  let resolve {α : Type} (result : Except Report α) :=
    wrapErr result s!"failed to resolve event filter '{parameter.name}'"
  if parameter.indexed ∧ indexedValueIsHashed parameter.solType then do
    let runtime ← resolve (evalExpression abi ctx expression)
    match runtime with
    | .bytes32 hash => return .fixedBytes hash 32
    | runtime =>
      let value ← resolve (abi.coerceDynSol runtime parameter.solType)
      return .fixedBytes (abi.keccak256 (indexedValuePreimage value)) 32
  else resolve (coerceEventFilter abi ctx expression parameter.solType)

def expectedValue (parameters : List ResolvedParameter) (name : String) (expression : Yaml) :
    Except Report DynSolValue :=
  match parameters.find? (·.name = name) with
  | some parameter => filterValue abi ctx parameter expression
  | none => bail "filter names were validated"

/-- `EventMatcher::new`, for an event of the ABI -/
def EventMatcher.ofFilters (event : Event) (filters : List (String × Yaml)) :
    Except Report (EventMatcher LogData DynSolValue) := do
  validateFilterNames event.parameters (filters.map Prod.fst)
  let expected ← filters.mapM fun (name, expression) => do
    return (name, ← expectedValue abi ctx event.parameters name expression)
  return event.matcher expected

end Filters

/-! ## What a matcher accepts -/

/-- The values of a log with the parameters they belong to, in the order of the parameters. -/
def argumentsOf {ν : Type} : List EventParameter → List ν → List ν → List (EventParameter × ν)
  | [], _, _ => []
  | parameter :: parameters, indexed, body =>
    match (if parameter.indexed then indexed else body) with
    | [] => []
    | value :: values =>
      (parameter, value) :: argumentsOf parameters (if parameter.indexed then values else indexed)
        (if parameter.indexed then body else values)

def EventMatcher.Accepts {δ ν : Type} [DecidableEq ν] (matcher : EventMatcher δ ν) (log : RpcLog δ) :
    Prop :=
  ∃ values, matcher.decodeIfMatches log = .ok (some values)

section Arguments

variable {δ ν : Type} [DecidableEq ν]

omit [DecidableEq ν] in
theorem filter_argumentsOf {parameters : List EventParameter} {indexed body : List ν}
    (hindexed : indexed.length = parameters.countP (·.indexed))
    (hbody : body.length = parameters.countP (!·.indexed)) :
    (argumentsOf parameters indexed body).filter (·.1.indexed) =
      (parameters.filter (·.indexed)).zip indexed := by
  induction parameters generalizing indexed body with
  | nil => simp [argumentsOf]
  | cons parameter parameters ih =>
      rw [List.countP_cons] at hindexed hbody
      rw [argumentsOf]
      cases hp : parameter.indexed with
      | true =>
          simp only [hp, if_true, Bool.not_true, Bool.false_eq_true, if_false, Nat.add_zero]
            at hindexed hbody ⊢
          cases indexed with
          | nil => simp at hindexed
          | cons value values => simp [hp, ih (Nat.succ.inj hindexed) hbody]
      | false =>
          simp only [hp, if_true, Bool.not_false, Bool.false_eq_true, if_false, Nat.add_zero]
            at hindexed hbody ⊢
          cases body with
          | nil => simp at hbody
          | cons value values => simp [hp, ih hindexed (Nat.succ.inj hbody)]

theorem matchParameters_iff (expected : List (String × ν)) {parameters : List EventParameter}
    {indexed body : List ν} (hindexed : indexed.length = parameters.countP (·.indexed))
    (hbody : body.length = parameters.countP (!·.indexed)) :
    (∃ values, matchParameters expected parameters indexed body = .ok (some values)) ↔
      ∀ a ∈ argumentsOf parameters indexed body, ∀ value,
        OrdMap.get? a.1.name expected = some value → value = a.2 := by
  induction parameters generalizing indexed body with
  | nil => simp [matchParameters, argumentsOf]
  | cons parameter parameters ih =>
      -- the value of the first parameter, and what is left for the others
      have hcons : ∀ (value : ν) (indexed body : List ν),
          indexed.length = parameters.countP (·.indexed) →
          body.length = parameters.countP (!·.indexed) →
          ((∃ values, (if (OrdMap.get? parameter.name expected).any (· ≠ value) then .ok none
              else (matchParameters expected parameters indexed body).map (·.map (value :: ·))) =
                .ok (some values)) ↔
            ∀ a ∈ (parameter, value) :: argumentsOf parameters indexed body, ∀ value,
              OrdMap.get? a.1.name expected = some value → value = a.2) := by
        intro value indexed body hi hb
        have hrest : (∃ values, (matchParameters expected parameters indexed body).map
            (·.map (value :: ·)) = .ok (some values)) ↔
              ∃ values, matchParameters expected parameters indexed body = .ok (some values) := by
          obtain ⟨result, hresult⟩ := matchParameters_ok expected hi hb
          cases result <;> simp [hresult, Except.map]
        rw [List.forall_mem_cons, ← ih hi hb]
        cases hget : OrdMap.get? parameter.name expected with
        | none => simpa using hrest
        | some w =>
            by_cases hw : w = value
            · simpa [hw] using hrest
            · simp [hw]
      rw [List.countP_cons] at hindexed hbody
      rw [matchParameters, argumentsOf]
      cases hp : parameter.indexed with
      | true =>
          simp only [hp, if_true, Bool.not_true, Bool.false_eq_true, if_false, Nat.add_zero]
            at hindexed hbody ⊢
          cases indexed with
          | nil => simp at hindexed
          | cons value values => exact hcons value values body (Nat.succ.inj hindexed) hbody
      | false =>
          simp only [hp, if_true, Bool.not_false, Bool.false_eq_true, if_false, Nat.add_zero]
            at hindexed hbody ⊢
          cases body with
          | nil => simp at hbody
          | cons value values => exact hcons value indexed values hindexed (Nat.succ.inj hbody)

end Arguments

theorem Event.accepts_iff (event : Event) (expected : List (String × DynSolValue))
    (log : RpcLog LogData) :
    (event.matcher expected).Accepts log ↔ ∃ indexed body,
      event.decodeLog log.data = some (indexed, body) ∧
        ∀ a ∈ argumentsOf (event.parameters.map (·.toEventParameter)) indexed body, ∀ value,
          OrdMap.get? a.1.name expected = some value → value = a.2 := by
  rw [EventMatcher.Accepts, EventMatcher.decodeIfMatches, Event.matcher]
  cases hdecode : event.decodeLog log.data with
  | none => simp [hdecode]
  | some decoded =>
      obtain ⟨indexed, body⟩ := decoded
      obtain ⟨hindexed, hbody⟩ := (event.matcher expected).decoded _ _ _ hdecode
      simpa [hdecode, Event.matcher] using matchParameters_iff expected hindexed hbody

/-! ## A filter on a hashed argument -/

/-- An argument belongs to a parameter. -/
theorem mem_argumentsOf {ν : Type} {parameters : List EventParameter} {indexed body : List ν}
    {a : EventParameter × ν} (h : a ∈ argumentsOf parameters indexed body) : a.1 ∈ parameters := by
  induction parameters generalizing indexed body with
  | nil => simp [argumentsOf] at h
  | cons parameter parameters ih =>
      rw [argumentsOf] at h
      split at h
      · cases h
      · rcases List.mem_cons.1 h with rfl | h
        · exact List.mem_cons_self
        · exact List.mem_cons_of_mem _ (ih h)

/-- The value of an indexed argument whose topic is a hash is its topic. -/
theorem Event.hashed_argument {event : Event} {data : LogData} {indexed body : List DynSolValue}
    (hdecode : event.decodeLog data = some (indexed, body)) {parameter : ResolvedParameter}
    (hmem : parameter ∈ event.parameters)
    (hcount : event.parameters.countP (·.name = parameter.name) ≤ 1)
    (hindexed : parameter.indexed = true) (hhashed : indexedValueIsHashed parameter.solType = true) :
    ∃ topic, event.topic data parameter.name = some topic ∧
      ∀ a, a ∈ argumentsOf (event.parameters.map (·.toEventParameter)) indexed body ∧
        a.1.name = parameter.name ↔ a = (parameter.toEventParameter, .fixedBytes topic 32) := by
  obtain ⟨hlength, hbody⟩ := event.decoded _ _ _ hdecode
  have hzip := event.hashed _ _ _ hdecode
  have hcountP : indexed.length = (event.parameters.filter (·.indexed)).length := by
    rw [hlength, List.countP_eq_length_filter]
  set indexedParameters := event.parameters.filter (·.indexed) with hparams
  have hfilter : (argumentsOf (event.parameters.map (·.toEventParameter)) indexed body).filter
      (·.1.indexed) = (indexedParameters.map (·.toEventParameter)).zip indexed := by
    rw [filter_argumentsOf (by rwa [List.countP_map]) (by rwa [List.countP_map]), List.filter_map]
    rfl
  -- the place of the parameter among the indexed ones, and that it is its only place
  have hmem' : parameter ∈ indexedParameters := List.mem_filter.2 ⟨hmem, hindexed⟩
  obtain ⟨i, hi⟩ := List.mem_iff_getElem?.1 hmem'
  have hplace : ∀ {j : ℕ} {q : ResolvedParameter}, indexedParameters[j]? = some q →
      q.name = parameter.name → j = i := by
    intro j q hj hname
    exact List.eq_index_of_countP_le_one (p := (·.name = parameter.name))
      (((List.filter_sublist).countP_le).trans hcount) hj hi (by simpa using hname) (by simp)
  -- the topic and the value at that place
  obtain ⟨topic, htopic⟩ : ∃ topic, (data.argumentTopics event.anonymous)[i]? = some topic := by
    have hle := hzip.length_eq
    rw [List.length_zip, hcountP] at hle
    have hlt := (List.getElem?_eq_some_iff.1 hi).1
    exact ⟨_, List.getElem?_eq_getElem (by omega)⟩
  have hpair : (indexedParameters.zip (data.argumentTopics event.anonymous))[i]? =
      some (parameter, topic) := List.getElem?_zip_eq_some.2 ⟨hi, htopic⟩
  obtain ⟨value, hvalue⟩ : ∃ value, indexed[i]? = some value := by
    have hlt := (List.getElem?_eq_some_iff.1 hpair).1
    exact ⟨_, List.getElem?_eq_getElem (hzip.length_eq ▸ hlt)⟩
  have hhash : value = .fixedBytes topic 32 := by
    obtain ⟨hp, hpair⟩ := List.getElem?_eq_some_iff.1 hpair
    obtain ⟨hv, hvalue⟩ := List.getElem?_eq_some_iff.1 hvalue
    have h := (List.forall₂_iff_get.1 hzip).2 i hp hv
    simp only [List.get_eq_getElem, hpair, hvalue] at h
    exact h hhashed
  subst hhash
  refine ⟨topic, ?_, fun a => ⟨fun ⟨ha, hname⟩ => ?_, ?_⟩⟩
  · have hfound : ((indexedParameters.zip (data.argumentTopics event.anonymous)).find?
        (·.1.name = parameter.name)).isSome := by
      exact List.find?_isSome.2 ⟨_, List.mem_of_getElem? hpair, by simp⟩
    obtain ⟨⟨q, t⟩, hq⟩ := Option.isSome_iff_exists.1 hfound
    obtain ⟨j, hj⟩ := List.mem_iff_getElem?.1 (List.mem_of_find?_eq_some hq)
    obtain rfl := hplace (List.getElem?_zip_eq_some.1 hj).1 (by simpa using List.find?_some hq)
    rw [Event.topic, ← hparams, hq, Option.map_some]
    rw [hpair] at hj
    cases hj
    rfl
  · obtain ⟨q, hq, hqa⟩ := List.mem_map.1 (mem_argumentsOf ha)
    have hqname : q.name = parameter.name := by
      rw [← hname, ← hqa]
    obtain rfl := List.eq_of_countP_le_one (p := (·.name = parameter.name)) hcount hq hmem
      (by simpa using hqname) (by simp)
    have ha' := List.mem_filter (p := (·.1.indexed)).2 ⟨ha, by rw [← hqa]; exact hindexed⟩
    rw [hfilter] at ha'
    obtain ⟨j, hj⟩ := List.mem_iff_getElem?.1 ha'
    obtain ⟨hj1, hj2⟩ := List.getElem?_zip_eq_some.1 hj
    rw [List.getElem?_map] at hj1
    obtain ⟨r, hr, hra⟩ := Option.map_eq_some_iff.1 hj1
    obtain rfl := hplace hr (by rw [← hname, ← hra])
    obtain rfl : q = r := by simpa [hi] using hr
    rw [hvalue] at hj2
    exact Prod.ext hra.symm (Option.some.inj hj2).symm
  · rintro rfl
    refine ⟨List.mem_of_mem_filter (p := (·.1.indexed)) ?_, rfl⟩
    rw [hfilter]
    refine List.mem_of_getElem? (i := i) (List.getElem?_zip_eq_some.2 ⟨?_, hvalue⟩)
    rw [List.getElem?_map, hi]
    rfl

/-! ## Without one of the filters -/

/-- The names that have a filter are names of the event, each of one parameter. -/
theorem validateFilterNames_ok {parameters : List ResolvedParameter} {names : List String} :
    validateFilterNames parameters names = .ok () ↔ ∀ name ∈ names,
      (name ≠ "" → parameters.countP (·.name = name) ≤ 1) ∧ parameters.any (·.name = name) = true := by
  rw [validateFilterNames, Fallible.forM_ok]
  refine forall₂_congr fun name _ => ?_
  simp only [bind_eq_ok, bailIf_eq_ok]
  simp only [not_and, not_lt, not_not, exists_and_left, exists_const]

section Erasing

variable {abi : Abi DynSolType DynSolValue} {ctx : RuntimeContext} {event : Event}
variable {filters : List (String × Yaml)} {expected : List (String × DynSolValue)}

/-- Each filter gives its value. -/
def FilterValues (abi : Abi DynSolType DynSolValue) (ctx : RuntimeContext) (event : Event) :
    List (String × Yaml) → List (String × DynSolValue) → Prop :=
  List.Forall₂ fun filter e => e.1 = filter.1 ∧
    expectedValue abi ctx event.parameters filter.1 filter.2 = .ok e.2

theorem EventMatcher.ofFilters_ok {matcher : EventMatcher LogData DynSolValue} :
    EventMatcher.ofFilters abi ctx event filters = .ok matcher ↔
      validateFilterNames event.parameters (filters.map Prod.fst) = .ok () ∧
        ∃ expected, FilterValues abi ctx event filters expected ∧ event.matcher expected = matcher := by
  have hstep : ∀ (filter : String × Yaml) (e : String × DynSolValue),
      (do return (filter.1, ← expectedValue abi ctx event.parameters filter.1 filter.2) :
        Except Report (String × DynSolValue)) = .ok e ↔
        e.1 = filter.1 ∧ expectedValue abi ctx event.parameters filter.1 filter.2 = .ok e.2 := by
    intro filter e
    rw [bind_eq_ok]
    constructor
    · rintro ⟨value, hvalue, he⟩
      obtain rfl := Except.ok.inj he
      exact ⟨rfl, hvalue⟩
    · rintro ⟨hname, hvalue⟩
      exact ⟨e.2, hvalue, by rw [← hname]; rfl⟩
  rw [EventMatcher.ofFilters]
  simp only [bind_eq_ok, Fallible.mapM_ok, hstep, FilterValues]
  constructor
  · rintro ⟨⟨⟩, hnames, expected, hvalues, h⟩
    exact ⟨hnames, expected, hvalues, Except.ok.inj h⟩
  · rintro ⟨hnames, expected, hvalues, rfl⟩
    exact ⟨(), hnames, expected, hvalues, rfl⟩

theorem FilterValues.get? (h : FilterValues abi ctx event filters expected) {name : String}
    {expression : Yaml} (hget : OrdMap.get? name filters = some expression) :
    ∃ value, OrdMap.get? name expected = some value ∧
      expectedValue abi ctx event.parameters name expression = .ok value := by
  induction h with
  | nil => cases hget
  | @cons filter e filters expected hfirst _ ih =>
      obtain ⟨hname, hvalue⟩ := hfirst
      rw [OrdMap.get?] at hget
      rw [OrdMap.get?, hname]
      split at hget
      · rename_i heq
        obtain rfl := Option.some.inj hget
        exact ⟨e.2, if_pos heq, by rw [heq]; exact hvalue⟩
      · rename_i hne
        rw [if_neg hne]
        exact ih hget

theorem FilterValues.erase (h : FilterValues abi ctx event filters expected) (name : String) :
    FilterValues abi ctx event (filters.filter (·.1 ≠ name)) (expected.filter (·.1 ≠ name)) := by
  refine List.rel_filter ?_ h
  intro filter e hfilter
  simp [hfilter.1]

/-- A matcher without one of its filters. -/
theorem EventMatcher.ofFilters_erase {matcher : EventMatcher LogData DynSolValue}
    (h : EventMatcher.ofFilters abi ctx event filters = .ok matcher) {name : String}
    {expression : Yaml} (hget : OrdMap.get? name filters = some expression) :
    ∃ expected value, matcher = event.matcher expected ∧ OrdMap.get? name expected = some value ∧
      expectedValue abi ctx event.parameters name expression = .ok value ∧
      EventMatcher.ofFilters abi ctx event (filters.filter (·.1 ≠ name)) =
        .ok (event.matcher (expected.filter (·.1 ≠ name))) := by
  obtain ⟨hnames, expected, hvalues, rfl⟩ := EventMatcher.ofFilters_ok.1 h
  obtain ⟨value, hvalue, hexpected⟩ := hvalues.get? hget
  refine ⟨expected, value, rfl, hvalue, hexpected, EventMatcher.ofFilters_ok.2
    ⟨validateFilterNames_ok.2 fun n hn => ?_, _, hvalues.erase name, rfl⟩⟩
  obtain ⟨filter, hfilter, rfl⟩ := List.mem_map.1 hn
  exact validateFilterNames_ok.1 hnames _ (List.mem_map_of_mem (List.mem_of_mem_filter hfilter))

end Erasing

/-! ## Filters by hash -/

/-- A filter on a hashed argument that is given the value accepts of the logs that the other filters
    accept those whose topic is the hash of the in-place encoding of the value. -/
def FiltersByHash (abi : Abi DynSolType DynSolValue) (v : DynSolValue) : Prop :=
  ∀ (ctx : RuntimeContext) (event : Event) (filters : List (String × Yaml))
    (matcher : EventMatcher LogData DynSolValue) (parameter : ResolvedParameter) (expression : Yaml)
    (runtime : RuntimeValue),
    EventMatcher.ofFilters abi ctx event filters = .ok matcher →
    parameter ∈ event.parameters → parameter.name ≠ "" → parameter.indexed = true →
    indexedValueIsHashed parameter.solType = true →
    OrdMap.get? parameter.name filters = some expression →
    evalExpression abi ctx expression = .ok runtime → (∀ hash, runtime ≠ .bytes32 hash) →
    abi.coerceDynSol runtime parameter.solType = .ok v →
    ∃ rest, EventMatcher.ofFilters abi ctx event (filters.filter (·.1 ≠ parameter.name)) = .ok rest ∧
      ∀ log, matcher.Accepts log ↔
        rest.Accepts log ∧ event.topic log.data parameter.name = some (abi.keccak256 v.inPlace)

theorem expectedValue_of_hashed {abi : Abi DynSolType DynSolValue} {ctx : RuntimeContext}
    {parameters : List ResolvedParameter} {parameter : ResolvedParameter} {expression : Yaml}
    {runtime : RuntimeValue} {v value : DynSolValue} (hmem : parameter ∈ parameters)
    (hcount : parameters.countP (·.name = parameter.name) ≤ 1) (hindexed : parameter.indexed = true)
    (hhashed : indexedValueIsHashed parameter.solType = true)
    (heval : evalExpression abi ctx expression = .ok runtime)
    (hruntime : ∀ hash, runtime ≠ .bytes32 hash)
    (hcoerce : abi.coerceDynSol runtime parameter.solType = .ok v)
    (hvalue : expectedValue abi ctx parameters parameter.name expression = .ok value) :
    value = .fixedBytes (abi.keccak256 (indexedValuePreimage v)) 32 := by
  have hfind : parameters.find? (·.name = parameter.name) = some parameter := by
    obtain ⟨q, hq⟩ := Option.isSome_iff_exists.1 (List.find?_isSome
      (p := (·.name = parameter.name)).2 ⟨parameter, hmem, by simp⟩)
    have hname := List.find?_some hq
    rw [hq, List.eq_of_countP_le_one hcount (List.mem_of_find?_eq_some hq) hmem hname (by simp)]
  rw [expectedValue, hfind] at hvalue
  dsimp only at hvalue
  rw [filterValue, if_pos ⟨hindexed, hhashed⟩, heval] at hvalue
  -- every other value than a hash is coerced
  have hcoerced : (do
      let value ← wrapErr (abi.coerceDynSol runtime parameter.solType)
        s!"failed to resolve event filter '{parameter.name}'"
      return .fixedBytes (abi.keccak256 (indexedValuePreimage value)) 32) =
        (.ok value : Except Report DynSolValue) := by
    cases runtime with
    | bytes32 hash => exact absurd rfl (hruntime hash)
    | _ => exact hvalue
  rw [hcoerce] at hcoerced
  exact (Except.ok.inj hcoerced).symm

end TxGen
