import TxGen.Core.Merge
import TxGen.Scenario.Value

set_option autoImplicit false

/-! # Replacing references in templates

`{ var: path }` in a template is replaced by the value of a binding. The name of a binding may have dots
in it; a path is split at the longest prefix that is bound. -/

namespace TxGen

structure EmittedTxInfo where
  sender : Address
  nonce : ℕ
  txHash : BitVec 256
  createdAddress : Option Address := none

inductive ResolvedBinding
  | account (pool : String) (index : ℕ) (address : Address)
  | address (value : Address)
  | bytes32 (value : BitVec 256)
  | bytes (value : List UInt8)
  | u256 (value : BitVec 256)
  | u64 (value : ℕ)
  | string (value : String)
  | setupTx (info : EmittedTxInfo)

/-- The bindings of a template by name. -/
abbrev Bindings := String → Option ResolvedBinding

/-! ## Paths -/

/-- The path of a `{ var: <path> }` reference. -/
def varPath : List (Yaml × Yaml) → Option String
  | [(.string "var", .string path)] => some path
  | _ => none

/-- What is before and after each dot, from the first dot on. -/
def dotSplits : List Char → List (List Char × List Char)
  | [] => []
  | c :: cs =>
    let rest := (dotSplits cs).map fun (name, field) => (c :: name, field)
    if c = '.' then ([], cs) :: rest else rest

/-- The longest prefix of a path that is the name of a binding, and the field after it. -/
def splitBindingPath (path : String) (bindings : Bindings) : Option (String × Option String) :=
  if (bindings path).isSome then some (path, none)
  else (dotSplits path.toList).reverse.findSome? fun (name, field) =>
    if (bindings (String.ofList name)).isSome then
      some (String.ofList name, some (String.ofList field))
    else none

/-! ## Values -/

/-- A reference to an account of a pool. -/
def accountRefValue (pool : String) (index : ℕ) : Yaml :=
  .mapping [(.string "pool", .string pool),
    (.string "select", .mapping [(.string "index", .number (.int index))])]

section Substitution

variable (displayAddress : Address → String)

def bindingToValue (name : String) : ResolvedBinding → Option String → Except Report Yaml
  | .account pool index _, some "ref" => .ok (accountRefValue pool index)
  | .account _ _ address, some "address" => .ok (.string (displayAddress address))
  | .account .., none => bail s!"account binding '{name}' requires `.ref` or `.address`"
  | .address value, none => .ok (.string (displayAddress value))
  | .bytes32 value, none => .ok (.string (hexString (toBeBytes 32 value.toNat)))
  | .bytes value, none => .ok (.string (hexString value))
  | .u256 value, none => .ok (.string (toString value.toNat))
  | .u64 value, none => .ok (.number (.int value))
  | .string value, none => .ok (.string value)
  | .setupTx info, some "address" =>
    match info.createdAddress with
    | some address => .ok (.string (displayAddress address))
    | none => bail s!"setup transaction binding '{name}' has no deployed address"
  | .setupTx info, some "tx_hash" => .ok (.string (hexString (toBeBytes 32 info.txHash.toNat)))
  | .setupTx info, some "sender" => .ok (.string (displayAddress info.sender))
  | .setupTx info, some "nonce" => .ok (.number (.int info.nonce))
  | .setupTx _, none => bail s!"setup transaction binding '{name}' requires a field"
  | _, some field => bail s!"binding '{name}' has no field '{field}'"

/-- The value of a path, if a prefix of it is bound. -/
def pathValue (bindings : Bindings) (path : String) : Option (Except Report Yaml) := do
  let (name, field) ← splitBindingPath path bindings
  let binding ← bindings name
  return bindingToValue displayAddress name binding field

mutual

/-- References without a binding stay for later parsing. -/
def substituteVars (bindings : Bindings) : Yaml → Except Report Yaml
  | .mapping entries =>
    match varPath entries with
    | some path => (pathValue displayAddress bindings path).getD (.ok (.mapping entries))
    | none => do return .mapping (← substituteEntries bindings entries)
  | .sequence values => do return .sequence (← substituteList bindings values)
  | value => .ok value

def substituteEntries (bindings : Bindings) : List (Yaml × Yaml) → Except Report (List (Yaml × Yaml))
  | [] => .ok []
  | (key, value) :: entries => do
    return (key, ← substituteVars bindings value) :: (← substituteEntries bindings entries)

def substituteList (bindings : Bindings) : List Yaml → Except Report (List Yaml)
  | [] => .ok []
  | value :: values => do
    return (← substituteVars bindings value) :: (← substituteList bindings values)

end

/-- The value of a binding is a string, a number or a reference to an account. -/
theorem bindingToValue_shape {name : String} {binding : ResolvedBinding} {field : Option String}
    {value : Yaml} (h : bindingToValue displayAddress name binding field = .ok value) :
    (∃ s, value = .string s) ∨ (∃ n, value = .number n) ∨
      ∃ pool index, value = accountRefValue pool index := by
  unfold bindingToValue at h
  repeat' split at h
  all_goals first
    | exact absurd h bail_ne_ok
    | exact .inl ⟨_, (Except.ok.inj h).symm⟩
    | exact .inr (.inl ⟨_, (Except.ok.inj h).symm⟩)
    | exact .inr (.inr ⟨_, _, (Except.ok.inj h).symm⟩)

/-- A reference has the value of a binding, or stays. -/
theorem substituteVars_reference {bindings : Bindings} {entries : List (Yaml × Yaml)} {path : String}
    {value : Yaml} (hpath : varPath entries = some path)
    (h : substituteVars displayAddress bindings (.mapping entries) = .ok value) :
    (pathValue displayAddress bindings path = none ∧ value = .mapping entries) ∨
      ∃ name binding field, pathValue displayAddress bindings path = some (.ok value) ∧
        bindingToValue displayAddress name binding field = .ok value := by
  rw [substituteVars, hpath] at h
  dsimp only at h
  cases hvalue : pathValue displayAddress bindings path with
  | none =>
      rw [hvalue] at h
      exact .inl ⟨rfl, (Except.ok.inj h).symm⟩
  | some result =>
      rw [hvalue, Option.getD_some] at h
      obtain ⟨⟨name, field⟩, -, hbind⟩ := Option.bind_eq_some_iff.1 hvalue
      obtain ⟨binding, -, hresult⟩ := Option.bind_eq_some_iff.1 hbind
      exact .inr ⟨name, binding, field, by rw [h], (Option.some.inj hresult).trans h⟩

theorem substituteEntries_ok {bindings : Bindings} {entries entries' : List (Yaml × Yaml)} :
    substituteEntries displayAddress bindings entries = .ok entries' ↔
      Yaml.EntriesRel (fun value value' => substituteVars displayAddress bindings value = .ok value')
        entries entries' := by
  induction entries generalizing entries' with
  | nil => simp [substituteEntries, Yaml.EntriesRel, eq_comm]
  | cons e entries ih =>
      obtain ⟨key, value⟩ := e
      rw [substituteEntries, Yaml.EntriesRel, List.forall₂_cons_left_iff]
      simp only [bind_eq_ok, ih]
      constructor
      · rintro ⟨value', hvalue, rest, hrest, heq⟩
        obtain rfl := Except.ok.inj heq
        exact ⟨_, _, ⟨rfl, hvalue⟩, hrest, rfl⟩
      · rintro ⟨⟨key', value'⟩, rest, ⟨hkey, hvalue⟩, hrest, rfl⟩
        exact ⟨value', hvalue, rest, hrest, by rw [← hkey]; rfl⟩

end Substitution

end TxGen
