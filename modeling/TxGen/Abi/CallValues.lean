import TxGen.Abi.Generators

set_option autoImplicit false

/-! # Values of call arguments

An argument is read at the type of its parameter. At each level it is first taken for a generator
expression, and for a literal only if it is none. -/

namespace TxGen

/-- A parameter of a function; a tuple has components. -/
inductive Param
  | mk (name ty : String) (components : List Param)

namespace Param

def name : Param → String
  | .mk name _ _ => name

def ty : Param → String
  | .mk _ ty _ => ty

def components : Param → List Param
  | .mk _ _ components => components

end Param

/-- A function of an ABI. -/
structure AbiFunction where
  name : String
  signature : String
  selector : List UInt8
  inputs : List Param

/-- What the ABI crates read and write. -/
structure AbiCrate where
  /-- `DynSolType::parse` -/
  parseType : String → Except Report DynSolType
  displayType : DynSolType → String
  parseAddress : String → Except Report Address
  parseBytes : String → Except Report (List UInt8)
  /-- `from_value::<U256>` -/
  readU256 : Yaml → Except Report Word
  /-- `from_value::<I256>` -/
  readI256 : Yaml → Except Report Word
  abiEncodeParams : List DynSolValue → List UInt8

/-! ## Literals -/

def readString (value : Yaml) : Except Report String :=
  match value.untagRef with
  | .string s => .ok s
  | _ => bail "invalid type: expected a string"

def readBool (value : Yaml) : Except Report Bool :=
  match value.untagRef with
  | .bool b => .ok b
  | _ => bail "invalid type: expected a boolean"

def readSequence (value : Yaml) (message : String) : Except Report (List Yaml) :=
  match value.untagRef with
  | .sequence values => .ok values
  | _ => bail message

/-- The number of bits of a signed number, with its sign. -/
def signedBits (value : Word) : ℕ :=
  match value.toInt with
  | .ofNat 0 => 0
  | .ofNat n => n.size + 1
  | .negSucc n => n.size + 1

/-- Bytes at the high end of a word. -/
def highBytes (bytes : List UInt8) : Word :=
  BitVec.ofNat 256 (bytes.foldl (fun n b => 256 * n + b.toNat) 0 * 256 ^ (32 - bytes.length))

namespace AbiCrate

variable {ρ : Type} (abi : AbiCrate) (resolver : Resolver ρ)

/-- The literal of a type that is not made of others. -/
def readElementary (value : Yaml) (ty : DynSolType) : Except Report DynSolValue :=
  match ty with
  | .address => do return .address (← abi.parseAddress (← readString value))
  | .bool => do return .bool (← readBool value)
  | .string => do return .string (← readString value)
  | .bytes => do return .bytes (← abi.parseBytes (← readString value))
  | .uint bits => do
    let val ← wrapErr (abi.readU256 value) s!"invalid {abi.displayType ty} literal"
    bailIf (bits < val.toNat.size) s!"{val.toNat} is out of range for {abi.displayType ty}"
    return .uint val bits
  | .int bits => do
    let val ← wrapErr (abi.readI256 value) s!"invalid {abi.displayType ty} literal"
    bailIf (bits < signedBits val) s!"{val.toInt} is out of range for {abi.displayType ty}"
    return .int val bits
  | .fixedBytes size => do
    let bytes ← abi.parseBytes (← readString value)
    bailIf (bytes.length ≠ size) s!"{abi.displayType ty} expects {size} bytes, got {bytes.length}"
    return .fixedBytes (highBytes bytes) size
  | _ => bail s!"unsupported Solidity type: {abi.displayType ty}"

/-- The value of the generator `random`. -/
def randomValue (ty : DynSolType) : Draw ρ DynSolValue :=
  match ty with
  | .address => do return .address (← resolver.randomAddress)
  | .uint bits => do return .uint ((← resolver.randomWord) >>> (256 - bits)) bits
  | _ => liftM (m := Except Report) (bail s!"generator not supported for type: {abi.displayType ty}")

/-! ## Conversion by type -/

/-- The values of a list, with the sizes that the recursion goes by. -/
def sizeOfPairs : List (Yaml × DynSolType) → ℕ
  | [] => 0
  | (value, _) :: pairs => value.size + sizeOfPairs pairs

theorem sizeOfPairs_map (values : List Yaml) (ty : DynSolType) :
    sizeOfPairs (values.map (·, ty)) = Yaml.sizeList values := by
  induction values with
  | nil => rfl
  | cons value values ih => simp [sizeOfPairs, Yaml.sizeList, ih]

theorem sizeOfPairs_zip (values : List Yaml) (types : List DynSolType) :
    sizeOfPairs (values.zip types) ≤ Yaml.sizeList values := by
  induction values generalizing types with
  | nil => simp [sizeOfPairs]
  | cons value values ih =>
      cases types with
      | nil => simp [sizeOfPairs]
      | cons ty types =>
          have := ih types
          simp only [List.zip_cons_cons, sizeOfPairs, Yaml.sizeList]
          omega

theorem sizeList_of_readSequence {value : Yaml} {message : String} {values : List Yaml}
    (h : readSequence value message = .ok values) : Yaml.sizeList values < value.size := by
  have huntag : value.untagRef = .sequence values := by
    unfold readSequence at h
    split at h
    · next hvalue => rw [hvalue, Except.ok.inj h]
    · cases h
  have := Yaml.size_untagRef value
  rw [huntag, Yaml.size] at this
  omega

mutual

def yamlToDynValue (value : Yaml) (ty : DynSolType) : Draw ρ DynSolValue :=
  match h : parseGenerator value with
  | some .random => abi.randomValue resolver ty
  | some _ => fun r =>
    -- `resolve_generator_to_sol`
    match hresolve : resolver.resolveYaml value r with
    | .error e => .error e
    | .ok (value', r) =>
      have : value'.size < value.size := Resolver.size_of_resolveYaml h hresolve
      yamlToDynValue value' ty r
  | none =>
    match ty with
    | .array inner =>
      match hvalues : readSequence value s!"{abi.displayType ty} must be a list" with
      | .error e => liftM (m := Except Report) (.error e)
      | .ok values => do
        have : sizeOfPairs (values.map (·, inner)) < value.size := by
          rw [sizeOfPairs_map]
          exact sizeList_of_readSequence hvalues
        return .array (← yamlToDynValues (values.map (·, inner)))
    | .fixedArray inner size =>
      match hvalues : readSequence value s!"{abi.displayType ty} must be a list" with
      | .error e => liftM (m := Except Report) (.error e)
      | .ok values => do
        have : sizeOfPairs (values.map (·, inner)) < value.size := by
          rw [sizeOfPairs_map]
          exact sizeList_of_readSequence hvalues
        let values ← yamlToDynValues (values.map (·, inner))
        bailIf (values.length ≠ size)
          s!"{abi.displayType ty} expects {size} values, got {values.length}"
        return .fixedArray values
    | .tuple types =>
      match hvalues : readSequence value s!"{abi.displayType ty} must be a list" with
      | .error e => liftM (m := Except Report) (.error e)
      | .ok values => do
        bailIf (values.length ≠ types.length)
          s!"{abi.displayType ty} expects {types.length} values, got {values.length}"
        have : sizeOfPairs (values.zip types) < value.size :=
          Nat.lt_of_le_of_lt (sizeOfPairs_zip values types) (sizeList_of_readSequence hvalues)
        return .tuple (← yamlToDynValues (values.zip types))
    | _ => liftM (abi.readElementary value ty)
termination_by 2 * value.size

/-- Each value at its type, in order. -/
def yamlToDynValues : List (Yaml × DynSolType) → Draw ρ (List DynSolValue)
  | [] => pure []
  | (value, ty) :: pairs => do
    have : 0 < value.size := value.size_pos
    let first ← yamlToDynValue value ty
    return first :: (← yamlToDynValues pairs)
termination_by pairs => 2 * sizeOfPairs pairs + 1
decreasing_by all_goals simp only [sizeOfPairs]; omega

end

section

variable {abi resolver} {value : Yaml}

theorem yamlToDynValue_random (h : parseGenerator value = some .random) (ty : DynSolType) :
    yamlToDynValue abi resolver value ty = abi.randomValue resolver ty := by
  rw [yamlToDynValue.eq_def]
  split <;> simp_all

/-- A generator is resolved first. -/
theorem yamlToDynValue_generator {generator : Generator} (h : parseGenerator value = some generator)
    (hrandom : generator ≠ .random) (ty : DynSolType) : yamlToDynValue abi resolver value ty =
      resolver.resolveYaml value >>= fun value => yamlToDynValue abi resolver value ty := by
  rw [yamlToDynValue.eq_def]
  split
  · simp_all
  · funext r
    show _ = (resolver.resolveYaml value r >>= fun result =>
      yamlToDynValue abi resolver result.1 ty result.2)
    split <;>
      next hresolve =>
        conv_rhs => rw [hresolve]
        rfl
  · simp_all

/-- What is not a generator is a literal. -/
theorem yamlToDynValue_literal (h : parseGenerator value = none) (ty : DynSolType) :
    yamlToDynValue abi resolver value ty =
      match ty with
      | .array inner => do
        let values ← liftM (readSequence value s!"{abi.displayType ty} must be a list")
        return .array (← yamlToDynValues abi resolver (values.map (·, inner)))
      | .fixedArray inner size => do
        let values ← liftM (readSequence value s!"{abi.displayType ty} must be a list")
        let values ← yamlToDynValues abi resolver (values.map (·, inner))
        bailIf (values.length ≠ size)
          s!"{abi.displayType ty} expects {size} values, got {values.length}"
        return .fixedArray values
      | .tuple types => do
        let values ← liftM (readSequence value s!"{abi.displayType ty} must be a list")
        bailIf (values.length ≠ types.length)
          s!"{abi.displayType ty} expects {types.length} values, got {values.length}"
        return .tuple (← yamlToDynValues abi resolver (values.zip types))
      | _ => liftM (abi.readElementary value ty) := by
  rw [yamlToDynValue.eq_def]
  split
  · simp_all
  · simp_all
  · split
    iterate 3
      · split <;>
          next hvalues =>
            conv_rhs => rw [hvalues]
            rfl
    · rfl

end

/-! ## Conversion by parameter -/

/-- `yaml_to_sol_value` -/
def yamlToSolValue (value : Yaml) (solType : String) : Draw ρ DynSolValue := do
  let ty ← liftM ((abi.parseType solType).mapError fun e =>
    e.map fun cause => s!"unsupported Solidity type {solType}: {cause}")
  yamlToDynValue abi resolver value ty

/-- A tuple, with what reads its components by position and by name. -/
def tupleValue (components : List Param) (byPosition : List Yaml → Draw ρ (List DynSolValue))
    (byName : List (Yaml × Yaml) → Draw ρ (List DynSolValue)) (value : Yaml) : Draw ρ DynSolValue :=
  match value.untagRef with
  | .sequence values => do
    bailIf (values.length ≠ components.length)
      s!"tuple expects {components.length} values, got {values.length}"
    return .tuple (← byPosition values)
  | .mapping entries => do
    bailIf (entries.length ≠ components.length)
      s!"tuple expects {components.length} fields, got {entries.length}"
    return .tuple (← byName entries)
  | _ => liftM (m := Except Report) (bail "tuple must be a list or mapping")

/-- The length in `tuple[length]`, which may be empty. -/
def tupleLength (ty : String) : Option String :=
  match ty.toList with
  | 't' :: 'u' :: 'p' :: 'l' :: 'e' :: '[' :: rest =>
    if rest.getLast? = some ']' then some (String.ofList rest.dropLast) else none
  | _ => none

mutual

def yamlToParamValue : Param → Yaml → Draw ρ DynSolValue
  | .mk _ ty components, value =>
    if components.isEmpty then abi.yamlToSolValue resolver value ty
    else if ty = "tuple" then
      tupleValue components (componentValues components) (fieldValues components) value
    else
      match tupleLength ty with
      | none => liftM (m := Except Report) (bail s!"unsupported compound Solidity type: {ty}")
      | some length => do
        let values ← liftM (readSequence value s!"{ty} must be a list")
        let values ← values.mapM
          (tupleValue components (componentValues components) (fieldValues components))
        if length = "" then return .array values
        else
          let expected ← liftM (okOr (parseUsize length) "invalid digit found in string")
          bailIf (values.length ≠ expected) s!"{ty} expects {expected} values, got {values.length}"
          return .fixedArray values

/-- The components by position. -/
def componentValues : List Param → List Yaml → Draw ρ (List DynSolValue)
  | component :: components, value :: values => do
    let first ← yamlToParamValue component value
    return first :: (← componentValues components values)
  | _, _ => pure []

/-- The components by name. -/
def fieldValues : List Param → List (Yaml × Yaml) → Draw ρ (List DynSolValue)
  | [], _ => pure []
  | component :: components, entries => do
    bailIf (component.name = "") "unnamed tuple components must be supplied as a list"
    let value ← liftM (okOr (Yaml.get entries component.name)
      s!"tuple is missing field '{component.name}'")
    let first ← yamlToParamValue component value
    return first :: (← fieldValues components entries)

end

def yamlToTupleValue (value : Yaml) (components : List Param) : Draw ρ DynSolValue :=
  tupleValue components (abi.componentValues resolver components)
    (abi.fieldValues resolver components) value

/-! ## Calls -/

/-- The function of a signature, or the first one of a name. -/
def findFunction (functions : List AbiFunction) (function : String) : Option AbiFunction :=
  if '(' ∈ function.toList then functions.find? (·.signature = function)
  else functions.find? (·.name = function)

def encodeFunctionCall (functions : List AbiFunction) (function : String) (args : List Yaml) :
    Draw ρ (List UInt8) := do
  let func ← liftM (okOr (findFunction functions function) s!"function '{function}' not found in ABI")
  bailIf (func.inputs.length ≠ args.length)
    s!"function '{function}' expects {func.inputs.length} arguments, got {args.length}"
  let encodedArgs ← abi.componentValues resolver func.inputs args
  return func.selector ++ abi.abiEncodeParams encodedArgs

end AbiCrate

end TxGen
