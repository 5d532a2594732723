import TxGen.Core.Bytes
import TxGen.Core.GeneratedTx
import TxGen.Lib.Namespaces
import TxGen.Scenario.Name
import TxGen.Scenario.Yaml

set_option autoImplicit false

/-! # Runtime values and expressions

The values of one scenario instance, the context that steps save them in, and the expressions that read
them. Solidity types and their encoding, hashing and the text of an address are given (`Abi`). -/

namespace TxGen

inductive RuntimeValue
  | null
  | bool (value : Bool)
  | int (value : ℤ)
  | uint (value : ℕ)
  | address (value : Address)
  | bytes (value : List UInt8)
  | bytes32 (value : BitVec 256)
  | string (value : String)
  | array (values : List RuntimeValue)
  | object (values : List (String × RuntimeValue))

namespace RuntimeValue

/-- The object with the given entries. -/
def objectOf (entries : List (String × RuntimeValue)) : RuntimeValue :=
  .object (entries.foldl (fun m e => OrdMap.set e.1 e.2 m) [])

def nested : Nested String RuntimeValue where
  fields
    | .object values => some values
    | _ => none
  object := .object
  fields_object _ := rfl

/-- `null` stands for an optional field that is absent. -/
def orNull {α : Type} (value : Option α) (f : α → RuntimeValue) : RuntimeValue :=
  (value.map f).getD .null

mutual

/-- Convert a plain YAML value. Strings remain strings. -/
def ofYaml : Yaml → Except Report RuntimeValue
  | .null => .ok .null
  | .bool value => .ok (.bool value)
  | .number (.int value) =>
    if -2 ^ 63 ≤ value ∧ value < 0 then .ok (.int value)
    else if 0 ≤ value ∧ value < 2 ^ 64 then .ok (.uint value.toNat)
    else bail "runtime numeric literals must be integers"
  | .number (.float _) => bail "runtime numeric literals must be integers"
  | .string value => .ok (.string value)
  | .sequence values => do return .array (← ofYamlList values)
  | .mapping entries => do return .objectOf (← ofYamlEntries entries)
  | .tagged _ value => ofYaml value

def ofYamlList : List Yaml → Except Report (List RuntimeValue)
  | [] => .ok []
  | value :: values => do return (← ofYaml value) :: (← ofYamlList values)

def ofYamlEntries : List (Yaml × Yaml) → Except Report (List (String × RuntimeValue))
  | [] => .ok []
  | (.string key, value) :: entries => do return (key, ← ofYaml value) :: (← ofYamlEntries entries)
  | _ :: _ => bail "runtime object keys must be strings"

end

end RuntimeValue

/-! ## Contexts -/

def validateVariablePath (path : String) : Except Report Unit := validatePath path "runtime variable"

/-- The digits of a `usize`, after an optional plus sign. -/
def parseUsize (part : String) : Option ℕ :=
  let digits := match part.toList with
    | '+' :: digits => digits
    | digits => digits
  if digits ≠ [] ∧ digits.all Char.isDigit then
    let value := digits.foldl (fun n c => 10 * n + (c.toNat - '0'.toNat)) 0
    if value < 2 ^ 64 then some value else none
  else none

/-- Go on from a value; decimal components index arrays. -/
def RuntimeValue.walk (path : String) : List String → RuntimeValue → Except Report RuntimeValue
  | [], value => .ok value
  | part :: parts, .object values =>
    match OrdMap.get? part values with
    | some value => walk path parts value
    | none => bail s!"runtime variable '{path}' has no field '{part}'"
  | part :: parts, .array values =>
    match parseUsize part with
    | none => bail s!"runtime variable '{path}' uses non-numeric array index '{part}'"
    | some index =>
      match values[index]? with
      | some value => walk path parts value
      | none => bail s!"runtime variable '{path}' array index {index} is out of range"
  | part :: _, _ => bail s!"runtime variable '{path}' traverses through scalar field '{part}'"

/-- `depth` is how many components of the path lead to `values`. -/
def insertRuntimePath (fullPath : String) (value : RuntimeValue) :
    List String → ℕ → List (String × RuntimeValue) → Except Report (List (String × RuntimeValue))
  | [], _, values => .ok values
  | [name], _, values =>
    if (OrdMap.get? name values).isSome then bail s!"runtime save path '{fullPath}' already exists"
    else .ok (OrdMap.set name value values)
  | name :: next :: parts, depth, values =>
    match (OrdMap.get? name values).getD (.object []) with
    | .object children => do
      let children ← insertRuntimePath fullPath value (next :: parts) (depth + 1) children
      return OrdMap.set name (.object children) values
    | _ =>
      let taken := ".".intercalate ((components fullPath).take (depth + 1))
      bail s!"runtime save path '{fullPath}' conflicts with existing value '{taken}'"

structure RuntimeContext where
  roots : List (String × RuntimeValue) := []

namespace RuntimeContext

/-- A context with a complete set of roots. -/
def new (roots : List (String × RuntimeValue)) : Except Report RuntimeContext := do
  roots.forM fun (name, _) => validateComponent name "runtime root"
  return ⟨roots⟩

/-- A context with one more value at a dotted save path. -/
def withPath (ctx : RuntimeContext) (path : String) (value : RuntimeValue) :
    Except Report RuntimeContext := do
  validateVariablePath path
  let roots ← insertRuntimePath path value (components path) 0 ctx.roots
  return ⟨roots⟩

/-- Resolve a dotted path. -/
def get (ctx : RuntimeContext) (path : String) : Except Report RuntimeValue := do
  validateVariablePath path
  match components path with
  | [] => bail s!"unknown runtime root '' in variable '{path}'"
  | root :: parts =>
    match OrdMap.get? root ctx.roots with
    | none => bail s!"unknown runtime root '{root}' in variable '{path}'"
    | some value => value.walk path parts

end RuntimeContext

/-! ## Expressions -/

/-- What the expressions call: `parse_abi_type`, `coerce_dyn_sol`, `infer_dyn_sol`, the encoding of a
    tuple (packed or not), `keccak256` and the text of an address. -/
structure Abi (τ ν : Type) where
  parseAbiType : String → Except Report τ
  coerceDynSol : RuntimeValue → τ → Except Report ν
  inferDynSol : RuntimeValue → Except Report ν
  encode : Bool → List ν → List UInt8
  keccak256 : List UInt8 → BitVec 256
  displayAddress : Address → String

inductive Operator
  | var
  | keccak256
  | keccak256Packed
  | abiEncode
  | abiEncodePacked
deriving DecidableEq

def Operator.name : Operator → String
  | .var => "var"
  | .keccak256 => "keccak256"
  | .keccak256Packed => "keccak256_packed"
  | .abiEncode => "abi_encode"
  | .abiEncodePacked => "abi_encode_packed"

def recognizedOperator (key : Yaml) : Option Operator :=
  match key.asStr with
  | some "var" => some .var
  | some "keccak256" => some .keccak256
  | some "keccak256_packed" => some .keccak256Packed
  | some "abi_encode" => some .abiEncode
  | some "abi_encode_packed" => some .abiEncodePacked
  | _ => none

/-- `expression_entry`, for a mapping that is not a single entry: it must have no operator. -/
def noOperator (entries : List (Yaml × Yaml)) : Except Report Unit :=
  match entries.findSome? fun e => recognizedOperator e.1 with
  | some operator => bail s!"runtime expression '{operator.name}' cannot be combined with other keys"
  | none => .ok ()

mutual

/-- The paths of the references within a value, in the order of the document. -/
def variablePaths : Yaml → Except Report (List String)
  | .mapping [(key, operand)] =>
    match recognizedOperator key with
    | some .var =>
      match operand with
      | .string path => do
        validateVariablePath path
        return [path]
      | _ => bail "`var` expression path must be a string"
    | _ => variablePaths operand
  | .mapping entries => do
    noOperator entries
    variablePathsEntries entries
  | .sequence values => variablePathsList values
  | .tagged _ value => variablePaths value
  | _ => .ok []

def variablePathsList : List Yaml → Except Report (List String)
  | [] => .ok []
  | value :: values => do return (← variablePaths value) ++ (← variablePathsList values)

def variablePathsEntries : List (Yaml × Yaml) → Except Report (List String)
  | [] => .ok []
  | (_, value) :: entries => do return (← variablePaths value) ++ (← variablePathsEntries entries)

end

/-- The elements, in order and once each. -/
def sortedSet (xs : List String) : List String :=
  (xs.foldl (fun m x => OrdMap.set x () m) []).map Prod.fst

/-- Collect all references nested within a value. -/
def collectVariablePaths (value : Yaml) : Except Report (List String) := do
  return sortedSet (← variablePaths value)

def RuntimeValue.rawHashBytes : RuntimeValue → Except Report (List UInt8)
  | .string value => .ok value.toUTF8.data.toList
  | .bytes value => .ok value
  | .bytes32 value => .ok (toBeBytes 32 value.toNat)
  | .address value => .ok (toBeBytes 20 value.toNat)
  | .array values => values.mapM fun
    | .uint value =>
      if value ≤ 255 then .ok (UInt8.ofNat value)
      else bail "keccak256 byte arrays must contain uint8 values"
    | _ => bail "keccak256 byte arrays must contain uint8 values"
  | _ =>
    bail "keccak256 requires bytes, bytes32, address, string, or a uint8 array; use ABI encoding for typed values"

/-- The fields of `{ types: [...], values: [...] }`. -/
def typedAbiTypes (operand : List (Yaml × Yaml)) : Option (List String) :=
  if operand.length = 2 then
    match Yaml.get operand "types", Yaml.get operand "values" with
    | some (.sequence types), some (.sequence _) => types.mapM Yaml.asStr
    | _, _ => none
  else none

section Evaluation

variable {τ ν : Type} (abi : Abi τ ν)

/-- The values of a typed ABI expression, with their types, one after the other. -/
def coerceTyped : ℕ → List (String × Except Report RuntimeValue) → Except Report (List ν)
  | _, [] => .ok []
  | index, (typeName, value) :: rest => do
    let solType ← wrapErr (abi.parseAbiType typeName)
      s!"invalid Solidity type {index} ('{typeName}')"
    let value ← wrapErr value s!"failed to evaluate ABI value {index}"
    let value ← (abi.coerceDynSol value solType).mapError fun _ =>
      [s!"failed to coerce ABI value {index} as '{typeName}'"]
    return value :: (← coerceTyped (index + 1) rest)

/-- `values` are the results of evaluating the values. -/
def encodeTypedAbi (operand : List (Yaml × Yaml)) (values : List (Except Report RuntimeValue))
    (packed : Bool) : Except Report (List UInt8) :=
  match typedAbiTypes operand with
  | none => bail "ABI expression must be `\x7b types: [...], values: [...] \x7d`"
  | some types => do
    bailIf (types.length ≠ values.length)
      s!"ABI expression has {types.length} types but {values.length} values"
    return abi.encode packed (← coerceTyped abi 0 (types.zip values))

def inferPacked : ℕ → List (Except Report RuntimeValue) → Except Report (List ν)
  | _, [] => .ok []
  | index, value :: rest => do
    let value ← wrapErr value s!"failed to evaluate packed value {index}"
    let value ← wrapErr (abi.inferDynSol value) s!"failed to infer packed value {index}"
    return value :: (← inferPacked (index + 1) rest)

/-- `values` are the results of evaluating the elements, or the values of a typed expression. -/
def encodePacked (operand : Yaml) (values : List (Except Report RuntimeValue)) :
    Except Report (List UInt8) :=
  match operand with
  | .mapping entries => encodeTypedAbi abi entries values true
  | .sequence _ => do return abi.encode true (← inferPacked abi 0 values)
  | _ =>
    bail "packed ABI expression must be `\x7b types: [...], values: [...] \x7d` or an inferred value list"

def encodeAbi (operand : Yaml) (values : List (Except Report RuntimeValue)) :
    Except Report (List UInt8) :=
  match operand with
  | .mapping entries => encodeTypedAbi abi entries values false
  | _ => bail "ABI expression must be `\x7b types: [...], values: [...] \x7d`"

/-- Apply an operator to its operand: to its value, or to the values within it. -/
def applyOperator (ctx : RuntimeContext) (operator : Operator) (operand : Yaml)
    (value : Except Report RuntimeValue) (values : List (Except Report RuntimeValue)) :
    Except Report RuntimeValue :=
  match operator with
  | .var =>
    match operand with
    | .string path => ctx.get path
    | _ => bail "`var` expression path must be a string"
  | .keccak256 => do
    let value ← value
    return .bytes32 (abi.keccak256 (← value.rawHashBytes))
  | .abiEncode => do return .bytes (← encodeAbi abi operand values)
  | .abiEncodePacked => do return .bytes (← encodePacked abi operand values)
  | .keccak256Packed => do return .bytes32 (abi.keccak256 (← encodePacked abi operand values))

variable (ctx : RuntimeContext)

mutual

/-- Evaluate a runtime expression or recursively type a literal. -/
def evalExpression : Yaml → Except Report RuntimeValue
  | .mapping [(key, operand)] =>
    match recognizedOperator key with
    | some operator =>
      applyOperator abi ctx operator operand (evalExpression operand) (operandValues operand)
    | none =>
      match key with
      | .string key => do return .objectOf [(key, ← evalExpression operand)]
      | _ => bail "runtime object keys must be strings"
  | .mapping entries => do
    noOperator entries
    return .objectOf (← evalEntries entries)
  | .sequence values => do return .array (← evalList values)
  | .tagged _ value => evalExpression value
  | expression => RuntimeValue.ofYaml expression

def evalList : List Yaml → Except Report (List RuntimeValue)
  | [] => .ok []
  | value :: values => do return (← evalExpression value) :: (← evalList values)

def evalEntries : List (Yaml × Yaml) → Except Report (List (String × RuntimeValue))
  | [] => .ok []
  | (.string key, value) :: entries => do
    return (key, ← evalExpression value) :: (← evalEntries entries)
  | _ :: _ => bail "runtime object keys must be strings"

/-- The results of evaluating the values within an operand, each on its own. -/
def operandValues : Yaml → List (Except Report RuntimeValue)
  | .sequence values => evalEach values
  | .mapping entries => typedValues entries
  | _ => []

def typedValues : List (Yaml × Yaml) → List (Except Report RuntimeValue)
  | [] => []
  | (.string "values", .sequence values) :: _ => evalEach values
  | _ :: entries => typedValues entries

def evalEach : List Yaml → List (Except Report RuntimeValue)
  | [] => []
  | value :: values => evalExpression value :: evalEach values

end

/-! ## Template values -/

def hexDigit (n : ℕ) : Char := (String.toList "0123456789abcdef").getD n '0'

/-- `0x` and two digits for each byte. -/
def hexString (bytes : List UInt8) : String :=
  "0x" ++ String.ofList (bytes.flatMap fun b => [hexDigit (b.toNat / 16), hexDigit (b.toNat % 16)])

mutual

/-- Convert back to YAML for template deserialization. -/
def toYaml : RuntimeValue → Yaml
  | .null => .null
  | .bool value => .bool value
  | .int value =>
    if -2 ^ 63 ≤ value ∧ value < 2 ^ 63 then .number (.int value) else .string (toString value)
  | .uint value => if value < 2 ^ 64 then .number (.int value) else .string (toString value)
  | .address value => .string (abi.displayAddress value)
  | .bytes value => .string (hexString value)
  | .bytes32 value => .string (hexString (toBeBytes 32 value.toNat))
  | .string value => .string value
  | .array values => .sequence (toYamlList values)
  | .object values => .mapping (toYamlEntries values)

def toYamlList : List RuntimeValue → List Yaml
  | [] => []
  | value :: values => toYaml value :: toYamlList values

def toYamlEntries : List (String × RuntimeValue) → List (Yaml × Yaml)
  | [] => []
  | (key, value) :: values => (.string key, toYaml value) :: toYamlEntries values

end

mutual

/-- Recursively replace runtime expressions with YAML values. -/
def materializeYaml : Yaml → Except Report Yaml
  | .mapping [(key, operand)] =>
    match recognizedOperator key with
    | some operator => do
      let value ← applyOperator abi ctx operator operand (evalExpression abi ctx operand)
        (operandValues abi ctx operand)
      return toYaml abi value
    | none => do return .mapping [(key, ← materializeYaml operand)]
  | .mapping entries => do
    noOperator entries
    return .mapping (← materializeEntries entries)
  | .sequence values => do return .sequence (← materializeList values)
  | .tagged tag value => do return .tagged tag (← materializeYaml value)
  | value => .ok value

def materializeList : List Yaml → Except Report (List Yaml)
  | [] => .ok []
  | value :: values => do return (← materializeYaml value) :: (← materializeList values)

def materializeEntries : List (Yaml × Yaml) → Except Report (List (Yaml × Yaml))
  | [] => .ok []
  | (key, value) :: entries => do
    return (key, ← materializeYaml value) :: (← materializeEntries entries)

end

end Evaluation

end TxGen
