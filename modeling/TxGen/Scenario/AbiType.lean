import TxGen.Abi.Types
import TxGen.Lib.Fallible
import TxGen.Lib.Text
import TxGen.Scenario.Value

set_option autoImplicit false

/-! # The parser of Solidity types

`AbiTypeParser` of `value.rs`. The text before the parser's offset is read, so the state is the text from the
offset on; messages and slices need the offset in bytes. A parser that reads `n` characters recurses at most
`2 * n + 1` deep. -/

namespace TxGen.AbiType

inductive Failure
  /-- The recursion is deeper than the bound that it was started with. -/
  | outOfFuel
  /-- A slice that does not begin and end at character boundaries. -/
  | panic
  | report (report : Report)

def fail {α : Type} (message : String) : Except Failure α := .error (.report [message])

/-- `wrap_err` and `?` -/
def orReport {α : Type} (result : Except Report α) (message : String) : Except Failure α :=
  match result with
  | .ok a => .ok a
  | .error report => .error (.report (message :: report))

def isIdentifierStart (c : Char) : Bool := c.isAlpha || c = '_'

def isIdentifierPart (c : Char) : Bool := c.isAlphanum || c = '_'

def skipWhitespace (rest : List Char) : List Char := rest.dropWhile Text.isAsciiWhitespace

/-- The text after the expected character. -/
def consumeByte (expected : Char) : List Char → Option (List Char)
  | [] => none
  | c :: rest => if c = expected then some rest else none

section

-- `DynSolType::parse` on a name, and the text that is parsed
variable (dynSolTypeParse : String → Except Report DynSolType) (input : List Char)

/-- The offset where a rest of the input begins. -/
def offset (rest : List Char) : ℕ := Text.size input - Text.size rest

/-- `input[start..stop]` -/
def slice (start stop : ℕ) : Except Failure (List Char) :=
  match (Text.sliceFrom start input).bind (Text.sliceTo (stop - start)) with
  | some text => .ok text
  | none => .error .panic

def tryParseIdentifier (rest : List Char) : Except Failure (Option (List Char) × List Char) :=
  let start := skipWhitespace rest
  match start with
  | [] => .ok (none, start)
  | first :: tail =>
    if isIdentifierStart first then do
      let stop := tail.dropWhile isIdentifierPart
      let identifier ← slice input (offset input start) (offset input stop)
      return (some identifier, stop)
    else .ok (none, start)

def parseIdentifier (rest : List Char) : Except Failure (List Char × List Char) := do
  match ← tryParseIdentifier input rest with
  | (some identifier, stop) => return (identifier, stop)
  | (none, _) => fail s!"expected Solidity type at byte {offset input rest}"

/-- The number between the brackets; none for a dynamic array. -/
def parseLength (start stop : List Char) : Except Failure (Option ℕ) :=
  if offset input start = offset input stop then .ok none
  else do
    let digits ← slice input (offset input start) (offset input stop)
    let length ← orReport
      (okOr (parseUsize (String.ofList digits)) "number too large to fit in target type")
      "invalid fixed array length"
    return some length

def arrayOf (ty : DynSolType) : Option ℕ → Except Failure DynSolType
  | some 0 => fail "fixed array length must be greater than zero"
  | some length => .ok (.fixedArray ty length)
  | none => .ok (.array ty)

/-- What follows an opening bracket: the type of the arrays, and the text behind the closing bracket. -/
def parseSuffix (ty : DynSolType) (rest : List Char) : Except Failure (DynSolType × List Char) := do
  let start := skipWhitespace rest
  let stop := start.dropWhile Char.isDigit
  let length ← parseLength input start stop
  match consumeByte ']' (skipWhitespace stop) with
  | none => fail s!"expected ']' at byte {offset input (skipWhitespace stop)}"
  | some rest => return (← arrayOf ty length, rest)

/-- The loop over the suffixes; each turn consumes a character at least. -/
def parseSuffixes : ℕ → DynSolType → List Char → Except Failure (DynSolType × List Char)
  | 0, _, _ => .error .outOfFuel
  | turns + 1, ty, rest =>
    match consumeByte '[' (skipWhitespace rest) with
    | none => .ok (ty, skipWhitespace rest)
    | some rest => do
      let (ty, rest) ← parseSuffix input ty rest
      parseSuffixes turns ty rest

/-- The type of a tuple with these members; an empty name is no name. -/
def tupleOf (members : List (DynSolType × List Char)) : Except Failure DynSolType :=
  let names := members.map Prod.snd
  let types := members.map Prod.fst
  if names.any (· ≠ []) then
    if names.any (· = []) then fail "tuple members must either all be named or all be unnamed"
    else .ok (.customStruct "tuple" (names.map String.ofList) types)
  else .ok (.tuple types)

abbrev MembersParser := List Char → Except Failure (List (DynSolType × List Char) × List Char)

def parseTuple (parseMembers : MembersParser) (rest : List Char) :
    Except Failure (DynSolType × List Char) :=
  match consumeByte ')' (skipWhitespace rest) with
  | some rest => .ok (.tuple [], rest)
  | none => do
    let (members, rest) ← parseMembers (skipWhitespace rest)
    return (← tupleOf members, rest)

/-- The type that a name stands for, or the tuple behind the keyword. -/
def parseNamed (parseMembers : MembersParser) (name rest : List Char) :
    Except Failure (DynSolType × List Char) :=
  if name = "tuple".toList then
    match consumeByte '(' (skipWhitespace rest) with
    | none => fail s!"expected '(' after tuple at byte {offset input (skipWhitespace rest)}"
    | some rest => parseTuple parseMembers rest
  else do
    let ty ← orReport (dynSolTypeParse (String.ofList name)) "invalid Solidity ABI type"
    return (ty, rest)

/-- A type without its suffixes. -/
def parseHead (parseMembers : MembersParser) (rest : List Char) :
    Except Failure (DynSolType × List Char) :=
  match consumeByte '(' rest with
  | some rest => parseTuple parseMembers rest
  | none => do
    let (name, rest) ← parseIdentifier input rest
    parseNamed dynSolTypeParse input parseMembers name rest

/-- What follows a member and its name: the next members, or the end of the tuple. -/
def parseNext (parseMembers : MembersParser) (member : DynSolType × List Char) (rest : List Char) :
    Except Failure (List (DynSolType × List Char) × List Char) :=
  match consumeByte ')' rest with
  | some rest => .ok ([member], rest)
  | none =>
    match consumeByte ',' rest with
    | none => fail s!"expected ',' or ')' at byte {offset input rest}"
    | some rest => do
      let (members, rest) ← parseMembers (skipWhitespace rest)
      return (member :: members, rest)

mutual

def parseType : ℕ → List Char → Except Failure (DynSolType × List Char)
  | 0, _ => .error .outOfFuel
  | fuel + 1, rest => do
    let (ty, rest) ← parseHead dynSolTypeParse input (parseMembers fuel) (skipWhitespace rest)
    parseSuffixes input (rest.length + 1) ty rest

/-- The loop of `parse_tuple`. -/
def parseMembers : ℕ → MembersParser
  | 0, _ => .error .outOfFuel
  | fuel + 1, rest => do
    let (member, rest) ← parseType fuel rest
    let (name, rest) ← tryParseIdentifier input (skipWhitespace rest)
    parseNext input (parseMembers fuel) (member, name.getD []) (skipWhitespace rest)

end

/-- Parse a Solidity ABI type, preserving names on tuple members. -/
def parseAbiType : Except Failure DynSolType := do
  let (ty, rest) ← parseType dynSolTypeParse input (2 * input.length + 1) input
  let rest := skipWhitespace rest
  if rest = [] then return ty else fail s!"unexpected token at byte {offset input rest}"

end

end TxGen.AbiType
