import TxGen.Lib.Fallible

set_option autoImplicit false

/-! # Names, paths and reports

The checks on names and dotted paths that the scenario code shares, and what it returns when a check
fails. -/

namespace TxGen

/-- An error and the contexts it was wrapped in, outermost first. -/
abbrev Report := List String

def bail {α : Type} (message : String) : Except Report α := .error [message]

@[simp] theorem bail_ne_ok {α : Type} {message : String} {a : α} : bail message ≠ .ok a := nofun

/-- `if failed { bail!(message) }` -/
def bailIf (failed : Prop) [Decidable failed] (message : String) : Except Report Unit :=
  if failed then bail message else .ok ()

def wrapErr {α : Type} (result : Except Report α) (message : String) : Except Report α :=
  result.mapError (message :: ·)

@[simp] theorem wrapErr_eq_ok {α : Type} {result : Except Report α} {message : String} {a : α} :
    wrapErr result message = .ok a ↔ result = .ok a := by
  cases result <;> simp [wrapErr, Except.mapError]

@[simp] theorem bailIf_eq_ok {failed : Prop} [Decidable failed] {message : String} {u : Unit} :
    bailIf failed message = .ok u ↔ ¬ failed := by
  unfold bailIf
  split <;> simp_all [bail]

/-- `ok_or_else` -/
def okOr {α : Type} (value : Option α) (message : String) : Except Report α :=
  match value with
  | some a => .ok a
  | none => bail message

@[simp] theorem okOr_eq_ok {α : Type} {value : Option α} {message : String} {a : α} :
    okOr value message = .ok a ↔ value = some a := by
  cases value <;> simp [okOr]

/-- A sequence of fallible steps succeeds if each does. -/
theorem bind_eq_ok {ε α β : Type} {x : Except ε α} {f : α → Except ε β} {b : β} :
    (x >>= f) = .ok b ↔ ∃ a, x = .ok a ∧ f a = .ok b := Fallible.bind_ok

/-- The white space that `trim` removes. -/
def isWhitespace (c : Char) : Bool :=
  (9 ≤ c.toNat && c.toNat ≤ 13) || (0x2000 ≤ c.toNat && c.toNat ≤ 0x200a) ||
    c.toNat ∈ [0x20, 0x85, 0xa0, 0x1680, 0x2028, 0x2029, 0x202f, 0x205f, 0x3000]

/-- `trim().is_empty()` -/
def blank (s : String) : Bool := s.toList.all isWhitespace

/-- `split('.')` -/
def components (path : String) : List String := (path.toList.splitOn '.').map String.ofList

/-- The first component. -/
def pathRoot (path : String) : String := String.ofList (path.toList.takeWhile (· ≠ '.'))

def validateName (name context : String) : Except Report Unit :=
  bailIf (blank name) s!"{context} name must not be empty"

def validateComponent (name context : String) : Except Report Unit := do
  validateName name context
  bailIf ('.' ∈ name.toList)
    s!"{context} '{name}' must be one name component and cannot contain '.'"

def validatePath (path context : String) : Except Report Unit := do
  validateName path context
  bailIf ("" ∈ components path) s!"{context} '{path}' contains an empty path component"

end TxGen
