import TxGen.Core.Bytes
import TxGen.Core.GeneratedTx

set_option autoImplicit false

/-! # Solidity types and values

The types and the values of the ABI crate. A word is 32 bytes; signed integers are words in two's
complement, and fixed bytes and functions fill the high end of their word. -/

namespace TxGen

abbrev Word := BitVec 256

inductive DynSolType
  | bool
  | int (bits : ℕ)
  | uint (bits : ℕ)
  | fixedBytes (size : ℕ)
  | address
  | function
  | bytes
  | string
  | array (inner : DynSolType)
  | fixedArray (inner : DynSolType) (size : ℕ)
  | tuple (types : List DynSolType)
  | customStruct (name : String) (propNames : List String) (types : List DynSolType)

inductive DynSolValue
  | bool (value : Bool)
  | int (value : Word) (bits : ℕ)
  | uint (value : Word) (bits : ℕ)
  | fixedBytes (value : Word) (size : ℕ)
  | address (value : Address)
  | function (value : BitVec 192)
  | bytes (value : List UInt8)
  | string (value : String)
  | array (values : List DynSolValue)
  | fixedArray (values : List DynSolValue)
  | tuple (values : List DynSolValue)
  | customStruct (name : String) (propNames : List String) (values : List DynSolValue)

/-- The bytes of a string. -/
def asBytes (s : String) : List UInt8 := s.toUTF8.data.toList

theorem asBytes_eq_nil_iff {s : String} : asBytes s = [] ↔ s = "" := by
  rw [asBytes, Array.toList_eq_nil_iff, ← String.toByteArray_eq_empty_iff]
  constructor
  · intro h
    exact ByteArray.ext h
  · intro h
    rw [String.toUTF8, h]
    rfl

namespace DynSolValue

/-- The word of a value that is neither a byte string nor composite. -/
def asWord : DynSolValue → Option Word
  | .bool value => some (if value then 1 else 0)
  | .int value _ => some value
  | .uint value _ => some value
  | .fixedBytes value _ => some value
  | .address value => some (value.setWidth 256)
  | .function value => some (value.setWidth 256 <<< 64)
  | _ => none

/-- The elements of an array, the members of a tuple or struct. -/
def elements : DynSolValue → List DynSolValue
  | .array values => values
  | .fixedArray values => values
  | .tuple values => values
  | .customStruct _ _ values => values
  | _ => []

/-- `Within e v`: `e` is in `v`, at any depth. -/
inductive Within : DynSolValue → DynSolValue → Prop
  | element {e v : DynSolValue} : e ∈ v.elements → Within e v
  | deeper {e w v : DynSolValue} : w ∈ v.elements → Within e w → Within e v

/-! ### Equality -/

mutual

def beq : DynSolValue → DynSolValue → Bool
  | .bool a, .bool b => a == b
  | .int a m, .int b n => a == b && m == n
  | .uint a m, .uint b n => a == b && m == n
  | .fixedBytes a m, .fixedBytes b n => a == b && m == n
  | .address a, .address b => a == b
  | .function a, .function b => a == b
  | .bytes a, .bytes b => a == b
  | .string a, .string b => a == b
  | .array as, .array bs => beqList as bs
  | .fixedArray as, .fixedArray bs => beqList as bs
  | .tuple as, .tuple bs => beqList as bs
  | .customStruct m ms as, .customStruct n ns bs => m == n && ms == ns && beqList as bs
  | _, _ => false

def beqList : List DynSolValue → List DynSolValue → Bool
  | [], [] => true
  | a :: as, b :: bs => beq a b && beqList as bs
  | _, _ => false

end

mutual

theorem beq_iff : ∀ {a b : DynSolValue}, a.beq b = true ↔ a = b
  | .bool _, b => by cases b <;> simp [beq]
  | .int _ _, b => by cases b <;> simp [beq]
  | .uint _ _, b => by cases b <;> simp [beq]
  | .fixedBytes _ _, b => by cases b <;> simp [beq]
  | .address _, b => by cases b <;> simp [beq]
  | .function _, b => by cases b <;> simp [beq]
  | .bytes _, b => by cases b <;> simp [beq]
  | .string _, b => by cases b <;> simp [beq]
  | .array as, b => by
      cases b with
      | array bs => rw [beq, beqList_iff, array.injEq]
      | _ => simp [beq]
  | .fixedArray as, b => by
      cases b with
      | fixedArray bs => rw [beq, beqList_iff, fixedArray.injEq]
      | _ => simp [beq]
  | .tuple as, b => by
      cases b with
      | tuple bs => rw [beq, beqList_iff, tuple.injEq]
      | _ => simp [beq]
  | .customStruct m ms as, b => by
      cases b with
      | customStruct n ns bs =>
          rw [beq, Bool.and_eq_true, Bool.and_eq_true, beqList_iff, beq_iff_eq, beq_iff_eq,
            customStruct.injEq, and_assoc]
      | _ => simp [beq]

theorem beqList_iff : ∀ {as bs : List DynSolValue}, beqList as bs = true ↔ as = bs
  | [], bs => by cases bs <;> simp [beqList]
  | a :: as, bs => by
      cases bs with
      | nil => simp [beqList]
      | cons b bs => rw [beqList, Bool.and_eq_true, beq_iff, beqList_iff, List.cons.injEq]

end

instance : DecidableEq DynSolValue := fun a b => decidable_of_iff (a.beq b = true) beq_iff

end DynSolValue

end TxGen
