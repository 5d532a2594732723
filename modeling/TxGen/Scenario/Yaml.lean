import Mathlib

set_option autoImplicit false

/-! # YAML values

What `serde_yaml` hands to the scenario code: a mapping keeps the order of its entries and has each
key once; its keys are arbitrary values. Numbers that are not integers are only told apart. -/

namespace TxGen

inductive YamlNumber
  | int (value : ℤ)
  | float (text : String)
deriving DecidableEq

inductive Yaml
  | null
  | bool (value : Bool)
  | number (value : YamlNumber)
  | string (value : String)
  | sequence (values : List Yaml)
  | mapping (entries : List (Yaml × Yaml))
  | tagged (tag : String) (value : Yaml)

namespace Yaml

mutual

def beq : Yaml → Yaml → Bool
  | .null, .null => true
  | .bool a, .bool b => a == b
  | .number a, .number b => a == b
  | .string a, .string b => a == b
  | .sequence a, .sequence b => beqList a b
  | .mapping a, .mapping b => beqEntries a b
  | .tagged s a, .tagged t b => s == t && beq a b
  | _, _ => false

def beqList : List Yaml → List Yaml → Bool
  | [], [] => true
  | a :: as, b :: bs => beq a b && beqList as bs
  | _, _ => false

def beqEntries : List (Yaml × Yaml) → List (Yaml × Yaml) → Bool
  | [], [] => true
  | (k, a) :: as, (l, b) :: bs => beq k l && beq a b && beqEntries as bs
  | _, _ => false

end

mutual

theorem beq_iff : ∀ {a b : Yaml}, a.beq b = true ↔ a = b
  | .null, b => by cases b <;> simp [beq]
  | .bool _, b => by cases b <;> simp [beq]
  | .number _, b => by cases b <;> simp [beq]
  | .string _, b => by cases b <;> simp [beq]
  | .sequence as, b => by
      cases b with
      | sequence bs => rw [beq, beqList_iff, sequence.injEq]
      | _ => simp [beq]
  | .mapping as, b => by
      cases b with
      | mapping bs => rw [beq, beqEntries_iff, mapping.injEq]
      | _ => simp [beq]
  | .tagged s a, b => by
      cases b with
      | tagged t b => rw [beq, Bool.and_eq_true, beq_iff, beq_iff_eq, tagged.injEq]
      | _ => simp [beq]

theorem beqList_iff : ∀ {as bs : List Yaml}, beqList as bs = true ↔ as = bs
  | [], bs => by cases bs <;> simp [beqList]
  | a :: as, bs => by
      cases bs with
      | nil => simp [beqList]
      | cons b bs => rw [beqList, Bool.and_eq_true, beq_iff, beqList_iff, List.cons.injEq]

theorem beqEntries_iff : ∀ {as bs : List (Yaml × Yaml)}, beqEntries as bs = true ↔ as = bs
  | [], bs => by cases bs <;> simp [beqEntries]
  | (k, a) :: as, bs => by
      cases bs with
      | nil => simp [beqEntries]
      | cons b bs =>
          obtain ⟨l, b⟩ := b
          rw [beqEntries, Bool.and_eq_true, Bool.and_eq_true, beq_iff, beq_iff, beqEntries_iff,
            List.cons.injEq, Prod.mk.injEq]

end

instance : DecidableEq Yaml := fun a b => decidable_of_iff (a.beq b = true) beq_iff

def asStr : Yaml → Option String
  | .string s => some s
  | _ => none

/-- The value under a string key of a mapping. -/
def get (entries : List (Yaml × Yaml)) (key : String) : Option Yaml :=
  (entries.find? fun e => e.1 = .string key).map Prod.snd

@[simp] theorem get_nil (key : String) : get [] key = none := rfl

theorem get_cons (e : Yaml × Yaml) (entries : List (Yaml × Yaml)) (key : String) :
    get (e :: entries) key = if e.1 = .string key then some e.2 else get entries key := by
  unfold get
  by_cases h : e.1 = .string key
  · simp [h]
  · simp [h]

def containsKey (entries : List (Yaml × Yaml)) (key : String) : Bool :=
  entries.any fun e => e.1 = .string key

end Yaml

end TxGen
