import TxGen.Abi.Types

set_option autoImplicit false

/-! # What is hashed into the topic of an indexed event argument

The encoding that the event filters hash, next to the in-place encoding that Solidity prescribes for
indexed arguments. They differ in byte strings inside arrays and structs that are empty: the filters
pad these to a word. -/

namespace TxGen

/-- The 32 bytes of a word. -/
def Word.asSlice (word : Word) : List UInt8 := toBeBytes 32 word.toNat

/-- Whether the topic of an indexed argument holds a hash. -/
def indexedValueIsHashed : DynSolType → Bool
  | .address | .function | .bool | .fixedBytes _ | .int _ | .uint _ => false
  | _ => true

/-! ## The encoding of the filters -/

namespace IndexedValue

def encodeBytes (value : List UInt8) (nested : Bool) (output : List UInt8) : List UInt8 :=
  if nested then
    let padding := if value = [] then 32 else (32 - value.length % 32) % 32
    output ++ value ++ List.replicate padding 0
  else output ++ value

mutual

def encode : DynSolValue → Bool → List UInt8 → List UInt8
  | .string value, nested, output => encodeBytes (asBytes value) nested output
  | .bytes value, nested, output => encodeBytes value nested output
  | .array values, _, output => encodeElements values output
  | .fixedArray values, _, output => encodeElements values output
  | .tuple values, _, output => encodeElements values output
  | .customStruct _ _ values, _, output => encodeElements values output
  | value, _, output => output ++ (value.asWord.map Word.asSlice).getD []

def encodeElements : List DynSolValue → List UInt8 → List UInt8
  | [], output => output
  | value :: values, output => encodeElements values (encode value true output)

end

end IndexedValue

def indexedValuePreimage (value : DynSolValue) : List UInt8 := IndexedValue.encode value false []

/-! ## The in-place encoding -/

/-- A byte string with zeros up to a multiple of 32 bytes. -/
def padded (value : List UInt8) : List UInt8 :=
  value ++ List.replicate ((32 - value.length % 32) % 32) 0

/-- The padding is the shortest one. -/
theorem length_padded (value : List UInt8) :
    32 ∣ (padded value).length ∧ (padded value).length < value.length + 32 := by
  rw [padded, List.length_append, List.length_replicate]
  omega

namespace DynSolValue

mutual

/-- What a value contributes inside an array or a struct. -/
def inPlaceElement : DynSolValue → List UInt8
  | .string value => padded (asBytes value)
  | .bytes value => padded value
  | .array values => inPlaceElements values
  | .fixedArray values => inPlaceElements values
  | .tuple values => inPlaceElements values
  | .customStruct _ _ values => inPlaceElements values
  | value => (value.asWord.map Word.asSlice).getD []

def inPlaceElements : List DynSolValue → List UInt8
  | [] => []
  | value :: values => inPlaceElement value ++ inPlaceElements values

end

/-- The in-place encoding of an indexed argument: without padding for a byte string of its own, without
    length prefixes. -/
def inPlace : DynSolValue → List UInt8
  | .string value => asBytes value
  | .bytes value => value
  | value => value.inPlaceElement

/-- An empty byte string. -/
def IsEmptyBytes (value : DynSolValue) : Prop := value = .string "" ∨ value = .bytes []

mutual

/-- How many empty byte strings are in a value or are the value. -/
def emptyCount : DynSolValue → ℕ
  | .string value => if asBytes value = [] then 1 else 0
  | .bytes value => if value = [] then 1 else 0
  | .array values => emptyCounts values
  | .fixedArray values => emptyCounts values
  | .tuple values => emptyCounts values
  | .customStruct _ _ values => emptyCounts values
  | _ => 0

def emptyCounts : List DynSolValue → ℕ
  | [] => 0
  | value :: values => emptyCount value + emptyCounts values

end

/-- No empty byte string is inside an array or a struct of the value. -/
def NoEmptyInside (value : DynSolValue) : Prop := ∀ e, Within e value → ¬ e.IsEmptyBytes

/-! ## Comparing the two -/

theorem within_iff {e v : DynSolValue} :
    Within e v ↔ ∃ w ∈ v.elements, e = w ∨ Within e w := by
  constructor
  · intro h
    cases h with
    | element hmem => exact ⟨e, hmem, .inl rfl⟩
    | deeper hmem h => exact ⟨_, hmem, .inr h⟩
  · rintro ⟨w, hmem, rfl | h⟩
    · exact .element hmem
    · exact .deeper hmem h

theorem noEmptyInside_of_elements_nil {v : DynSolValue} (h : v.elements = []) : v.NoEmptyInside := by
  intro e he
  obtain ⟨w, hmem, -⟩ := within_iff.1 he
  rw [h] at hmem
  cases hmem

/-- In a value with elements they are the only place for empty byte strings. -/
theorem clean_of_elements (v : DynSolValue) (hne : ¬ v.IsEmptyBytes) :
    (∀ e ∈ v.elements, ¬ e.IsEmptyBytes ∧ e.NoEmptyInside) ↔
      ¬ v.IsEmptyBytes ∧ v.NoEmptyInside := by
  constructor
  · intro h
    refine ⟨hne, fun e he => ?_⟩
    obtain ⟨w, hmem, rfl | hw⟩ := within_iff.1 he
    · exact (h e hmem).1
    · exact (h w hmem).2 e hw
  · rintro ⟨-, h⟩ e hmem
    exact ⟨h e (.element hmem), fun w hw => h w (.deeper hmem hw)⟩

mutual

theorem emptyCount_eq_zero_iff : ∀ v : DynSolValue,
    emptyCount v = 0 ↔ ¬ v.IsEmptyBytes ∧ v.NoEmptyInside
  | .string value => by
      rw [emptyCount]
      by_cases h : asBytes value = []
      · rw [if_pos h]
        exact iff_of_false Nat.one_ne_zero fun hclean =>
          hclean.1 (.inl (congrArg _ (asBytes_eq_nil_iff.1 h)))
      · have hne : ¬ (DynSolValue.string value).IsEmptyBytes := by
          simpa [IsEmptyBytes, asBytes_eq_nil_iff] using h
        rw [if_neg h]
        exact iff_of_true rfl ⟨hne, noEmptyInside_of_elements_nil rfl⟩
  | .bytes value => by
      rw [emptyCount]
      by_cases h : value = []
      · rw [if_pos h]
        exact iff_of_false Nat.one_ne_zero fun hclean => hclean.1 (.inr (congrArg _ h))
      · have hne : ¬ (DynSolValue.bytes value).IsEmptyBytes := by simpa [IsEmptyBytes] using h
        rw [if_neg h]
        exact iff_of_true rfl ⟨hne, noEmptyInside_of_elements_nil rfl⟩
  | .array values =>
      (emptyCounts_eq_zero_iff values).trans (clean_of_elements (.array values) (by simp [IsEmptyBytes]))
  | .fixedArray values =>
      (emptyCounts_eq_zero_iff values).trans (clean_of_elements (.fixedArray values) (by simp [IsEmptyBytes]))
  | .tuple values =>
      (emptyCounts_eq_zero_iff values).trans (clean_of_elements (.tuple values) (by simp [IsEmptyBytes]))
  | .customStruct name propNames values =>
      (emptyCounts_eq_zero_iff values).trans
        (clean_of_elements (.customStruct name propNames values) (by simp [IsEmptyBytes]))
  | .bool _ | .int _ _ | .uint _ _ | .fixedBytes _ _ | .address _ | .function _ =>
      iff_of_true rfl ⟨(by simp [IsEmptyBytes]), noEmptyInside_of_elements_nil rfl⟩

theorem emptyCounts_eq_zero_iff : ∀ values : List DynSolValue,
    emptyCounts values = 0 ↔ ∀ e ∈ values, ¬ e.IsEmptyBytes ∧ e.NoEmptyInside
  | [] => by simp [emptyCounts]
  | value :: values => by
      rw [emptyCounts, Nat.add_eq_zero_iff, emptyCount_eq_zero_iff value,
        emptyCounts_eq_zero_iff values, List.forall_mem_cons]

end

end DynSolValue

open DynSolValue IndexedValue

theorem encodeBytes_nested (value output : List UInt8) :
    encodeBytes value true output =
      output ++ (padded value ++ if value = [] then List.replicate 32 0 else []) := by
  by_cases h : value = []
  · simp [encodeBytes, padded, h]
  · simp [encodeBytes, padded, h]

mutual

/-- Inside an array or a struct each empty byte string takes a word more than it should. -/
theorem length_encode_nested : ∀ (v : DynSolValue) (output : List UInt8),
    (encode v true output).length =
      output.length + v.inPlaceElement.length + 32 * v.emptyCount
  | .string value, output => by
      rw [encode, encodeBytes_nested, inPlaceElement, emptyCount]
      split <;> simp
      omega
  | .bytes value, output => by
      rw [encode, encodeBytes_nested, inPlaceElement, emptyCount]
      split <;> simp
      omega
  | .array values, output => length_encodeElements values output
  | .fixedArray values, output => length_encodeElements values output
  | .tuple values, output => length_encodeElements values output
  | .customStruct _ _ values, output => length_encodeElements values output
  | .bool _, output | .int _ _, output | .uint _ _, output | .fixedBytes _ _, output
  | .address _, output | .function _, output => by simp [encode, inPlaceElement, emptyCount]

theorem length_encodeElements : ∀ (values : List DynSolValue) (output : List UInt8),
    (encodeElements values output).length =
      output.length + (inPlaceElements values).length + 32 * emptyCounts values
  | [], output => by simp [encodeElements, inPlaceElements, emptyCounts]
  | value :: values, output => by
      rw [encodeElements, length_encodeElements values, length_encode_nested value, inPlaceElements,
        emptyCounts, List.length_append]
      omega

end

mutual

theorem encode_nested_of_emptyCount : ∀ (v : DynSolValue) (output : List UInt8),
    v.emptyCount = 0 → encode v true output = output ++ v.inPlaceElement
  | .string value, output, h => by
      rw [emptyCount] at h
      have hne : asBytes value ≠ [] := fun hnil => by simp [hnil] at h
      rw [encode, encodeBytes_nested, inPlaceElement, if_neg hne, List.append_nil]
  | .bytes value, output, h => by
      rw [emptyCount] at h
      have hne : value ≠ [] := fun hnil => by simp [hnil] at h
      rw [encode, encodeBytes_nested, inPlaceElement, if_neg hne, List.append_nil]
  | .array values, output, h => encodeElements_of_emptyCounts values output h
  | .fixedArray values, output, h => encodeElements_of_emptyCounts values output h
  | .tuple values, output, h => encodeElements_of_emptyCounts values output h
  | .customStruct _ _ values, output, h => encodeElements_of_emptyCounts values output h
  | .bool _, output, _ | .int _ _, output, _ | .uint _ _, output, _ | .fixedBytes _ _, output, _
  | .address _, output, _ | .function _, output, _ => by simp [encode, inPlaceElement]

theorem encodeElements_of_emptyCounts : ∀ (values : List DynSolValue) (output : List UInt8),
    emptyCounts values = 0 → encodeElements values output = output ++ inPlaceElements values
  | [], output, _ => by simp [encodeElements, inPlaceElements]
  | value :: values, output, h => by
      rw [emptyCounts, Nat.add_eq_zero_iff] at h
      rw [encodeElements, encode_nested_of_emptyCount value output h.1,
        encodeElements_of_emptyCounts values _ h.2, inPlaceElements, List.append_assoc]

end

/-- On the elements of a composite value. -/
theorem encodeElements_iff (values : List DynSolValue) :
    encodeElements values [] = inPlaceElements values ↔
      ∀ e ∈ values, ¬ e.IsEmptyBytes ∧ e.NoEmptyInside := by
  rw [← emptyCounts_eq_zero_iff]
  constructor
  · intro h
    have hlength := length_encodeElements values []
    rw [h, List.length_nil] at hlength
    omega
  · intro h
    exact encodeElements_of_emptyCounts values [] h

/-- What is hashed is the in-place encoding just where no empty byte string is inside the value. -/
theorem indexedValuePreimage_eq_iff (v : DynSolValue) :
    indexedValuePreimage v = v.inPlace ↔ v.NoEmptyInside := by
  have hcomposite : ¬ v.IsEmptyBytes →
      ((∀ e ∈ v.elements, ¬ e.IsEmptyBytes ∧ e.NoEmptyInside) ↔ v.NoEmptyInside) := by
    intro hne
    rw [clean_of_elements v hne]
    exact and_iff_right hne
  cases v with
  | string value =>
      exact iff_of_true rfl (noEmptyInside_of_elements_nil rfl)
  | bytes value =>
      exact iff_of_true rfl (noEmptyInside_of_elements_nil rfl)
  | array values => exact (encodeElements_iff values).trans (hcomposite (by simp [IsEmptyBytes]))
  | fixedArray values => exact (encodeElements_iff values).trans (hcomposite (by simp [IsEmptyBytes]))
  | tuple values => exact (encodeElements_iff values).trans (hcomposite (by simp [IsEmptyBytes]))
  | customStruct name propNames values =>
      exact (encodeElements_iff values).trans (hcomposite (by simp [IsEmptyBytes]))
  | _ => exact iff_of_true (by simp [indexedValuePreimage, encode, inPlace, inPlaceElement])
          (noEmptyInside_of_elements_nil rfl)

end TxGen
