import TxGen.Scenario.AbiType

set_option autoImplicit false

/-! # The grammar of Solidity types

The texts that a type may be written as, by the rules of the language and not by the parser: elementary
names, tuples with or without the keyword, array suffixes, and blanks between tokens. The parser reads every
such text, and what it reads is one. -/

namespace TxGen.AbiType

/-! ## Tokens -/

def Blank (blank : List Char) : Prop := ∀ c ∈ blank, Text.isAsciiWhitespace c = true

/-- The rest of a text does not begin with such a character. -/
def NotHead (p : Char → Bool) (rest : List Char) : Prop := ∀ c ∈ rest.head?, p c = false

inductive IsIdentifier : List Char → Prop
  | intro {first : Char} {part : List Char} : isIdentifierStart first = true →
      (∀ c ∈ part, isIdentifierPart c = true) → IsIdentifier (first :: part)

/-- Digits that stand for a number, leading zeros included. -/
structure Spelled (n : ℕ) (digits : List Char) : Prop where
  ne_nil : digits ≠ []
  digit : ∀ c ∈ digits, c.isDigit = true
  value : Nat.ofDigitChars 10 digits 0 = n

/-- The decimal digits of a number -/
def Decimal (n : ℕ) (digits : List Char) : Prop := digits = Nat.toDigits 10 n

theorem Decimal.spelled {n : ℕ} {digits : List Char} (h : Decimal n digits) : Spelled n digits := by
  subst h
  exact
    { ne_nil := Nat.toDigits_ne_nil
      digit := fun c hc => Nat.isDigit_of_mem_toDigits (by decide) (by decide) hc
      value := Nat.ofDigitChars_ten_toDigits }

theorem Blank.nil : Blank [] := List.forall_mem_nil _

theorem NotHead.nil (p : Char → Bool) : NotHead p [] := nofun

theorem NotHead.cons {p : Char → Bool} {c : Char} (h : p c = false) (rest : List Char) :
    NotHead p (c :: rest) := by
  intro d hd
  obtain rfl := Option.some.inj hd
  exact h

theorem NotHead.append {p : Char → Bool} {text : List Char} (h : NotHead p text) (hne : text ≠ [])
    (rest : List Char) : NotHead p (text ++ rest) := by
  cases text with
  | nil => exact absurd rfl hne
  | cons c text => exact h

/-- A blank text or a blank before what does not begin so either -/
theorem NotHead.blank_append {p : Char → Bool} (hp : ∀ c, Text.isAsciiWhitespace c = true → p c = false)
    {blank rest : List Char} (hblank : Blank blank) (h : NotHead p rest) : NotHead p (blank ++ rest) := by
  cases blank with
  | nil => exact h
  | cons c blank => exact NotHead.cons (hp c (hblank c List.mem_cons_self)) _

theorem identifierPart_of_start {c : Char} (h : isIdentifierStart c = true) :
    isIdentifierPart c = true := by
  unfold isIdentifierStart at h
  unfold isIdentifierPart Char.isAlphanum
  cases hc : c.isAlpha <;> simp_all

/-- The characters of names are letters, digits and the underscore. -/
theorem toNat_of_identifierPart {c : Char} (h : isIdentifierPart c = true) :
    (48 ≤ c.toNat ∧ c.toNat ≤ 57) ∨ (65 ≤ c.toNat ∧ c.toNat ≤ 90) ∨ c.toNat = 95 ∨
      (97 ≤ c.toNat ∧ c.toNat ≤ 122) := by
  simp only [isIdentifierPart, Char.isAlphanum, Char.isAlpha, Char.isUpper, Char.isLower, Char.isDigit,
    Bool.or_eq_true, Bool.and_eq_true, decide_eq_true_eq, UInt32.le_iff_toNat_le, ge_iff_le] at h
  have hval : c.toNat = c.val.toNat := rfl
  rcases h with ((h | h) | h) | rfl
  · simp only [Char.reduceVal, UInt32.reduceToNat] at h
    omega
  · simp only [Char.reduceVal, UInt32.reduceToNat] at h
    omega
  · simp only [Char.reduceVal, UInt32.reduceToNat] at h
    omega
  · decide

theorem toNat_of_whitespace {c : Char} (h : Text.isAsciiWhitespace c = true) : c.toNat ≤ 32 := by
  simp only [Text.isAsciiWhitespace, Bool.or_eq_true, decide_eq_true_eq] at h
  rcases h with (((rfl | rfl) | rfl) | h) | rfl
  · decide
  · decide
  · decide
  · omega
  · decide

theorem identifierPart_of_whitespace {c : Char} (h : Text.isAsciiWhitespace c = true) :
    isIdentifierPart c = false := by
  by_contra hpart
  have hc := toNat_of_whitespace h
  have hpart := toNat_of_identifierPart (Bool.not_eq_false _ ▸ hpart)
  omega

theorem whitespace_of_identifierPart {c : Char} (h : isIdentifierPart c = true) :
    Text.isAsciiWhitespace c = false := by
  by_contra hspace
  have := identifierPart_of_whitespace (Bool.not_eq_false _ ▸ hspace)
  rw [h] at this
  cases this

/-! ## Reading tokens -/

theorem skipWhitespace_append {blank : List Char} (h : Blank blank) (rest : List Char) :
    skipWhitespace (blank ++ rest) = skipWhitespace rest := List.dropWhile_append_of_pos h

theorem skipWhitespace_eq {rest : List Char} (h : NotHead Text.isAsciiWhitespace rest) :
    skipWhitespace rest = rest := by
  cases rest with
  | nil => rfl
  | cons c rest => exact List.dropWhile_cons_of_neg (by simp [h c rfl])

theorem skipWhitespace_blank {blank rest : List Char} (hblank : Blank blank)
    (h : NotHead Text.isAsciiWhitespace rest) : skipWhitespace (blank ++ rest) = rest := by
  rw [skipWhitespace_append hblank, skipWhitespace_eq h]

theorem notHead_skipWhitespace (rest : List Char) :
    NotHead Text.isAsciiWhitespace (skipWhitespace rest) := by
  intro c hc
  have := List.head?_dropWhile_not Text.isAsciiWhitespace rest
  unfold skipWhitespace at hc
  rw [hc] at this
  exact this

@[simp] theorem skipWhitespace_skipWhitespace (rest : List Char) :
    skipWhitespace (skipWhitespace rest) = skipWhitespace rest :=
  skipWhitespace_eq (notHead_skipWhitespace rest)

/-- What is skipped is blank. -/
theorem exists_blank (rest : List Char) : ∃ blank, Blank blank ∧ rest = blank ++ skipWhitespace rest :=
  ⟨rest.takeWhile Text.isAsciiWhitespace, fun _ hc => List.mem_takeWhile_imp hc,
    List.takeWhile_append_dropWhile.symm⟩

theorem consumeByte_eq_some {expected : Char} {rest rest' : List Char} :
    consumeByte expected rest = some rest' ↔ rest = expected :: rest' := by
  cases rest with
  | nil => simp [consumeByte]
  | cons c rest =>
      rw [consumeByte, List.cons.injEq]
      split
      · next hc => simp [hc]
      · next hc => simp [hc]

@[simp] theorem consumeByte_cons (expected : Char) (rest : List Char) :
    consumeByte expected (expected :: rest) = some rest := consumeByte_eq_some.2 rfl

theorem consumeByte_ne {c expected : Char} (h : c ≠ expected) (rest : List Char) :
    consumeByte expected (c :: rest) = none := if_neg h

/-! ## Slices -/

theorem size_eq_zero_iff {text : List Char} : Text.size text = 0 ↔ text = [] := by
  cases text with
  | nil => simp [Text.size]
  | cons c text =>
      have := c.utf8Size_pos
      simp [Text.size_cons]
      omega

section

variable {input : List Char}

theorem offset_append {before rest : List Char} (h : input = before ++ rest) :
    offset input rest = Text.size before := by
  rw [offset, h, Text.size_append, Nat.add_sub_cancel]

/-- The slice between two places of the input is the text between them. -/
theorem slice_eq {text stop : List Char} (h : text ++ stop <:+ input) :
    slice input (offset input (text ++ stop)) (offset input stop) = .ok text := by
  obtain ⟨before, hinput⟩ := h
  have hstart := offset_append hinput.symm
  have hstop : offset input stop = Text.size (before ++ text) :=
    offset_append (by rw [← hinput, List.append_assoc])
  unfold slice
  rw [hstart, hstop, ← hinput, Text.sliceFrom_append, Text.size_append, Nat.add_sub_cancel_left,
    Option.bind_some, Text.sliceTo_append]

theorem offset_eq_iff {text stop : List Char} (h : text ++ stop <:+ input) :
    offset input (text ++ stop) = offset input stop ↔ text = [] := by
  obtain ⟨before, hinput⟩ := h
  have hstart := offset_append hinput.symm
  have hstop : offset input stop = Text.size (before ++ text) :=
    offset_append (by rw [← hinput, List.append_assoc])
  rw [hstart, hstop, Text.size_append, ← size_eq_zero_iff]
  omega

/-! ## Identifiers -/

theorem tryParseIdentifier_eq {blank name stop : List Char} (hblank : Blank blank)
    (hname : IsIdentifier name) (hstop : NotHead isIdentifierPart stop)
    (h : blank ++ (name ++ stop) <:+ input) :
    tryParseIdentifier input (blank ++ (name ++ stop)) = .ok (some name, stop) := by
  obtain ⟨hfirst, hpart⟩ := hname
  rename_i first part
  have hskip : skipWhitespace (blank ++ (first :: part ++ stop)) = first :: (part ++ stop) :=
    skipWhitespace_blank hblank
      (NotHead.cons (whitespace_of_identifierPart (identifierPart_of_start hfirst)) _)
  have hdrop : (part ++ stop).dropWhile isIdentifierPart = stop := by
    rw [List.dropWhile_append_of_pos hpart]
    cases stop with
    | nil => rfl
    | cons c stop => exact List.dropWhile_cons_of_neg (by simp [hstop c rfl])
  have hslice := slice_eq ((List.suffix_append blank (first :: part ++ stop)).trans h)
  simp only [tryParseIdentifier, hskip, hfirst, if_true, hdrop]
  rw [List.cons_append] at hslice
  rw [hslice]
  rfl

theorem tryParseIdentifier_none {rest : List Char}
    (h : NotHead isIdentifierStart (skipWhitespace rest)) :
    tryParseIdentifier input rest = .ok (none, skipWhitespace rest) := by
  unfold tryParseIdentifier
  cases hskip : skipWhitespace rest with
  | nil => rfl
  | cons first tail =>
      rw [hskip] at h
      simp [h first rfl]

/-- The parser finds the longest identifier, or none. -/
theorem tryParseIdentifier_cases {rest : List Char} (h : rest <:+ input) :
    (∃ blank name stop, rest = blank ++ (name ++ stop) ∧ Blank blank ∧ IsIdentifier name ∧
      NotHead isIdentifierPart stop ∧ tryParseIdentifier input rest = .ok (some name, stop)) ∨
    NotHead isIdentifierStart (skipWhitespace rest) ∧
      tryParseIdentifier input rest = .ok (none, skipWhitespace rest) := by
  obtain ⟨blank, hblank, hrest⟩ := exists_blank rest
  cases hskip : skipWhitespace rest with
  | nil =>
      have hnone : NotHead isIdentifierStart [] := nofun
      exact Or.inr ⟨hnone, hskip ▸ tryParseIdentifier_none (hskip ▸ hnone)⟩
  | cons first tail =>
      cases hfirst : isIdentifierStart first with
      | false =>
          have hnone := NotHead.cons hfirst tail
          exact Or.inr ⟨hnone, hskip ▸ tryParseIdentifier_none (hskip ▸ hnone)⟩
      | true =>
          have hpart : ∀ c ∈ tail.takeWhile isIdentifierPart, isIdentifierPart c = true :=
            fun _ hc => List.mem_takeWhile_imp hc
          have hstop : NotHead isIdentifierPart (tail.dropWhile isIdentifierPart) := by
            intro c hc
            have := List.head?_dropWhile_not isIdentifierPart tail
            rw [hc] at this
            exact this
          have hsplit : rest = blank ++
              (first :: tail.takeWhile isIdentifierPart ++ tail.dropWhile isIdentifierPart) := by
            rw [hrest, hskip, List.cons_append, List.takeWhile_append_dropWhile]
          refine Or.inl ⟨blank, first :: tail.takeWhile isIdentifierPart, _, hsplit, hblank,
            .intro hfirst hpart, hstop, ?_⟩
          rw [hsplit] at h ⊢
          exact tryParseIdentifier_eq hblank (.intro hfirst hpart) hstop h

end

/-! ## The grammar -/

/-- Where two pieces stand next to each other, a name does not run on. -/
def Separate (text rest : List Char) : Prop :=
  ∀ c ∈ text.getLast?, isIdentifierPart c = true → NotHead isIdentifierPart rest

def Keyword (keyword : List Char) : Prop :=
  keyword = [] ∨ ∃ gap, Blank gap ∧ keyword = "tuple".toList ++ gap

/-- The array of a length; none is the dynamic array. -/
def arrayType (ty : DynSolType) : Option ℕ → DynSolType
  | none => .array ty
  | some length => .fixedArray ty length

/-- A member's name behind its type, if it has one. -/
inductive PrintsName (type : List Char) : List Char → List Char → Prop
  | unnamed : PrintsName type [] []
  | named {gap name : List Char} : Blank gap → IsIdentifier name → Separate type (gap ++ name) →
      PrintsName type name (gap ++ name)

section

-- `DynSolType::parse` on a name, and the ways to write a length
variable (dynSolTypeParse : String → Except Report DynSolType) (spells : ℕ → List Char → Prop)

/-- The elementary names are those that `DynSolType::parse` recognises. -/
structure Elementary (name : List Char) (ty : DynSolType) : Prop where
  identifier : IsIdentifier name
  recognised : dynSolTypeParse (String.ofList name) = .ok ty

inductive PrintsLength : Option ℕ → List Char → Prop
  | dynamic : PrintsLength none []
  | fixed {n : ℕ} {digits : List Char} : spells n digits → 0 < n → n < 2 ^ 64 →
      PrintsLength (some n) digits

/-- The types of the language: arrays and tuples over the elementary ones. -/
inductive SolidityType : DynSolType → Prop
  | elementary {name : List Char} {ty : DynSolType} : Elementary dynSolTypeParse name ty → SolidityType ty
  | array {ty : DynSolType} : SolidityType ty → SolidityType (.array ty)
  | fixedArray {ty : DynSolType} {n : ℕ} : SolidityType ty → 0 < n → n < 2 ^ 64 →
      SolidityType (.fixedArray ty n)
  | tuple {types : List DynSolType} : (∀ ty ∈ types, SolidityType ty) → SolidityType (.tuple types)
  | customStruct {members : List (DynSolType × List Char)} : members ≠ [] →
      (∀ member ∈ members, SolidityType member.1) → (∀ member ∈ members, IsIdentifier member.2) →
      SolidityType
        (.customStruct "tuple" ((members.map Prod.snd).map String.ofList) (members.map Prod.fst))

mutual

/-- The texts of a type, from its first token to its last. -/
inductive Prints : DynSolType → List Char → Prop
  | elementary {name : List Char} {ty : DynSolType} : Elementary dynSolTypeParse name ty → Prints ty name
  | tuple {keyword text : List Char} {ty : DynSolType} : Keyword keyword → PrintsTuple ty text →
      Prints ty (keyword ++ '(' :: text)
  | array {ty : DynSolType} {text before inner digits after : List Char} {length : Option ℕ} :
      Prints ty text → Blank before → Blank inner → PrintsLength spells length digits → Blank after →
      Prints (arrayType ty length) (text ++ (before ++ '[' :: (inner ++ (digits ++ (after ++ [']'])))))

/-- The texts of a tuple behind the opening parenthesis. -/
inductive PrintsTuple : DynSolType → List Char → Prop
  | empty {blank : List Char} : Blank blank → PrintsTuple (.tuple []) (blank ++ [')'])
  | unnamed {before text : List Char} {members : List (DynSolType × List Char)} : Blank before →
      PrintsMembers members text → (∀ member ∈ members, member.2 = []) →
      PrintsTuple (.tuple (members.map Prod.fst)) (before ++ (text ++ [')']))
  | named {before text : List Char} {members : List (DynSolType × List Char)} : Blank before →
      PrintsMembers members text → (∀ member ∈ members, member.2 ≠ []) →
      PrintsTuple
        (.customStruct "tuple" ((members.map Prod.snd).map String.ofList) (members.map Prod.fst))
        (before ++ (text ++ [')']))

/-- The texts of the members with their names, with commas between them. -/
inductive PrintsMembers : List (DynSolType × List Char) → List Char → Prop
  | last {ty : DynSolType} {text name label after : List Char} : Prints ty text →
      PrintsName text name label → Blank after → PrintsMembers [(ty, name)] (text ++ (label ++ after))
  | cons {ty : DynSolType} {text name label after before rest : List Char}
      {members : List (DynSolType × List Char)} : Prints ty text → PrintsName text name label →
      Blank after → Blank before → PrintsMembers members rest →
      PrintsMembers ((ty, name) :: members) (text ++ (label ++ (after ++ ',' :: (before ++ rest))))

end

/-- The texts of a type with blanks around it. -/
def PrintsText (ty : DynSolType) (text : List Char) : Prop :=
  ∃ before inner after, text = before ++ (inner ++ after) ∧ Blank before ∧
    Prints dynSolTypeParse spells ty inner ∧ Blank after

end

end TxGen.AbiType
