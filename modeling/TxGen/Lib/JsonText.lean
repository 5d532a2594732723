import Mathlib

set_option autoImplicit false

/-! # JSON texts

The grammar of JSON as trees that keep the white space, the escapes and the form of the numbers, so
that each valid text is the `text` of a tree. Strings are decoded to UTF-16 code units, as escapes
are written in these. -/

namespace JsonText

/-! ## White space -/

inductive Blank
  | space
  | tab
  | newline
  | carriageReturn
deriving DecidableEq

def Blank.byte : Blank → UInt8
  | space => 0x20
  | tab => 0x09
  | newline => 0x0a
  | carriageReturn => 0x0d

abbrev Blanks := List Blank

def Blanks.text (blanks : Blanks) : List UInt8 := List.map Blank.byte blanks

/-! ## Strings -/

/-- The escapes of one letter -/
inductive Escape
  | quote
  | backslash
  | slash
  | backspace
  | formFeed
  | newline
  | carriageReturn
  | tab
deriving DecidableEq

/-- The letter behind the backslash -/
def Escape.letter : Escape → UInt8
  | quote => 0x22
  | backslash => 0x5c
  | slash => 0x2f
  | backspace => 0x62
  | formFeed => 0x66
  | newline => 0x6e
  | carriageReturn => 0x72
  | tab => 0x74

/-- The code unit that is meant -/
def Escape.unit : Escape → ℕ
  | quote => 0x22
  | backslash => 0x5c
  | slash => 0x2f
  | backspace => 0x08
  | formFeed => 0x0c
  | newline => 0x0a
  | carriageReturn => 0x0d
  | tab => 0x09

structure HexDigit where
  value : Fin 16
  upper : Bool
deriving DecidableEq

def HexDigit.byte (digit : HexDigit) : UInt8 :=
  if digit.value.val < 10 then UInt8.ofNat (0x30 + digit.value.val)
  else if digit.upper then UInt8.ofNat (0x37 + digit.value.val)
  else UInt8.ofNat (0x57 + digit.value.val)

/-- A character that a string holds as it is -/
def IsPlain (c : Char) : Prop := 0x20 ≤ c.toNat ∧ c.toNat ≠ 0x22 ∧ c.toNat ≠ 0x5c

instance (c : Char) : Decidable (IsPlain c) := inferInstanceAs (Decidable (_ ∧ _ ∧ _))

inductive Element
  | plain (c : Char) (h : IsPlain c)
  | escape (escape : Escape)
  | unicode (a b c d : HexDigit)

def Element.text : Element → List UInt8
  | plain c _ => String.utf8EncodeChar c
  | escape e => [0x5c, e.letter]
  | unicode a b c d => [0x5c, 0x75, a.byte, b.byte, c.byte, d.byte]

/-- The UTF-16 code units of a character -/
def utf16 (c : Char) : List ℕ :=
  if c.toNat < 0x10000 then [c.toNat]
  else [0xd800 + (c.toNat - 0x10000) / 0x400, 0xdc00 + (c.toNat - 0x10000) % 0x400]

def Element.units : Element → List ℕ
  | plain c _ => utf16 c
  | escape e => [e.unit]
  | unicode a b c d =>
    [((a.value.val * 16 + b.value.val) * 16 + c.value.val) * 16 + d.value.val]

/-- What a string says -/
def decoded (elements : List Element) : List ℕ := elements.flatMap Element.units

/-- The text of a string between its quotes -/
def body (elements : List Element) : List UInt8 := elements.flatMap Element.text

def quoted (elements : List Element) : List UInt8 := 0x22 :: (body elements ++ [0x22])

/-! ## Numbers -/

structure Digits where
  head : Fin 10
  tail : List (Fin 10)

def digit (d : Fin 10) : UInt8 := UInt8.ofNat (0x30 + d.val)

def Digits.text (digits : Digits) : List UInt8 := digit digits.head :: digits.tail.map digit

inductive Sign
  | plus
  | minus

def Sign.byte : Sign → UInt8
  | plus => 0x2b
  | minus => 0x2d

structure Exponent where
  upper : Bool
  sign : Option Sign
  digits : Digits

def Exponent.text (e : Exponent) : List UInt8 :=
  (if e.upper then 0x45 else 0x65) :: ((e.sign.map Sign.byte).toList ++ e.digits.text)

/-- A number, without leading zeros -/
structure Number where
  negative : Bool
  whole : Digits
  canonical : whole.head = 0 → whole.tail = []
  fraction : Option Digits
  exponent : Option Exponent

def Number.text (n : Number) : List UInt8 :=
  (if n.negative then [0x2d] else []) ++ n.whole.text ++
    (n.fraction.map fun digits => 0x2e :: digits.text).getD [] ++ (n.exponent.map Exponent.text).getD []

/-! ## Values -/

mutual

inductive Value
  | null
  | true
  | false
  | number (number : Number)
  | string (elements : List Element)
  | array (blanks : Blanks) (items : List Item)
  | object (blanks : Blanks) (entries : List Entry)

/-- A value in an array -/
inductive Item
  | mk (before : Blanks) (value : Value) (after : Blanks)

/-- A key and its value in an object -/
inductive Entry
  | mk (before : Blanks) (key : List Element) (afterKey beforeValue : Blanks) (value : Value)
      (after : Blanks)

end

mutual

def Value.text : Value → List UInt8
  | .null => [0x6e, 0x75, 0x6c, 0x6c]
  | .true => [0x74, 0x72, 0x75, 0x65]
  | .false => [0x66, 0x61, 0x6c, 0x73, 0x65]
  | .number number => number.text
  | .string elements => quoted elements
  | .array blanks items => 0x5b :: (blanks.text ++ itemsText items ++ [0x5d])
  | .object blanks entries => 0x7b :: (blanks.text ++ entriesText entries ++ [0x7d])

def Item.text : Item → List UInt8
  | .mk before value after => before.text ++ value.text ++ after.text

def Entry.text : Entry → List UInt8
  | .mk before key afterKey beforeValue value after =>
    before.text ++ quoted key ++ afterKey.text ++ 0x3a :: (beforeValue.text ++ value.text ++ after.text)

/-- Items with commas between them -/
def itemsText : List Item → List UInt8
  | [] => []
  | [item] => item.text
  | item :: items => item.text ++ 0x2c :: itemsText items

def entriesText : List Entry → List UInt8
  | [] => []
  | [entry] => entry.text
  | entry :: entries => entry.text ++ 0x2c :: entriesText entries

end

namespace Entry

def key : Entry → List Element
  | mk _ key _ _ _ _ => key

def value : Entry → Value
  | mk _ _ _ _ value _ => value

end Entry

/-- A text that is an object, with white space around it -/
structure ObjectText where
  before : Blanks
  blanks : Blanks
  entries : List Entry
  after : Blanks

def ObjectText.text (object : ObjectText) : List UInt8 :=
  object.before.text ++ (Value.object object.blanks object.entries).text ++ object.after.text

/-! ## The bytes of a text -/

/-- A byte inside a string that neither ends it nor escapes the next one -/
def Inert (byte : UInt8) : Prop := byte ≠ 0x22 ∧ byte ≠ 0x5c

theorem toNat_utf8 {c : Char} {b : UInt8} (h : b ∈ String.utf8EncodeChar c) :
    (c.toNat < 128 ∧ b.toNat = c.toNat) ∨ (128 ≤ c.toNat ∧ 128 ≤ b.toNat) := by
  have hc : c.val.toNat = c.toNat := rfl
  unfold String.utf8EncodeChar at h
  simp only [hc] at h
  split_ifs at h <;> simp only [List.mem_cons, List.not_mem_nil, or_false] at h
  · subst h
    refine Or.inl ⟨by omega, ?_⟩
    rw [UInt8.toNat_ofNat']
    omega
  all_goals
    refine Or.inr ⟨by omega, ?_⟩
    rcases h with rfl | rfl | rfl | rfl <;> rw [UInt8.toNat_ofNat'] <;> omega

theorem utf8_of_ascii {c : Char} (h : c.toNat < 128) :
    String.utf8EncodeChar c = [UInt8.ofNat c.toNat] := by
  have hc : c.val.toNat = c.toNat := rfl
  unfold String.utf8EncodeChar
  rw [hc, if_pos (by omega)]

theorem inert_plain {c : Char} (h : IsPlain c) {b : UInt8} (hb : b ∈ String.utf8EncodeChar c) :
    Inert b := by
  obtain ⟨-, hquote, hbackslash⟩ := h
  rcases toNat_utf8 hb with ⟨-, heq⟩ | ⟨-, hhigh⟩
  · constructor
    · rintro rfl
      exact hquote heq.symm
    · rintro rfl
      exact hbackslash heq.symm
  · constructor <;> rintro rfl <;> exact absurd hhigh (by decide)

/-- A hexadecimal digit is a letter or a digit. -/
theorem inert_hexDigit (d : HexDigit) : Inert d.byte := by
  obtain ⟨value, upper⟩ := d
  revert value upper
  unfold Inert HexDigit.byte
  decide

/-- The bytes of numbers and keywords neither begin a string or a composite value nor end a value. -/
def IsToken (byte : UInt8) : Prop :=
  byte ∉ ([0x20, 0x09, 0x0a, 0x0c, 0x0d, 0x22, 0x2c, 0x5b, 0x5d, 0x7b, 0x7d] : List UInt8)

instance (byte : UInt8) : Decidable (IsToken byte) := inferInstanceAs (Decidable (¬ _))

theorem isToken_of_all {text : List UInt8} (h : text.all (fun byte => decide (IsToken byte)) = true) :
    ∀ byte ∈ text, IsToken byte := by
  simpa using h

theorem isToken_digit (d : Fin 10) : IsToken (digit d) := by
  revert d
  decide

theorem isToken_digits {digits : Digits} {b : UInt8} (h : b ∈ digits.text) : IsToken b := by
  rcases List.mem_cons.1 h with rfl | h
  · exact isToken_digit _
  · obtain ⟨d, -, rfl⟩ := List.mem_map.1 h
    exact isToken_digit d

theorem isToken_exponent {e : Exponent} {b : UInt8} (h : b ∈ e.text) : IsToken b := by
  obtain ⟨upper, sign, digits⟩ := e
  simp only [Exponent.text, List.mem_cons, List.mem_append] at h
  rcases h with h | h | h
  · cases upper with
    | false =>
        obtain rfl : b = 0x65 := by simpa using h
        decide
    | true =>
        obtain rfl : b = 0x45 := by simpa using h
        decide
  · cases sign with
    | none => simp at h
    | some sign =>
        obtain rfl : b = sign.byte := by simpa using h
        cases sign <;> decide
  · exact isToken_digits h

theorem isToken_number {n : Number} {b : UInt8} (h : b ∈ n.text) : IsToken b := by
  obtain ⟨negative, whole, canonical, fraction, exponent⟩ := n
  simp only [Number.text, List.mem_append] at h
  rcases h with ((h | h) | h) | h
  · cases negative with
    | false => simp at h
    | true =>
        obtain rfl : b = 0x2d := by simpa using h
        decide
  · exact isToken_digits h
  · cases fraction with
    | none => simp at h
    | some digits =>
        rcases List.mem_cons.1 h with rfl | h
        · decide
        · exact isToken_digits h
  · cases exponent with
    | none => simp at h
    | some e => exact isToken_exponent h

theorem number_ne_nil (n : Number) : n.text ≠ [] := by
  simp [Number.text, Digits.text]

end JsonText
