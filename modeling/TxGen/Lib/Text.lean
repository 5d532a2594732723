import Mathlib

set_option autoImplicit false

/-! # Text as a list of characters

Blanks, trimming, lines and splitting, as string libraries that know Unicode have them, and slices at byte
offsets of the encoding, which exist at the boundaries of characters only. -/

namespace Text

/-! ## Blanks -/

/-- The property `White_Space` -/
def isWhitespace (c : Char) : Bool :=
  let code := c.toNat
  (9 ≤ code && code ≤ 13) || code = 0x20 || code = 0x85 || code = 0xa0 || code = 0x1680 ||
    (0x2000 ≤ code && code ≤ 0x200a) || code = 0x2028 || code = 0x2029 || code = 0x202f ||
    code = 0x205f || code = 0x3000

/-- Blank, tab, line feed, form feed and carriage return -/
def isAsciiWhitespace (c : Char) : Bool :=
  c = ' ' || c = '\t' || c = '\n' || c.toNat = 12 || c = '\r'

def trimStart (text : List Char) : List Char := text.dropWhile isWhitespace

def trimEnd (text : List Char) : List Char := (text.reverse.dropWhile isWhitespace).reverse

def trim (text : List Char) : List Char := trimEnd (trimStart text)

/-- The first of the words that blanks separate. -/
def firstWord (text : List Char) : Option (List Char) :=
  match (trimStart text).takeWhile fun c => !isWhitespace c with
  | [] => none
  | word => some word

/-- What stands before and after the first of a character. -/
def splitOnce (c : Char) : List Char → Option (List Char × List Char)
  | [] => none
  | d :: text =>
    if d = c then some ([], text)
    else (splitOnce c text).map fun (before, after) => (d :: before, after)

/-- A carriage return before the end of a line belongs to the end. -/
def stripReturn (line : List Char) : List Char :=
  if line.getLast? = some '\r' then line.dropLast else line

def linesFrom : List Char → List Char → List (List Char)
  | line, [] => if line = [] then [] else [line]
  | line, c :: text =>
    if c = '\n' then stripReturn line :: linesFrom [] text else linesFrom (line ++ [c]) text

/-- The lines of a text; a line feed ends a line. -/
def lines (text : List Char) : List (List Char) := linesFrom [] text

theorem linesFrom_append (line : List Char) {text : List Char} (h : '\n' ∉ text) (rest : List Char) :
    linesFrom line (text ++ '\n' :: rest) = stripReturn (line ++ text) :: lines rest := by
  induction text generalizing line with
  | nil => simp [linesFrom, lines]
  | cons c text ih =>
      rw [List.mem_cons, not_or] at h
      rw [List.cons_append, linesFrom, if_neg (Ne.symm h.1), ih (line ++ [c]) h.2, List.append_assoc,
        List.singleton_append]

theorem lines_append {text : List Char} (h : '\n' ∉ text) (rest : List Char) :
    lines (text ++ '\n' :: rest) = stripReturn text :: lines rest := linesFrom_append [] h rest

theorem trimStart_append {before : List Char} (h : ∀ c ∈ before, isWhitespace c = true)
    (text : List Char) : trimStart (before ++ text) = trimStart text := by
  unfold trimStart
  rw [List.dropWhile_append_of_pos h]

theorem trimEnd_append {after : List Char} (h : ∀ c ∈ after, isWhitespace c = true)
    (text : List Char) : trimEnd (text ++ after) = trimEnd text := by
  unfold trimEnd
  rw [List.reverse_append, List.dropWhile_append_of_pos fun c hc => h c (List.mem_reverse.1 hc)]

/-- A text that begins and ends with characters that are not blanks. -/
structure Solid (text : List Char) : Prop where
  ne_nil : text ≠ []
  first : ∀ c ∈ text.head?, isWhitespace c = false
  last : ∀ c ∈ text.getLast?, isWhitespace c = false

theorem Solid.trimStart {text : List Char} (h : Solid text) (rest : List Char) :
    Text.trimStart (text ++ rest) = text ++ rest := by
  cases text with
  | nil => exact absurd rfl h.ne_nil
  | cons c text => exact List.dropWhile_cons_of_neg (by simp [h.first c rfl])

theorem Solid.trimEnd {text : List Char} (h : Solid text) : Text.trimEnd text = text := by
  rcases List.eq_nil_or_concat text with rfl | ⟨text, c, rfl⟩
  · exact absurd rfl h.ne_nil
  · have hc := h.last c (by simp)
    simp [Text.trimEnd, hc]

/-- Trimming takes away the blanks around a text. -/
theorem Solid.trim {text before after : List Char} (h : Solid text)
    (hbefore : ∀ c ∈ before, isWhitespace c = true) (hafter : ∀ c ∈ after, isWhitespace c = true) :
    Text.trim (before ++ (text ++ after)) = text := by
  rw [Text.trim, trimStart_append hbefore, h.trimStart, trimEnd_append hafter, h.trimEnd]

theorem trim_append {after : List Char} (h : ∀ c ∈ after, isWhitespace c = true) (text : List Char) :
    trim (text ++ after) = trim text := by
  have hafter : after.dropWhile isWhitespace = [] := List.dropWhile_eq_nil_iff.2 h
  unfold trim trimStart
  rw [List.dropWhile_append, hafter]
  split
  · next hempty => rw [List.isEmpty_iff.1 hempty]
  · exact trimEnd_append h _

/-- The carriage return of a line's end would be trimmed. -/
theorem trim_stripReturn (line : List Char) : trim (stripReturn line) = trim line := by
  unfold stripReturn
  split
  · next hlast =>
      have hline := List.dropLast_append_getLast? '\r' hlast
      have hreturn : ∀ c ∈ ['\r'], isWhitespace c = true :=
        List.forall_mem_singleton.2 (by decide)
      have htrim := trim_append hreturn line.dropLast
      rw [hline] at htrim
      exact htrim.symm
  · rfl

/-- A text keeps a first character that is not a blank. -/
theorem head?_trim {before : List Char} (h : ∀ c ∈ before, isWhitespace c = true) {c : Char}
    (hc : isWhitespace c = false) (text : List Char) : (trim (before ++ c :: text)).head? = some c := by
  have hstart : trimStart (c :: text) = c :: text := List.dropWhile_cons_of_neg (by simp [hc])
  rw [trim, trimStart_append h, hstart, trimEnd, List.reverse_cons, List.head?_reverse,
    List.dropWhile_append]
  split
  · simp [hc]
  · simp

theorem trim_blank {text : List Char} (h : ∀ c ∈ text, isWhitespace c = true) : trim text = [] := by
  have htrim := trim_append h []
  rwa [List.nil_append] at htrim

/-- A word is solid. -/
theorem solid_of_word {word : List Char} (hne : word ≠ []) (h : ∀ c ∈ word, isWhitespace c = false) :
    Solid word where
  ne_nil := hne
  first := fun c hc => h c (List.mem_of_mem_head? hc)
  last := fun c hc => h c (List.mem_of_mem_getLast? hc)

/-- Solid texts with anything between them are solid. -/
theorem Solid.append {text text' : List Char} (h : Solid text) (h' : Solid text') (middle : List Char) :
    Solid (text ++ (middle ++ text')) where
  ne_nil := by simp [h.ne_nil]
  first := fun c hc => h.first c (by simpa [List.head?_append, h.ne_nil] using hc)
  last := fun c hc => h'.last c (by
    simpa [List.getLast?_append, List.getLast?_eq_none_iff, h'.ne_nil] using hc)

theorem firstWord_append {word : List Char} (hne : word ≠ []) (h : ∀ c ∈ word, isWhitespace c = false)
    {rest : List Char} (hrest : ∀ c ∈ rest.head?, isWhitespace c = true) :
    firstWord (word ++ rest) = some word := by
  have htake : (word ++ rest).takeWhile (fun c => !isWhitespace c) = word := by
    rw [List.takeWhile_append_of_pos fun c hc => by simp [h c hc]]
    cases rest with
    | nil => simp
    | cons c rest => rw [List.takeWhile_cons_of_neg (by simp [hrest c rfl]), List.append_nil]
  rw [firstWord, (solid_of_word hne h).trimStart, htake]
  cases word with
  | nil => exact absurd rfl hne
  | cons c word => rfl

/-! ## Slices -/

/-- The length of the encoding -/
def size (text : List Char) : ℕ := (text.map Char.utf8Size).sum

/-- The offset of the first character with a property. -/
def find? (p : Char → Bool) : List Char → Option ℕ
  | [] => none
  | c :: text => if p c then some 0 else (find? p text).map (c.utf8Size + ·)

/-- The text up to an offset; without a character boundary there, nothing. -/
def sliceTo : ℕ → List Char → Option (List Char)
  | 0, _ => some []
  | _ + 1, [] => none
  | i + 1, c :: text =>
    if c.utf8Size ≤ i + 1 then (sliceTo (i + 1 - c.utf8Size) text).map (c :: ·) else none

/-- The text from an offset on. -/
def sliceFrom : ℕ → List Char → Option (List Char)
  | 0, text => some text
  | _ + 1, [] => none
  | i + 1, c :: text => if c.utf8Size ≤ i + 1 then sliceFrom (i + 1 - c.utf8Size) text else none

theorem size_append (text text' : List Char) : size (text ++ text') = size text + size text' := by
  simp [size]

theorem size_cons (c : Char) (text : List Char) : size (c :: text) = c.utf8Size + size text := rfl

theorem sliceTo_cons (i : ℕ) (c : Char) (text : List Char) :
    sliceTo (c.utf8Size + i) (c :: text) = (sliceTo i text).map (c :: ·) := by
  have hsize := c.utf8Size_pos
  cases hoffset : c.utf8Size + i with
  | zero => omega
  | succ n =>
      rw [sliceTo, if_pos (by omega)]
      congr 2
      omega

theorem sliceFrom_cons (i : ℕ) (c : Char) (text : List Char) :
    sliceFrom (c.utf8Size + i) (c :: text) = sliceFrom i text := by
  have hsize := c.utf8Size_pos
  cases hoffset : c.utf8Size + i with
  | zero => omega
  | succ n =>
      rw [sliceFrom, if_pos (by omega)]
      congr 1
      omega

theorem sliceTo_append (before after : List Char) :
    sliceTo (size before) (before ++ after) = some before := by
  induction before with
  | nil => exact sliceTo.eq_1 after
  | cons c before ih => rw [size_cons, List.cons_append, sliceTo_cons, ih, Option.map_some]

theorem sliceFrom_append (before after : List Char) :
    sliceFrom (size before) (before ++ after) = some after := by
  induction before with
  | nil => exact sliceFrom.eq_1 after
  | cons c before ih => rw [size_cons, List.cons_append, sliceFrom_cons, ih]

/-- The first character with a property is behind what does not have it. -/
theorem find?_append {p : Char → Bool} {before : List Char} (hbefore : ∀ c ∈ before, p c = false)
    {c : Char} (hc : p c = true) (after : List Char) :
    find? p (before ++ c :: after) = some (size before) := by
  induction before with
  | nil => rw [List.nil_append, find?, if_pos hc]; rfl
  | cons d before ih =>
      obtain ⟨hd, hrest⟩ := List.forall_mem_cons.1 hbefore
      rw [List.cons_append, find?, if_neg (by simp [hd]), ih hrest, Option.map_some, size_cons]

theorem find?_eq_none {p : Char → Bool} {text : List Char} (h : ∀ c ∈ text, p c = false) :
    find? p text = none := by
  induction text with
  | nil => rfl
  | cons c text ih =>
      obtain ⟨hc, hrest⟩ := List.forall_mem_cons.1 h
      rw [find?, if_neg (by simp [hc]), ih hrest, Option.map_none]

/-- Where a character is found, the text splits. -/
theorem find?_eq_some {p : Char → Bool} {text : List Char} {i : ℕ} (h : find? p text = some i) :
    ∃ before c after, text = before ++ c :: after ∧ i = size before ∧ p c = true := by
  induction text generalizing i with
  | nil => cases h
  | cons c text ih =>
      rw [find?] at h
      split at h
      · next hc => exact ⟨[], c, text, rfl, (Option.some.inj h).symm, hc⟩
      · obtain ⟨j, hj, rfl⟩ := Option.map_eq_some_iff.1 h
        obtain ⟨before, d, after, rfl, rfl, hd⟩ := ih hj
        exact ⟨c :: before, d, after, rfl, (size_cons c before).symm, hd⟩

end Text
