import TxGen.Metrics.Prometheus

set_option autoImplicit false

/-! # The text exposition format

A text is a list of lines: samples, comments and blank lines. Within a line blanks and tabs may stand
between any two tokens. The parser reads every text of the format, but it takes blanks between the name of
a sample and its opening brace for a part of the name, and blanks between an equals sign and the opening
quote for a part of the value. -/

namespace TxGen.Metrics

namespace Exposition

/-! ## Texts of the format -/

/-- Blanks and tabs -/
structure Blanks where
  chars : List Char
  blank : ∀ c ∈ chars, c = ' ' ∨ c = '\t'

/-- Characters of one kind, at least one -/
structure Token (kind : Char → Bool) where
  chars : List Char
  ne_nil : chars ≠ []
  ofKind : ∀ c ∈ chars, kind c = true

/-- Of metric names; the format has no digit in the first place. -/
def isMetricChar (c : Char) : Bool := c.isAlphanum || c = '_' || c = ':'

/-- Of label names; the format has no digit in the first place. -/
def isLabelChar (c : Char) : Bool := c.isAlphanum || c = '_'

/-- Of values and timestamps -/
def isNumberChar (c : Char) : Bool := c.isAlphanum || c = '+' || c = '-' || c = '.' || c = '_'

def escapeChar (c : Char) : List Char :=
  if c = '\\' then ['\\', '\\'] else if c = '"' then ['\\', '"'] else if c = '\n' then ['\\', 'n']
  else [c]

/-- `name="value"`, where the value is any text -/
structure Label where
  beforeName : Blanks
  name : Token isLabelChar
  afterName : Blanks
  beforeValue : Blanks
  value : List Char
  afterValue : Blanks

def Label.text (label : Label) : List Char :=
  label.beforeName.chars ++ label.name.chars ++ label.afterName.chars ++ '=' ::
    (label.beforeValue.chars ++ '"' :: (label.value.flatMap escapeChar ++ '"' :: label.afterValue.chars))

structure LabelList where
  beforeBrace : Blanks
  labels : List Label
  distinct : (labels.map (·.name.chars)).Nodup
  trailingComma : Bool
  beforeClose : Blanks

def labelsText : List Label → List Char
  | [] => []
  | [label] => label.text
  | label :: labels => label.text ++ ',' :: labelsText labels

/-- The text between the braces -/
def LabelList.body (list : LabelList) : List Char :=
  labelsText list.labels ++ (if list.trailingComma && !list.labels.isEmpty then [','] else []) ++
    list.beforeClose.chars

def LabelList.text (list : LabelList) : List Char :=
  list.beforeBrace.chars ++ '\x7b' :: (list.body ++ ['\x7d'])

structure Timestamp where
  before : Blanks
  separated : before.chars ≠ []
  token : Token isNumberChar

/-- A sample, as it is printed; `parse` reads the number. -/
structure PrintedSample (parse : String → Option F64) where
  before : Blanks
  name : Token isMetricChar
  labels : Option LabelList
  beforeValue : Blanks
  separated : labels = none → beforeValue.chars ≠ []
  token : Token isNumberChar
  value : F64
  reads : parseValue parse (String.ofList token.chars) = some value
  timestamp : Option Timestamp
  after : Blanks

inductive Line (parse : String → Option F64)
  | blank (blanks : Blanks)
  | comment (before : Blanks) (text : List Char) (oneLine : '\n' ∉ text)
  | sample (printed : PrintedSample parse)

variable {parse : String → Option F64}

def timestampText : Option Timestamp → List Char
  | none => []
  | some timestamp => timestamp.before.chars ++ timestamp.token.chars

/-- The value and the timestamp -/
def PrintedSample.numbers (printed : PrintedSample parse) : List Char :=
  printed.token.chars ++ timestampText printed.timestamp

def PrintedSample.core (printed : PrintedSample parse) : List Char :=
  printed.name.chars ++ ((printed.labels.map LabelList.text).getD [] ++
    (printed.beforeValue.chars ++ printed.numbers))

def Line.text : Line parse → List Char
  | .blank blanks => blanks.chars
  | .comment before text _ => before.chars ++ '#' :: text
  | .sample printed => printed.before.chars ++ (printed.core ++ printed.after.chars)

/-- The text of some lines; each ends with a line feed. -/
def print (lines : List (Line parse)) : List Char := lines.flatMap fun line => line.text ++ ['\n']

def LabelMap.ofPairs (pairs : List (String × String)) : LabelMap :=
  pairs.foldl (fun labels pair => labels.insert pair.1 pair.2) .empty

section

variable (offsetMs unixMs : UInt64)

/-- The sample that was printed -/
def PrintedSample.sample (printed : PrintedSample parse) : Sample where
  name := String.ofList printed.name.chars
  labels := LabelMap.ofPairs (((printed.labels.map (·.labels)).getD []).map fun label =>
    (String.ofList label.name.chars, String.ofList label.value))
  value := printed.value
  offsetMs
  unixMs

def Line.sample? : Line parse → Option Sample
  | .sample printed => some (printed.sample offsetMs unixMs)
  | _ => none

/-- The samples of some lines, in order -/
def samples (lines : List (Line parse)) : List Sample := lines.filterMap (Line.sample? offsetMs unixMs)

end

/-- No blank stands before an opening brace, nor before the opening quote of a value. -/
def LabelList.Tight (list : LabelList) : Prop :=
  list.beforeBrace.chars = [] ∧ ∀ label ∈ list.labels, label.beforeValue.chars = []

def Tight (lines : List (Line parse)) : Prop :=
  ∀ printed, Line.sample printed ∈ lines → ∀ list ∈ printed.labels, list.Tight

/-! ## Characters -/

/-- The characters of tokens are neither blanks nor those that the parser looks for. -/
structure Plain (c : Char) : Prop where
  lower : 43 ≤ c.toNat
  upper : c.toNat ≤ 122
  not_comma : c.toNat ≠ 44
  not_equals : c.toNat ≠ 61

theorem plain_of_alphanum {c : Char} (h : c.isAlphanum = true) : Plain c := by
  simp only [Char.isAlphanum, Char.isAlpha, Char.isUpper, Char.isLower, Char.isDigit, Bool.or_eq_true,
    Bool.and_eq_true, decide_eq_true_eq, ge_iff_le, UInt32.le_iff_toNat_le] at h
  have htoNat : c.toNat = c.val.toNat := rfl
  have hcodes : 'A'.val.toNat = 65 ∧ 'Z'.val.toNat = 90 ∧ 'a'.val.toNat = 97 ∧ 'z'.val.toNat = 122 ∧
      '0'.val.toNat = 48 ∧ '9'.val.toNat = 57 := by decide
  constructor <;> omega

theorem plain_of_metric {c : Char} (h : isMetricChar c = true) : Plain c := by
  simp only [isMetricChar, Bool.or_eq_true, decide_eq_true_eq] at h
  rcases h with (h | rfl) | rfl
  · exact plain_of_alphanum h
  all_goals constructor <;> decide

theorem plain_of_label {c : Char} (h : isLabelChar c = true) : Plain c := by
  simp only [isLabelChar, Bool.or_eq_true, decide_eq_true_eq] at h
  rcases h with h | rfl
  · exact plain_of_alphanum h
  · constructor <;> decide

theorem plain_of_number {c : Char} (h : isNumberChar c = true) : Plain c := by
  simp only [isNumberChar, Bool.or_eq_true, decide_eq_true_eq] at h
  rcases h with (((h | rfl) | rfl) | rfl) | rfl
  · exact plain_of_alphanum h
  all_goals constructor <;> decide

theorem Plain.not_whitespace {c : Char} (h : Plain c) : Text.isWhitespace c = false := by
  obtain ⟨hlower, hupper, -, -⟩ := h
  simp only [Text.isWhitespace, Bool.or_eq_false_iff, Bool.and_eq_false_iff, decide_eq_false_iff_not]
  omega

theorem Plain.not_ascii {c : Char} (h : Plain c) : Text.isAsciiWhitespace c = false := by
  obtain ⟨hlower, hupper, -, -⟩ := h
  simp only [Text.isAsciiWhitespace, Bool.or_eq_false_iff, decide_eq_false_iff_not]
  refine ⟨⟨⟨⟨?_, ?_⟩, ?_⟩, by omega⟩, ?_⟩
  all_goals
    rintro rfl
    revert hlower
    decide

theorem Plain.ne {c : Char} (h : Plain c) : c ≠ '\x7b' ∧ c ≠ '\x7d' ∧ c ≠ '#' ∧ c ≠ '\n' ∧ c ≠ ',' ∧ c ≠ '=' := by
  obtain ⟨hlower, hupper, hcomma, hequals⟩ := h
  refine ⟨?_, ?_, ?_, ?_, ?_, ?_⟩
  all_goals
    rintro rfl
    revert hlower hupper hcomma hequals
    decide

theorem Blanks.whitespace (blanks : Blanks) : ∀ c ∈ blanks.chars, Text.isWhitespace c = true := by
  intro c hc
  rcases blanks.blank c hc with rfl | rfl <;> decide

theorem Blanks.ne (blanks : Blanks) : ∀ c ∈ blanks.chars,
    c ≠ '\x7b' ∧ c ≠ '\x7d' ∧ c ≠ '\n' ∧ c ≠ ',' ∧ c ≠ '=' ∧ c ≠ '"' ∧ c ≠ '\\' := by
  intro c hc
  rcases blanks.blank c hc with rfl | rfl <;> decide

/-! ## Reading labels -/

variable {s : List Char} {state state' state'' : LabelState} {chars chars' key value : List Char}
variable {labels : LabelMap}

/-- The loop reads the characters and goes on in another state. -/
def Reads (s chars : List Char) (state state' : LabelState) : Prop :=
  ∀ rest idx, parseLabelsFrom s (chars ++ rest) idx state =
    parseLabelsFrom s rest (idx + Text.size chars) state'

theorem Reads.nil (s : List Char) (state : LabelState) : Reads s [] state state := fun _ _ => rfl

theorem Reads.append (h : Reads s chars state state') (h' : Reads s chars' state' state'') :
    Reads s (chars ++ chars') state state'' := by
  intro rest idx
  rw [List.append_assoc, h, h', Text.size_append, Nat.add_assoc]

theorem Reads.cons {ch : Char} (h : Reads s [ch] state state') (h' : Reads s chars state' state'') :
    Reads s (ch :: chars) state state'' := h.append h'

theorem reads_step (s : List Char) (state : LabelState) (ch : Char)
    (hescape : ¬ (ch = '\\' ∧ state.inQuotes = true))
    (hclose : ¬ (ch = '\x7d' ∧ (!state.inQuotes) = true)) : Reads s [ch] state (state.step ch) := by
  intro rest idx
  rw [List.singleton_append, parseLabelsFrom.eq_def]
  simp only [hescape, hclose, if_false]
  rfl

/-- The loop outside of a value -/
def named (labels : LabelMap) (key : List Char) : LabelState := { labels, key }

/-- The loop in a value, before its opening quote -/
def pending (labels : LabelMap) (key value : List Char) : LabelState :=
  { labels, key, value, inValue := true }

/-- The loop between the quotes -/
def quoted (labels : LabelMap) (key value : List Char) : LabelState :=
  { labels, key, value, inValue := true, inQuotes := true }

theorem reads_key (s : List Char) (labels : LabelMap) (key : List Char)
    (h : ∀ c ∈ chars, c ≠ '\x7d' ∧ c ≠ '=' ∧ c ≠ ',') :
    Reads s chars (named labels key) (named labels (key ++ chars)) := by
  induction chars generalizing key with
  | nil =>
      rw [List.append_nil]
      exact Reads.nil s _
  | cons c chars ih =>
      obtain ⟨⟨hclose, hequals, hcomma⟩, hrest⟩ := List.forall_mem_cons.1 h
      have hstep : (named labels key).step c = named labels (key ++ [c]) := by
        simp [LabelState.step, named, hequals, hcomma]
      have hfirst := reads_step s (named labels key) c (by simp [named])
        (by simp [hclose])
      rw [hstep] at hfirst
      refine hfirst.cons ?_
      have hlater := ih (key ++ [c]) hrest
      rwa [List.append_assoc] at hlater

/-- What stands between the equals sign and the quote goes into the value. -/
theorem reads_pending (labels : LabelMap) (key value : List Char) (blanks : Blanks) :
    Reads s blanks.chars (pending labels key value) (pending labels key (value ++ blanks.chars)) := by
  have hne := blanks.ne
  generalize blanks.chars = chars at hne ⊢
  induction chars generalizing value with
  | nil =>
      rw [List.append_nil]
      exact Reads.nil s _
  | cons c chars ih =>
      obtain ⟨⟨-, hclose, -, hcomma, -, hquote, -⟩, hrest⟩ := List.forall_mem_cons.1 hne
      have hstep : (pending labels key value).step c = pending labels key (value ++ [c]) := by
        simp [LabelState.step, pending, hquote, hcomma]
      have hfirst := reads_step s (pending labels key value) c
        (by simp [pending]) (by simp [hclose])
      rw [hstep] at hfirst
      refine hfirst.cons ?_
      have hlater := ih (value ++ [c]) hrest
      rwa [List.append_assoc] at hlater

/-- What is escaped between the quotes is the value. -/
theorem reads_escaped (labels : LabelMap) (key value text : List Char) :
    Reads s (text.flatMap escapeChar) (quoted labels key value) (quoted labels key (value ++ text)) := by
  induction text generalizing value with
  | nil =>
      rw [List.append_nil]
      exact Reads.nil s _
  | cons c text ih =>
      rw [List.flatMap_cons]
      have hlater := ih (value ++ [c])
      rw [List.append_assoc] at hlater
      refine Reads.append ?_ hlater
      have hescape (e : Char) : Reads s ['\\', e] (quoted labels key value)
          (quoted labels key (value ++ [if e = 'n' then '\n' else e])) := by
        intro rest idx
        rw [List.cons_append, List.singleton_append, parseLabelsFrom.eq_def]
        simp [quoted, Text.size, Nat.add_assoc]
      unfold escapeChar
      split
      · next hc =>
          subst hc
          exact hescape '\\'
      · split
        · next hc =>
            subst hc
            exact hescape '"'
        · split
          · next hc =>
              subst hc
              exact hescape 'n'
          · next hbackslash hquote _ =>
              have hstep : (quoted labels key value).step c = quoted labels key (value ++ [c]) := by
                simp [LabelState.step, quoted, hquote]
              rw [← hstep]
              exact reads_step s _ c (by simp [hbackslash]) (by simp [quoted])

/-- The pair that the parser makes of a label -/
def Label.pair (label : Label) : String × String :=
  (String.ofList label.name.chars, String.ofList (label.beforeValue.chars ++ label.value))

theorem Label.trim_name (label : Label) (hkey : ∀ c ∈ key, Text.isWhitespace c = true) :
    Text.trim (key ++ (label.beforeName.chars ++ label.name.chars ++ label.afterName.chars)) =
      label.name.chars := by
  have hname : Text.Solid label.name.chars := Text.solid_of_word label.name.ne_nil fun c hc =>
    (plain_of_label (label.name.ofKind c hc)).not_whitespace
  have hbefore : ∀ c ∈ key ++ label.beforeName.chars, Text.isWhitespace c = true := by
    intro c hc
    rcases List.mem_append.1 hc with hc | hc
    · exact hkey c hc
    · exact label.beforeName.whitespace c hc
  have htrim := hname.trim hbefore label.afterName.whitespace
  rwa [List.append_assoc, ← List.append_assoc, ← List.append_assoc] at htrim ⊢

theorem reads_label (labels : LabelMap) (hkey : ∀ c ∈ key, Text.isWhitespace c = true) (label : Label) :
    Reads s label.text (named labels key)
      (named (labels.insert label.pair.1 label.pair.2) label.afterValue.chars) := by
  have hfirst : ∀ c ∈ label.beforeName.chars ++ label.name.chars ++ label.afterName.chars,
      c ≠ '\x7d' ∧ c ≠ '=' ∧ c ≠ ',' := by
    intro c hc
    simp only [List.mem_append] at hc
    rcases hc with (hc | hc) | hc
    · exact ⟨(label.beforeName.ne c hc).2.1, (label.beforeName.ne c hc).2.2.2.2.1,
        (label.beforeName.ne c hc).2.2.2.1⟩
    · have hne := (plain_of_label (label.name.ofKind c hc)).ne
      exact ⟨hne.2.1, hne.2.2.2.2.2, hne.2.2.2.2.1⟩
    · exact ⟨(label.afterName.ne c hc).2.1, (label.afterName.ne c hc).2.2.2.2.1,
        (label.afterName.ne c hc).2.2.2.1⟩
  have hname := reads_key s labels key hfirst
  generalize hread : key ++ (label.beforeName.chars ++ label.name.chars ++ label.afterName.chars) =
    read at hname
  have htrim : Text.trim read = label.name.chars := hread ▸ label.trim_name hkey
  have hequals : Reads s ['='] (named labels read) (pending labels read []) :=
    reads_step s (named labels read) '=' (by simp) (by simp)
  have hbefore := reads_pending (s := s) labels read [] label.beforeValue
  have hopen : Reads s ['"'] (pending labels read label.beforeValue.chars)
      (quoted labels read label.beforeValue.chars) :=
    reads_step s (pending labels read label.beforeValue.chars) '"' (by simp) (by simp)
  have hvalue := reads_escaped (s := s) labels read label.beforeValue.chars label.value
  have hcommit : (quoted labels read (label.beforeValue.chars ++ label.value)).step '"' =
      named (labels.insert label.pair.1 label.pair.2) [] := by
    simp [LabelState.step, quoted, LabelState.commit, named, Label.pair, htrim]
  have hquote := reads_step s (quoted labels read (label.beforeValue.chars ++ label.value)) '"' (by simp) (by simp)
  rw [hcommit] at hquote
  have hlast : ∀ c ∈ label.afterValue.chars, c ≠ '\x7d' ∧ c ≠ '=' ∧ c ≠ ',' := fun c hc =>
    ⟨(label.afterValue.ne c hc).2.1, (label.afterValue.ne c hc).2.2.2.2.1,
      (label.afterValue.ne c hc).2.2.2.1⟩
  have hafter := reads_key s (labels.insert label.pair.1 label.pair.2) [] hlast
  exact hname.append (hequals.cons (hbefore.append (hopen.cons (hvalue.append (hquote.cons hafter)))))

/-- A comma between pairs changes nothing. -/
theorem reads_comma (labels : LabelMap) (key : List Char) :
    Reads s [','] (named labels key) (named labels key) :=
  reads_step s (named labels key) ',' (by simp) (by simp)

/-- The labels that the parser makes of a list -/
def readPairs (labels : LabelMap) (pairs : List (String × String)) : LabelMap :=
  pairs.foldl (fun labels pair => labels.insert pair.1 pair.2) labels

theorem reads_labels (list : List Label) (labels : LabelMap)
    (hkey : ∀ c ∈ key, Text.isWhitespace c = true) :
    ∃ key', (∀ c ∈ key', Text.isWhitespace c = true) ∧ Reads s (labelsText list) (named labels key)
      (named (readPairs labels (list.map Label.pair)) key') := by
  induction list generalizing labels key with
  | nil => exact ⟨key, hkey, Reads.nil s _⟩
  | cons label list ih =>
      have hlabel := reads_label (s := s) labels hkey label
      have hblank := label.afterValue.whitespace
      cases list with
      | nil => exact ⟨_, hblank, hlabel⟩
      | cons label' list =>
          obtain ⟨key', hkey', hrest⟩ := ih (labels.insert label.pair.1 label.pair.2) hblank
          exact ⟨key', hkey', hlabel.append ((reads_comma _ _).cons hrest)⟩

theorem reads_body (list : LabelList) : ∃ key, Reads s list.body (named .empty [])
    (named (readPairs .empty (list.labels.map Label.pair)) key) := by
  obtain ⟨key, -, hlabels⟩ := reads_labels (s := s) list.labels .empty (List.forall_mem_nil _)
  have hcomma (labels : LabelMap) : Reads s
      (if list.trailingComma && !list.labels.isEmpty then [','] else []) (named labels key)
      (named labels key) := by
    split
    · exact reads_comma _ _
    · exact Reads.nil s _
  have hclose (labels : LabelMap) : Reads s list.beforeClose.chars (named labels key)
      (named labels (key ++ list.beforeClose.chars)) := by
    refine reads_key s labels key fun c hc => ?_
    have hne := list.beforeClose.ne c hc
    exact ⟨hne.2.1, hne.2.2.2.2.1, hne.2.2.2.1⟩
  exact ⟨_, (hlabels.append (hcomma _)).append (hclose _)⟩

/-- The list is read up to its closing brace. -/
theorem parseLabels_body (list : LabelList) (rest : List Char) :
    parseLabels (list.body ++ '\x7d' :: rest) =
      .ok (some (readPairs .empty (list.labels.map Label.pair), rest)) := by
  obtain ⟨key, hreads⟩ := reads_body (s := list.body ++ '\x7d' :: rest) list
  have hstart : parseLabels (list.body ++ '\x7d' :: rest) =
      parseLabelsFrom _ (list.body ++ '\x7d' :: rest) 0 (named .empty []) := rfl
  rw [hstart, hreads, parseLabelsFrom.eq_def]
  simp [named, orPanic_sliceFrom_succ _ (rfl : Char.utf8Size '\x7d' = 1), LabelState.close]

/-! ## Reading lines -/

theorem PrintedSample.solid_numbers (printed : PrintedSample parse) : Text.Solid printed.numbers := by
  have htoken : Text.Solid printed.token.chars := Text.solid_of_word printed.token.ne_nil fun c hc =>
    (plain_of_number (printed.token.ofKind c hc)).not_whitespace
  unfold PrintedSample.numbers
  cases printed.timestamp with
  | none =>
      rw [timestampText, List.append_nil]
      exact htoken
  | some timestamp =>
      refine htoken.append ?_ timestamp.before.chars
      exact Text.solid_of_word timestamp.token.ne_nil fun c hc =>
        (plain_of_number (timestamp.token.ofKind c hc)).not_whitespace

theorem PrintedSample.name_plain (printed : PrintedSample parse) :
    ∀ c ∈ printed.name.chars, Plain c := fun c hc => plain_of_metric (printed.name.ofKind c hc)

theorem PrintedSample.numbers_ne (printed : PrintedSample parse) :
    ∀ c ∈ printed.numbers, c ≠ '\x7b' ∧ c ≠ '\n' := by
  intro c hc
  have htoken (token : Token isNumberChar) (hc : c ∈ token.chars) : c ≠ '\x7b' ∧ c ≠ '\n' :=
    ⟨(plain_of_number (token.ofKind c hc)).ne.1, (plain_of_number (token.ofKind c hc)).ne.2.2.2.1⟩
  rcases List.mem_append.1 hc with hc | hc
  · exact htoken _ hc
  · cases hstamp : printed.timestamp with
    | none => simp [hstamp, timestampText] at hc
    | some timestamp =>
        rw [hstamp, timestampText] at hc
        rcases List.mem_append.1 hc with hc | hc
        · exact ⟨(timestamp.before.ne c hc).1, (timestamp.before.ne c hc).2.2.1⟩
        · exact htoken _ hc

theorem PrintedSample.firstWord_numbers (printed : PrintedSample parse) :
    Text.firstWord printed.numbers = some printed.token.chars := by
  refine Text.firstWord_append printed.token.ne_nil (fun c hc =>
    (plain_of_number (printed.token.ofKind c hc)).not_whitespace) fun c hc => ?_
  cases hstamp : printed.timestamp with
  | none => simp [hstamp, timestampText] at hc
  | some timestamp =>
      refine timestamp.before.whitespace c (List.mem_of_mem_head? ?_)
      simpa [hstamp, timestampText, List.head?_append, timestamp.separated] using hc

/-- The name that the parser reads -/
def PrintedSample.readName (printed : PrintedSample parse) : List Char :=
  printed.name.chars ++ (printed.labels.map (·.beforeBrace.chars)).getD []

/-- The labels that the parser reads -/
def PrintedSample.readLabels (printed : PrintedSample parse) : LabelMap :=
  readPairs .empty (((printed.labels.map (·.labels)).getD []).map Label.pair)

theorem splitLine_core (printed : PrintedSample parse) :
    splitLine printed.core = .ok (some (printed.readName, printed.readLabels, printed.numbers)) := by
  have htrim : Text.trim (printed.beforeValue.chars ++ printed.numbers) = printed.numbers := by
    have htrim := printed.solid_numbers.trim printed.beforeValue.whitespace (List.forall_mem_nil _)
    rwa [List.append_nil] at htrim
  unfold splitLine PrintedSample.core PrintedSample.readName PrintedSample.readLabels
  cases hlabels : printed.labels with
  | none =>
      have hseparated := printed.separated hlabels
      cases hblanks : printed.beforeValue.chars with
      | nil => exact absurd hblanks hseparated
      | cons blank blanks =>
          have hblank : Text.isAsciiWhitespace blank = true := by
            rcases printed.beforeValue.blank blank (by simp [hblanks]) with rfl | rfl <;> decide
          have hnone : Text.find? (· = '\x7b') (printed.name.chars ++ (((none : Option LabelList).map
              LabelList.text).getD [] ++ (blank :: blanks ++ printed.numbers))) = none := by
            refine Text.find?_eq_none fun c hc => decide_eq_false ?_
            rw [← hblanks] at hc
            simp only [Option.map_none, Option.getD_none, List.nil_append, List.mem_append] at hc
            rcases hc with hc | hc | hc
            · exact (printed.name_plain c hc).ne.1
            · exact (printed.beforeValue.ne c hc).1
            · exact (printed.numbers_ne c hc).1
          have hspace : Text.find? Text.isAsciiWhitespace (printed.name.chars ++ (((none : Option
              LabelList).map LabelList.text).getD [] ++ (blank :: blanks ++ printed.numbers))) =
                some (Text.size printed.name.chars) :=
            Text.find?_append (fun c hc => (printed.name_plain c hc).not_ascii) hblank _
          rw [hnone, hspace]
          dsimp only
          rw [orPanic_sliceTo, orPanic_sliceFrom]
          refine Fallible.bind_ok.2 ⟨_, rfl, Fallible.bind_ok.2 ⟨_, rfl, ?_⟩⟩
          rw [← hblanks, Option.map_none, Option.getD_none, List.nil_append, htrim, Option.map_none,
            Option.getD_none, List.append_nil]
          rfl
  | some list =>
      have hbrace : ∀ c ∈ printed.name.chars ++ list.beforeBrace.chars, decide (c = '\x7b') = false := by
        intro c hc
        rcases List.mem_append.1 hc with hc | hc
        · simpa using (printed.name_plain c hc).ne.1
        · simpa using (list.beforeBrace.ne c hc).1
      have hcore : printed.name.chars ++ (((some list).map LabelList.text).getD [] ++
            (printed.beforeValue.chars ++ printed.numbers)) =
          (printed.name.chars ++ list.beforeBrace.chars) ++ '\x7b' ::
            (list.body ++ '\x7d' :: (printed.beforeValue.chars ++ printed.numbers)) := by
        simp [LabelList.text]
      rw [hcore, Text.find?_append (p := (· = '\x7b')) hbrace (by simp)]
      dsimp only
      rw [orPanic_sliceTo, orPanic_sliceFrom_succ _ rfl]
      refine Fallible.bind_ok.2 ⟨_, rfl, Fallible.bind_ok.2 ⟨_, rfl, Fallible.bind_ok.2
        ⟨_, parseLabels_body list _, ?_⟩⟩⟩
      rw [Option.map_some, htrim]
      rfl

theorem PrintedSample.solid_core (printed : PrintedSample parse) : Text.Solid printed.core := by
  have hname : Text.Solid printed.name.chars := Text.solid_of_word printed.name.ne_nil fun c hc =>
    (printed.name_plain c hc).not_whitespace
  have hsolid := hname.append printed.solid_numbers
    ((printed.labels.map LabelList.text).getD [] ++ printed.beforeValue.chars)
  rwa [List.append_assoc] at hsolid

section

variable (offsetMs unixMs : UInt64)

/-- The sample that the parser reads -/
def PrintedSample.read (printed : PrintedSample parse) : Sample where
  name := String.ofList printed.readName
  labels := printed.readLabels
  value := printed.value
  offsetMs
  unixMs

def Line.read? : Line parse → Option Sample
  | .sample printed => some (printed.read offsetMs unixMs)
  | _ => none

theorem parseLine_core (printed : PrintedSample parse) :
    parseLine parse offsetMs unixMs printed.core = .ok (some (printed.read offsetMs unixMs)) := by
  have hread : readSample parse offsetMs unixMs printed.readName printed.readLabels printed.numbers =
      some (printed.read offsetMs unixMs) := by
    simp [readSample, printed.firstWord_numbers, printed.reads, PrintedSample.read]
  exact Fallible.bind_ok.2 ⟨_, splitLine_core printed, congrArg Except.ok hread⟩

theorem parseLines_cons (line : Line parse) (lines : List (List Char)) :
    parseLines parse offsetMs unixMs (Text.stripReturn line.text :: lines) = (do
      let samples ← parseLines parse offsetMs unixMs lines
      return (line.read? offsetMs unixMs).toList ++ samples) := by
  rw [parseLines, Text.trim_stripReturn]
  cases line with
  | blank blanks =>
      have htrim : Text.trim (Line.blank blanks : Line parse).text = [] :=
        Text.trim_blank blanks.whitespace
      rw [htrim]
      rfl
  | comment before text oneLine =>
      have hhead : (Text.trim (Line.comment before text oneLine : Line parse).text).head? = some '#' :=
        Text.head?_trim before.whitespace (by decide) text
      dsimp only
      rw [if_pos (.inr hhead)]
      rfl
  | sample printed =>
      have htrim : Text.trim (Line.sample printed).text = printed.core :=
        printed.solid_core.trim printed.before.whitespace printed.after.whitespace
      have hhead : ¬ (printed.core = [] ∨ printed.core.head? = some '#') := by
        rintro (hnil | hhead)
        · exact printed.solid_core.ne_nil hnil
        · rw [PrintedSample.core, List.head?_append] at hhead
          cases hname : printed.name.chars with
          | nil => exact printed.name.ne_nil hname
          | cons c name =>
              rw [hname] at hhead
              exact (printed.name_plain c (by simp [hname])).ne.2.2.1 (Option.some.inj hhead)
      rw [htrim]
      dsimp only
      rw [if_neg hhead, parseLine_core]
      rfl

end

/-! ## Reading texts -/

theorem newline_not_mem_escapeChar (c : Char) : '\n' ∉ escapeChar c := by
  unfold escapeChar
  split
  · decide
  · split
    · decide
    · split
      · decide
      · next hne => exact fun hmem => hne (List.mem_singleton.1 hmem).symm

theorem Blanks.newline_not_mem (blanks : Blanks) : '\n' ∉ blanks.chars := fun h =>
  (blanks.ne _ h).2.2.1 rfl

theorem Label.newline_not_mem (label : Label) : '\n' ∉ label.text := by
  have hname : '\n' ∉ label.name.chars := fun h =>
    (plain_of_label (label.name.ofKind _ h)).ne.2.2.2.1 rfl
  simp [Label.text, Blanks.newline_not_mem, newline_not_mem_escapeChar, hname]

theorem newline_not_mem_labelsText (labels : List Label) : '\n' ∉ labelsText labels := by
  induction labels with
  | nil => simp [labelsText]
  | cons label labels ih =>
      cases labels with
      | nil => exact label.newline_not_mem
      | cons label' labels =>
          have htext : labelsText (label :: label' :: labels) =
              label.text ++ ',' :: labelsText (label' :: labels) := rfl
          rw [htext, List.mem_append, List.mem_cons, not_or, not_or]
          exact ⟨label.newline_not_mem, by decide, ih⟩

theorem Line.newline_not_mem (line : Line parse) : '\n' ∉ line.text := by
  cases line with
  | blank blanks => exact blanks.newline_not_mem
  | comment before text oneLine =>
      simp [Line.text, before.newline_not_mem, oneLine]
  | sample printed =>
      have hname : '\n' ∉ printed.name.chars := fun h => (printed.name_plain _ h).ne.2.2.2.1 rfl
      have hnumbers : '\n' ∉ printed.numbers := fun h => (printed.numbers_ne _ h).2 rfl
      have hlabels : '\n' ∉ (printed.labels.map LabelList.text).getD [] := by
        cases printed.labels with
        | none => simp
        | some list =>
            simp only [Option.map_some, Option.getD_some, LabelList.text, LabelList.body]
            split <;> simp [Blanks.newline_not_mem, newline_not_mem_labelsText]
      simp [Line.text, PrintedSample.core, Blanks.newline_not_mem, hname, hnumbers, hlabels]

theorem lines_print (lines : List (Line parse)) :
    Text.lines (print lines) = lines.map fun line => Text.stripReturn line.text := by
  induction lines with
  | nil => rfl
  | cons line lines ih =>
      have hprint : print (line :: lines) = line.text ++ '\n' :: print lines := by
        simp [print]
      rw [hprint, Text.lines_append line.newline_not_mem, ih, List.map_cons]

/-- What the parser reads of a text of the format -/
theorem parse_print (offsetMs unixMs : UInt64) (lines : List (Line parse)) :
    parsePrometheusText parse offsetMs unixMs (print lines) =
      .ok (lines.filterMap (Line.read? offsetMs unixMs)) := by
  rw [parsePrometheusText, lines_print]
  induction lines with
  | nil => rfl
  | cons line lines ih =>
      rw [List.map_cons, parseLines_cons, ih, List.filterMap_cons]
      cases line.read? offsetMs unixMs <;> rfl

/-! ## Which texts are read back -/

theorem toMap_ofPairs (pairs : List (String × String)) :
    (LabelMap.ofPairs pairs).toMap = OrderedMap.ofList pairs := by
  have hfold (labels : LabelMap) :
      (pairs.foldl (fun labels pair => labels.insert pair.1 pair.2) labels).toMap =
        pairs.foldl (fun m p => m.insert p.1 p.2) labels.toMap := by
    induction pairs generalizing labels with
    | nil => rfl
    | cons pair pairs ih => exact ih _
  exact hfold .empty

/-- Of pairs with distinct keys each is found. -/
theorem find?_ofPairs {pairs : List (String × String)} (hkeys : (pairs.map Prod.fst).Nodup)
    {pair : String × String} (hpair : pair ∈ pairs) :
    (LabelMap.ofPairs pairs).toMap.find? pair.1 = some pair.2 := by
  have hkeyed : KeyedList.Keyed Prod.fst pairs.reverse :=
    List.pairwise_reverse.2 ((List.pairwise_map.1 hkeys).imp Ne.symm)
  rw [toMap_ofPairs, OrderedMap.find?_ofList, hkeyed.finds (List.mem_reverse.2 hpair)]
  rfl

theorem append_eq_right {chars chars' : List Char} (h : String.ofList (chars ++ chars') = String.ofList chars') :
    chars = [] := by
  have hlist := congrArg String.toList h
  rw [String.toList_ofList, String.toList_ofList] at hlist
  exact List.append_left_eq_self.1 hlist

/-- The pair that was printed -/
def Label.printed (label : Label) : String × String :=
  (String.ofList label.name.chars, String.ofList label.value)

theorem LabelList.ofPairs_eq_iff (list : LabelList) :
    LabelMap.ofPairs (list.labels.map Label.pair) = LabelMap.ofPairs (list.labels.map Label.printed) ↔
      ∀ label ∈ list.labels, label.beforeValue.chars = [] := by
  constructor
  · intro heq label hlabel
    have hkeys (f : Label → String × String) (hf : ∀ label, (f label).1 = String.ofList label.name.chars) :
        ((list.labels.map f).map Prod.fst).Nodup := by
      have hmap : (list.labels.map f).map Prod.fst =
          (list.labels.map (·.name.chars)).map String.ofList := by
        rw [List.map_map, List.map_map]
        exact List.map_congr_left fun label _ => hf label
      rw [hmap]
      refine list.distinct.map fun a b hab => ?_
      have hlist := congrArg String.toList hab
      rwa [String.toList_ofList, String.toList_ofList] at hlist
    have hread := find?_ofPairs (hkeys Label.pair fun _ => rfl) (List.mem_map_of_mem hlabel)
    have hprinted := find?_ofPairs (hkeys Label.printed fun _ => rfl) (List.mem_map_of_mem hlabel)
    rw [heq] at hread
    exact append_eq_right (Option.some.inj (hread.symm.trans hprinted))
  · intro htight
    congr 1
    refine List.map_congr_left fun label hlabel => ?_
    simp [Label.pair, Label.printed, htight label hlabel]

theorem PrintedSample.read_eq_iff (offsetMs unixMs : UInt64) (printed : PrintedSample parse) :
    printed.read offsetMs unixMs = printed.sample offsetMs unixMs ↔
      ∀ list ∈ printed.labels, list.Tight := by
  rw [PrintedSample.read, PrintedSample.sample, Sample.mk.injEq, PrintedSample.readName,
    PrintedSample.readLabels]
  cases printed.labels with
  | none => simp [readPairs, LabelMap.ofPairs]
  | some list =>
      have hname : String.ofList (printed.name.chars ++ list.beforeBrace.chars) =
          String.ofList printed.name.chars ↔ list.beforeBrace.chars = [] := by
        constructor
        · intro h
          have hlist := congrArg String.toList h
          rw [String.toList_ofList, String.toList_ofList] at hlist
          exact List.append_right_eq_self.1 hlist
        · intro h
          rw [h, List.append_nil]
      have hlabels := list.ofPairs_eq_iff
      simp only [Option.map_some, Option.getD_some, Option.mem_def, Option.some.injEq, forall_eq',
        LabelList.Tight, ← hname, ← hlabels, and_true]
      rfl

theorem filterMap_eq_iff {α β : Type} {f g : α → Option β} (h : ∀ a, (f a).isSome = (g a).isSome)
    (l : List α) : l.filterMap f = l.filterMap g ↔ ∀ a ∈ l, f a = g a := by
  induction l with
  | nil => simp
  | cons a l ih =>
      have ha := h a
      rw [List.filterMap_cons, List.filterMap_cons, List.forall_mem_cons, ← ih]
      cases hf : f a <;> cases hg : g a <;> simp_all

/-- A text of the format is read back exactly if it has no blank before an opening brace and none before
the opening quote of a value. -/
theorem parse_print_iff (offsetMs unixMs : UInt64) (lines : List (Line parse)) :
    parsePrometheusText parse offsetMs unixMs (print lines) = .ok (samples offsetMs unixMs lines) ↔
      Tight lines := by
  rw [parse_print, Except.ok.injEq, samples, filterMap_eq_iff]
  · constructor
    · intro h printed hprinted
      exact (printed.read_eq_iff offsetMs unixMs).1 (Option.some.inj (h _ hprinted))
    · intro h line hline
      cases line with
      | blank blanks => rfl
      | comment before text oneLine => rfl
      | sample printed => exact congrArg some ((printed.read_eq_iff offsetMs unixMs).2 (h _ hline))
  · intro line
    cases line <;> rfl

/-- The parser inverts the format where no blank stands before an opening brace or an opening quote, and
no text makes it panic. -/
theorem parser_inverts_format (parse : String → Option F64) (offsetMs unixMs : UInt64) :
    (∀ lines : List (Line parse),
      parsePrometheusText parse offsetMs unixMs (print lines) = .ok (samples offsetMs unixMs lines) ↔
        Tight lines) ∧
      ∀ text, ∃ parsed, parsePrometheusText parse offsetMs unixMs text = .ok parsed :=
  ⟨parse_print_iff offsetMs unixMs, parsePrometheusText_total parse offsetMs unixMs⟩

namespace BlankSample

def noBlank : Blanks := ⟨[], List.forall_mem_nil _⟩

def oneBlank : Blanks := ⟨[' '], List.forall_mem_singleton.2 (.inl rfl)⟩

def readNumber : String → Option F64 := fun _ => some ⟨0⟩

/-- `foo {a="b"} 1` or `foo{a= "b"} 1` -/
def line (beforeBrace beforeQuote : Blanks) : Line readNumber :=
  .sample {
    before := noBlank
    name := ⟨"foo".toList, by decide, List.all_eq_true.1 (by decide)⟩
    labels := some {
      beforeBrace := beforeBrace
      labels := [{
        beforeName := noBlank
        name := ⟨"a".toList, by decide, List.all_eq_true.1 (by decide)⟩
        afterName := noBlank
        beforeValue := beforeQuote
        value := "b".toList
        afterValue := noBlank }]
      distinct := List.nodup_singleton _
      trailingComma := false
      beforeClose := noBlank }
    beforeValue := oneBlank
    separated := nofun
    token := ⟨"1".toList, by decide, List.all_eq_true.1 (by decide)⟩
    value := ⟨0⟩
    reads := by decide
    timestamp := none
    after := noBlank }

end BlankSample

/-- A blank before the brace becomes a part of the name, and one before the quote a part of the value. -/
theorem blank_is_kept :
    (print [BlankSample.line BlankSample.oneBlank BlankSample.noBlank] =
        "foo \x7ba=\"b\"\x7d 1\n".toList ∧
      (samples 0 0 [BlankSample.line BlankSample.oneBlank BlankSample.noBlank]).map (·.name) = ["foo"] ∧
      (parsePrometheusText BlankSample.readNumber 0 0
        (print [BlankSample.line BlankSample.oneBlank BlankSample.noBlank])).toOption.map
          (·.map (·.name)) = some ["foo "]) ∧
    print [BlankSample.line BlankSample.noBlank BlankSample.oneBlank] =
        "foo\x7ba= \"b\"\x7d 1\n".toList ∧
      (samples 0 0 [BlankSample.line BlankSample.noBlank BlankSample.oneBlank]).map (·.labels.entries) =
        [[("a", "b")]] ∧
      (parsePrometheusText BlankSample.readNumber 0 0
        (print [BlankSample.line BlankSample.noBlank BlankSample.oneBlank])).toOption.map
          (·.map (·.labels.entries)) = some [[("a", " b")]] := by
  rw [parse_print, parse_print]
  decide

end Exposition

end TxGen.Metrics
