import TxGen.Lib.Fallible
import TxGen.Lib.OrderedMap
import TxGen.Lib.Text
import TxGen.Metrics.Sample

set_option autoImplicit false

/-! # The parser of the text exposition format

`prometheus.rs` of `bench-core`: the samples of the text that a node's `/metrics` endpoint answers with.
Slices are taken at byte offsets; one that does not end at a character panics. -/

namespace TxGen.Metrics

/-- A slice that does not begin or end at a character boundary. -/
inductive Panic
  | charBoundary
deriving DecidableEq

def orPanic {α : Type} : Option α → Except Panic α
  | some value => .ok value
  | none => .error .charBoundary

def LabelMap.empty : LabelMap := ⟨[], List.Pairwise.nil⟩

def LabelMap.toMap (labels : LabelMap) : OrderedMap String String := ⟨labels.entries, labels.sorted⟩

def LabelMap.insert (labels : LabelMap) (key value : String) : LabelMap where
  entries := (labels.toMap.insert key value).entries
  sorted := (labels.toMap.insert key value).sorted

/-- What `parse_labels` carries from character to character. -/
structure LabelState where
  labels : LabelMap := .empty
  key : List Char := []
  value : List Char := []
  inValue : Bool := false
  inQuotes : Bool := false

/-- Commit the pair that was read. -/
def LabelState.commit (state : LabelState) (value : List Char) : LabelState where
  labels := state.labels.insert (String.ofList (Text.trim state.key)) (String.ofList value)

/-- A character that neither escapes another nor closes the list. -/
def LabelState.step (state : LabelState) (ch : Char) : LabelState :=
  if ch = '=' ∧ !state.inValue then { state with inValue := true }
  else if ch = '"' ∧ state.inValue then
    if state.inQuotes then state.commit state.value else { state with inQuotes := true }
  else if ch = ',' ∧ !state.inQuotes then
    if state.inValue then state.commit (Text.trim state.value) else state
  else if state.inValue then { state with value := state.value ++ [ch] }
  else { state with key := state.key ++ [ch] }

/-- The labels at the closing brace; a value without quotes may be pending. -/
def LabelState.close (state : LabelState) : LabelMap :=
  if state.inValue ∧ state.key ≠ [] then (state.commit (Text.trim state.value)).labels
  else state.labels

/-- The loop of `parse_labels`: `idx` is the offset of the next character of `s`. -/
def parseLabelsFrom (s : List Char) : List Char → ℕ → LabelState →
    Except Panic (Option (LabelMap × List Char))
  | [], _, _ => .ok none
  | ch :: chars, idx, state =>
    if ch = '\\' ∧ state.inQuotes then
      match chars with
      | [] => .ok none
      | escaped :: chars =>
        parseLabelsFrom s chars (idx + ch.utf8Size + escaped.utf8Size)
          { state with value := state.value ++ [if escaped = 'n' then '\n' else escaped] }
    else if ch = '\x7d' ∧ !state.inQuotes then do
      let rest ← orPanic (Text.sliceFrom (idx + 1) s)
      return some (state.close, rest)
    else parseLabelsFrom s chars (idx + ch.utf8Size) (state.step ch)

/-- Parse the label portion following `{` up to the closing brace; returns the labels and the text after
it. -/
def parseLabels (s : List Char) : Except Panic (Option (LabelMap × List Char)) :=
  parseLabelsFrom s s 0 {}

/-- Parse a Prometheus value string; `parse` reads the other numbers. -/
def parseValue (parse : String → Option F64) (s : String) : Option F64 :=
  if s = "+Inf" then some ⟨0x7ff0000000000000⟩
  else if s = "-Inf" then some ⟨0xfff0000000000000⟩
  else if s = "Inf" then some ⟨0x7ff0000000000000⟩
  else if s = "NaN" then some ⟨0x7ff8000000000000⟩
  else parse s

section

variable (parse : String → Option F64) (offsetMs unixMs : UInt64)

/-- The name, the labels and the text behind them; `none` where the line is not one of a sample. -/
def splitLine (line : List Char) : Except Panic (Option (List Char × LabelMap × List Char)) :=
  match Text.find? (· = '\x7b') line with
  | some braceStart => do
    let name ← orPanic (Text.sliceTo braceStart line)
    let after ← orPanic (Text.sliceFrom (braceStart + 1) line)
    let parsed ← parseLabels after
    return parsed.map fun (labels, rest) => (name, labels, Text.trim rest)
  | none =>
    -- no labels: split on the first blank
    match Text.find? Text.isAsciiWhitespace line with
    | none => .ok none
    | some space => do
      let name ← orPanic (Text.sliceTo space line)
      let rest ← orPanic (Text.sliceFrom space line)
      return some (name, .empty, Text.trim rest)

/-- What stands after the labels is `value [timestamp]`; the timestamp is ignored. -/
def readSample (name : List Char) (labels : LabelMap) (rest : List Char) : Option Sample := do
  let valueStr ← Text.firstWord rest
  let value ← parseValue parse (String.ofList valueStr)
  return { name := String.ofList name, labels, value, offsetMs, unixMs }

/-- Parse a single Prometheus metric line. -/
def parseLine (line : List Char) : Except Panic (Option Sample) := do
  let split ← splitLine line
  return split.bind fun (name, labels, rest) => readSample parse offsetMs unixMs name labels rest

def parseLines : List (List Char) → Except Panic (List Sample)
  | [] => .ok []
  | line :: lines => do
    let line := Text.trim line
    let sample ← if line = [] ∨ line.head? = some '#' then .ok none
      else parseLine parse offsetMs unixMs line
    let samples ← parseLines lines
    return sample.toList ++ samples

/-- Parse Prometheus text exposition format into a flat list of samples. -/
def parsePrometheusText (text : List Char) : Except Panic (List Sample) :=
  parseLines parse offsetMs unixMs (Text.lines text)

end

/-! ## Every text is read -/

theorem orPanic_sliceTo (before after : List Char) :
    orPanic (Text.sliceTo (Text.size before) (before ++ after)) = .ok before := by
  rw [Text.sliceTo_append, orPanic]

theorem orPanic_sliceFrom (before after : List Char) :
    orPanic (Text.sliceFrom (Text.size before) (before ++ after)) = .ok after := by
  rw [Text.sliceFrom_append, orPanic]

/-- The text behind a character that takes one byte. -/
theorem orPanic_sliceFrom_succ (before : List Char) {c : Char} (hc : c.utf8Size = 1)
    (after : List Char) :
    orPanic (Text.sliceFrom (Text.size before + 1) (before ++ c :: after)) = .ok after := by
  have hsize : Text.size before + 1 = Text.size (before ++ [c]) := by
    simp [Text.size, hc]
  have hsplit : before ++ c :: after = (before ++ [c]) ++ after := by
    simp
  rw [hsize, hsplit, orPanic_sliceFrom]

/-- The offset is that of the characters that were read, so that what is behind the brace is a slice. -/
theorem parseLabelsFrom_total {s chars : List Char} {idx : ℕ} {state : LabelState}
    (h : ∃ before, s = before ++ chars ∧ idx = Text.size before) :
    ∃ parsed, parseLabelsFrom s chars idx state = .ok parsed := by
  fun_induction parseLabelsFrom s chars idx state with
  | case1 => exact ⟨_, rfl⟩
  | case2 => exact ⟨_, rfl⟩
  | case3 ch idx state hescape escaped chars ih =>
      obtain ⟨before, rfl, rfl⟩ := h
      exact ih ⟨before ++ [ch, escaped], by simp, by simp [Text.size, Nat.add_assoc]⟩
  | case4 ch chars idx state hescape hclose =>
      obtain ⟨before, rfl, rfl⟩ := h
      obtain ⟨rfl, -⟩ := hclose
      exact ⟨some (state.close, chars), by rw [orPanic_sliceFrom_succ _ rfl]; rfl⟩
  | case5 ch chars idx state hescape hclose ih =>
      obtain ⟨before, rfl, rfl⟩ := h
      exact ih ⟨before ++ [ch], by simp, by simp [Text.size]⟩

theorem splitLine_total (line : List Char) : ∃ split, splitLine line = .ok split := by
  unfold splitLine
  split
  · next braceStart hfind =>
      obtain ⟨before, c, after, rfl, rfl, hc⟩ := Text.find?_eq_some hfind
      obtain rfl : c = '\x7b' := of_decide_eq_true hc
      obtain ⟨parsed, hparsed⟩ : ∃ parsed, parseLabels after = .ok parsed :=
        parseLabelsFrom_total ⟨[], rfl, rfl⟩
      rw [orPanic_sliceTo, orPanic_sliceFrom_succ _ rfl]
      exact ⟨_, Fallible.bind_ok.2 ⟨_, rfl, Fallible.bind_ok.2 ⟨_, rfl, Fallible.bind_ok.2 ⟨_, hparsed, rfl⟩⟩⟩⟩
  · split
    · exact ⟨_, rfl⟩
    · next space hfind =>
        obtain ⟨before, c, after, rfl, rfl, -⟩ := Text.find?_eq_some hfind
        rw [orPanic_sliceTo, orPanic_sliceFrom]
        exact ⟨_, rfl⟩

theorem parseLine_total (parse : String → Option F64) (offsetMs unixMs : UInt64) (line : List Char) :
    ∃ sample, parseLine parse offsetMs unixMs line = .ok sample := by
  obtain ⟨split, hsplit⟩ := splitLine_total line
  exact ⟨_, Fallible.bind_ok.2 ⟨split, hsplit, rfl⟩⟩

/-- No text makes the parser panic. -/
theorem parsePrometheusText_total (parse : String → Option F64) (offsetMs unixMs : UInt64)
    (text : List Char) : ∃ samples, parsePrometheusText parse offsetMs unixMs text = .ok samples := by
  unfold parsePrometheusText
  induction Text.lines text with
  | nil => exact ⟨[], rfl⟩
  | cons line lines ih =>
      obtain ⟨samples, hsamples⟩ := ih
      obtain ⟨sample, hsample⟩ := parseLine_total parse offsetMs unixMs (Text.trim line)
      rw [parseLines]
      dsimp only
      split
      · exact ⟨_, Fallible.bind_ok.2 ⟨none, rfl, Fallible.bind_ok.2 ⟨samples, hsamples, rfl⟩⟩⟩
      · exact ⟨_, Fallible.bind_ok.2 ⟨sample, hsample, Fallible.bind_ok.2 ⟨samples, hsamples, rfl⟩⟩⟩

end TxGen.Metrics
