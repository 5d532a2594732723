import TxGen.CallReplay.Chunks
import TxGen.Lib.JsonText

set_option autoImplicit false

/-! # What is found in a JSON object

The scanner on every text of a JSON object: a nested value brings its depth back to where it was, a
top-level value is captured byte by byte, and a key is what its text is without the backslashes. So
the scanner finds the members whose keys read `result` and `error` in that way. -/

namespace TxGen.CallReplay

open JsonText (Blank Blanks Element HexDigit Value Item Entry ObjectText)

/-! ## Inside a value -/

namespace ValueScan

/-- All of the bytes are part of the value. -/
def scanAll : ValueScan → List UInt8 → Option ValueScan
  | scan, [] => some scan
  | scan, byte :: rest =>
    match scan.scanByte byte with
    | .within scan => scanAll scan rest
    | _ => none

theorem scanAll_append {scan scan' scan'' : ValueScan} {a b : List UInt8}
    (ha : scan.scanAll a = some scan') (hb : scan'.scanAll b = some scan'') :
    scan.scanAll (a ++ b) = some scan'' := by
  induction a generalizing scan with
  | nil =>
      obtain rfl := Option.some.inj ha
      exact hb
  | cons byte rest ih =>
      rw [List.cons_append, scanAll]
      rw [scanAll] at ha
      split at ha
      · exact ih ha
      · cases ha

theorem scanAll_cons {scan scan' scan'' : ValueScan} {byte : UInt8} {rest : List UInt8}
    (hbyte : scan.scanByte byte = .within scan') (hrest : scan'.scanAll rest = some scan'') :
    scan.scanAll (byte :: rest) = some scan'' := by
  rw [scanAll, hbyte]
  exact hrest

/-- Bytes that change nothing -/
theorem scanAll_of_forall {scan : ValueScan} {text : List UInt8}
    (h : ∀ byte ∈ text, scan.scanByte byte = .within scan) : scan.scanAll text = some scan := by
  induction text with
  | nil => rfl
  | cons byte rest ih =>
      exact scanAll_cons (h byte List.mem_cons_self)
        (ih fun b hb => h b (List.mem_cons_of_mem byte hb))

/-- Inside a string, `depth` levels deep -/
def inside (depth : ℕ) : ValueScan := { started := true, inString := true, depth }

/-- Between the parts of a composite value -/
def nested (depth : ℕ) : ValueScan := { started := true, depth }

theorem scanByte_inert {depth : ℕ} {byte : UInt8} (h : JsonText.Inert byte) :
    (inside depth).scanByte byte = .within (inside depth) := by
  obtain ⟨hquote, hbackslash⟩ := h
  have hquote' : byte ≠ ascii '"' := hquote
  have hbackslash' : byte ≠ ascii '\\' := hbackslash
  simp [scanByte, inside, hquote', hbackslash']

/-- A byte behind a backslash is passed over. -/
theorem scanAll_escaped (depth : ℕ) (letter : UInt8) :
    (inside depth).scanAll [0x5c, letter] = some (inside depth) := rfl

theorem scanAll_element (depth : ℕ) (element : Element) :
    (inside depth).scanAll element.text = some (inside depth) := by
  cases element with
  | plain c h => exact scanAll_of_forall fun byte hbyte => scanByte_inert (JsonText.inert_plain h hbyte)
  | escape e => exact scanAll_escaped depth e.letter
  | unicode a b c d =>
      refine scanAll_append (scanAll_escaped depth 0x75) (scanAll_of_forall fun byte hbyte => ?_)
      simp only [List.mem_cons, List.not_mem_nil, or_false] at hbyte
      rcases hbyte with rfl | rfl | rfl | rfl <;> exact scanByte_inert (JsonText.inert_hexDigit _)

theorem scanAll_body (depth : ℕ) (elements : List Element) :
    (inside depth).scanAll (JsonText.body elements) = some (inside depth) := by
  induction elements with
  | nil => rfl
  | cons element elements ih => exact scanAll_append (scanAll_element depth element) ih

theorem scanAll_quoted (depth : ℕ) (elements : List Element) :
    (nested (depth + 1)).scanAll (JsonText.quoted elements) = some (nested (depth + 1)) :=
  scanAll_cons (by rfl) (scanAll_append (scanAll_body (depth + 1) elements) (by rfl))

theorem scanByte_nested {depth : ℕ} {byte : UInt8}
    (h : byte ∉ ([0x22, 0x7b, 0x5b, 0x7d, 0x5d] : List UInt8)) :
    (nested depth).scanByte byte = .within (nested depth) := by
  simp only [List.mem_cons, List.not_mem_nil, or_false, not_or] at h
  obtain ⟨hquote, hbrace, hbracket, hbrace', hbracket'⟩ := h
  have hquote' : byte ≠ ascii '"' := hquote
  have hopen : ¬ (byte = ascii '{' ∨ byte = ascii '[') := by
    rintro (heq | heq)
    · exact hbrace heq
    · exact hbracket heq
  have hclose : ¬ (byte = ascii '}' ∨ byte = ascii ']') := by
    rintro (heq | heq)
    · exact hbrace' heq
    · exact hbracket' heq
  simp [scanByte, nested, hquote', hopen, hclose]

theorem scanAll_blanks (depth : ℕ) (blanks : Blanks) :
    (nested depth).scanAll blanks.text = some (nested depth) := by
  refine scanAll_of_forall fun byte hbyte => scanByte_nested ?_
  obtain ⟨blank, -, rfl⟩ := List.mem_map.1 hbyte
  cases blank <;> decide

theorem scanAll_token (depth : ℕ) {text : List UInt8} (h : ∀ byte ∈ text, JsonText.IsToken byte) :
    (nested depth).scanAll text = some (nested depth) := by
  refine scanAll_of_forall fun byte hbyte => scanByte_nested fun hmem => h byte hbyte ?_
  simp only [List.mem_cons, List.not_mem_nil, or_false] at hmem
  rcases hmem with rfl | rfl | rfl | rfl | rfl <;> decide

/-- A bracket goes down a level and its counterpart comes back. -/
theorem scanAll_bracketed {depth : ℕ} {first last : UInt8} {inner : List UInt8}
    (hfirst : first = 0x5b ∨ first = 0x7b) (hlast : last = 0x5d ∨ last = 0x7d)
    (hinner : (nested (depth + 2)).scanAll inner = some (nested (depth + 2))) :
    (nested (depth + 1)).scanAll (first :: (inner ++ [last])) = some (nested (depth + 1)) := by
  have hdown : (nested (depth + 1)).scanByte first = .within (nested (depth + 2)) := by
    rcases hfirst with rfl | rfl <;> rfl
  refine scanAll_cons hdown (scanAll_append hinner ?_)
  rcases hlast with rfl | rfl <;> rfl

mutual

/-- A nested value brings the scan back to its depth. -/
theorem scanAll_value : ∀ (depth : ℕ) (value : Value),
    (nested (depth + 1)).scanAll value.text = some (nested (depth + 1))
  | depth, .null => scanAll_token _ (JsonText.isToken_of_all (by decide))
  | depth, .true => scanAll_token _ (JsonText.isToken_of_all (by decide))
  | depth, .false => scanAll_token _ (JsonText.isToken_of_all (by decide))
  | depth, .number number => scanAll_token _ fun _ => JsonText.isToken_number
  | depth, .string elements => scanAll_quoted depth elements
  | depth, .array blanks items =>
      scanAll_bracketed (Or.inl rfl) (Or.inl rfl)
        (scanAll_append (scanAll_blanks _ blanks) (scanAll_items (depth + 1) items))
  | depth, .object blanks entries =>
      scanAll_bracketed (Or.inr rfl) (Or.inr rfl)
        (scanAll_append (scanAll_blanks _ blanks) (scanAll_entries (depth + 1) entries))

theorem scanAll_item : ∀ (depth : ℕ) (item : Item),
    (nested (depth + 1)).scanAll item.text = some (nested (depth + 1))
  | depth, .mk before value after =>
      scanAll_append (scanAll_append (scanAll_blanks _ before) (scanAll_value depth value))
        (scanAll_blanks _ after)

theorem scanAll_entry : ∀ (depth : ℕ) (entry : Entry),
    (nested (depth + 1)).scanAll entry.text = some (nested (depth + 1))
  | depth, .mk before key afterKey beforeValue value after => by
      have hvalue := scanAll_value depth value
      refine scanAll_append (scanAll_append (scanAll_append (scanAll_blanks _ before)
        (scanAll_quoted depth key)) (scanAll_blanks _ afterKey)) (scanAll_cons (by rfl) ?_)
      exact scanAll_append (scanAll_append (scanAll_blanks _ beforeValue) hvalue)
        (scanAll_blanks _ after)

theorem scanAll_items : ∀ (depth : ℕ) (items : List Item),
    (nested (depth + 1)).scanAll (JsonText.itemsText items) = some (nested (depth + 1))
  | depth, [] => rfl
  | depth, [item] => scanAll_item depth item
  | depth, item :: item' :: items =>
      scanAll_append (scanAll_item depth item)
        (scanAll_cons (by rfl) (scanAll_items depth (item' :: items)))

theorem scanAll_entries : ∀ (depth : ℕ) (entries : List Entry),
    (nested (depth + 1)).scanAll (JsonText.entriesText entries) = some (nested (depth + 1))
  | depth, [] => rfl
  | depth, [entry] => scanAll_entry depth entry
  | depth, entry :: entry' :: entries =>
      scanAll_append (scanAll_entry depth entry)
        (scanAll_cons (by rfl) (scanAll_entries depth (entry' :: entries)))

end

end ValueScan

/-! ## Keys -/

/-- The bytes that are pushed for an element of a key: an escape loses its backslash. -/
def unescaped : Element → List UInt8
  | .plain c _ => String.utf8EncodeChar c
  | .escape e => [e.letter]
  | .unicode a b c d => [0x75, a.byte, b.byte, c.byte, d.byte]

/-- A key as the scanner reads it. -/
def scannedKey (entry : Entry) : List UInt8 := entry.key.flatMap unescaped

namespace ResponseScanner

/-- The scanner gets from one state to another on a text. -/
def Runs (s : ResponseScanner) (text : List UInt8) (s' : ResponseScanner) : Prop :=
  text.foldlM step s = .ok s'

namespace Runs

variable {s s' s'' : ResponseScanner} {a b : List UInt8} {byte : UInt8}

theorem nil (s : ResponseScanner) : Runs s [] s := rfl

theorem append (ha : Runs s a s') (hb : Runs s' b s'') : Runs s (a ++ b) s'' := by
  rw [Runs, List.foldlM_append, ha]
  exact hb

theorem cons (hbyte : s.step byte = .ok s') (hb : Runs s' b s'') : Runs s (byte :: b) s'' := by
  rw [Runs, List.foldlM_cons, hbyte]
  exact hb

theorem single (hbyte : s.step byte = .ok s') : Runs s [byte] s' := cons hbyte (nil s')

/-- Bytes that change nothing -/
theorem of_forall {text : List UInt8} (h : ∀ byte ∈ text, s.step byte = .ok s) : Runs s text s := by
  induction text with
  | nil => exact nil s
  | cons byte rest ih =>
      exact cons (h byte List.mem_cons_self) (ih fun b hb => h b (List.mem_cons_of_mem byte hb))

end Runs

/-- White space between the parts of the object changes nothing. -/
theorem runs_blanks {s : ResponseScanner} (blanks : Blanks)
    (h : s.phase = .beforeObject ∨ s.phase = .beforeKey ∨ s.phase = .beforeColon ∨
      s.phase = .afterValue ∨ s.phase = .finished) : Runs s blanks.text s := by
  refine Runs.of_forall fun byte hbyte => ?_
  obtain ⟨blank, -, rfl⟩ := List.mem_map.1 hbyte
  rcases h with h | h | h | h | h <;> cases blank <;> simp only [step, h] <;> rfl

/-- A byte of a key is pushed. -/
theorem runs_inert {s : ResponseScanner} (h : s.phase = .inKey false) {byte : UInt8}
    (hbyte : JsonText.Inert byte) : s.step byte = .ok { s.pushKey byte with phase := .inKey false } := by
  have hquote : byte ≠ ascii '"' := hbyte.1
  have hbackslash : byte ≠ ascii '\\' := hbyte.2
  simp [step, h, hquote, hbackslash]

/-- A byte behind a backslash is pushed without it. -/
theorem runs_escaped {s : ResponseScanner} (h : s.phase = .inKey false) (letter : UInt8) :
    Runs s [0x5c, letter] { s.pushKey letter with phase := .inKey false } := by
  have hbackslash : s.step 0x5c = .ok { s with phase := .inKey true } := by
    simp only [step, h]
    rfl
  refine Runs.cons hbackslash (Runs.single ?_)
  simp only [step, pushKey]
  split <;> rfl

/-- The state with more bytes of a key -/
def pushed (s : ResponseScanner) (bytes : List UInt8) : ResponseScanner :=
  bytes.foldl (fun s byte => { s.pushKey byte with phase := .inKey false }) s

@[simp] theorem phase_pushed {s : ResponseScanner} (h : s.phase = .inKey false)
    (bytes : List UInt8) : (s.pushed bytes).phase = .inKey false := by
  induction bytes generalizing s with
  | nil => exact h
  | cons byte rest ih => exact ih rfl

theorem pushed_cons (s : ResponseScanner) (byte : UInt8) (rest : List UInt8) :
    s.pushed (byte :: rest) = { s.pushKey byte with phase := .inKey false }.pushed rest := rfl

theorem runs_pushed {s : ResponseScanner} (h : s.phase = .inKey false) {bytes : List UInt8}
    (hbytes : ∀ byte ∈ bytes, JsonText.Inert byte) : Runs s bytes (s.pushed bytes) := by
  induction bytes generalizing s with
  | nil => exact Runs.nil s
  | cons byte rest ih =>
      exact Runs.cons (runs_inert h (hbytes byte List.mem_cons_self))
        (ih rfl fun b hb => hbytes b (List.mem_cons_of_mem byte hb))

theorem runs_element {s : ResponseScanner} (h : s.phase = .inKey false) (element : Element) :
    Runs s element.text (s.pushed (unescaped element)) := by
  cases element with
  | plain c hc => exact runs_pushed h fun byte hbyte => JsonText.inert_plain hc hbyte
  | escape e => exact runs_escaped h e.letter
  | unicode a b c d =>
      have hdigits : ∀ byte ∈ [a.byte, b.byte, c.byte, d.byte], JsonText.Inert byte := by
        intro byte hbyte
        simp only [List.mem_cons, List.not_mem_nil, or_false] at hbyte
        rcases hbyte with rfl | rfl | rfl | rfl <;> exact JsonText.inert_hexDigit _
      have htext : (Element.unicode a b c d).text = [0x5c, 0x75] ++ [a.byte, b.byte, c.byte, d.byte] :=
        rfl
      rw [htext, unescaped, pushed_cons]
      exact (runs_escaped h 0x75).append (runs_pushed rfl hdigits)

theorem pushed_append (s : ResponseScanner) (a b : List UInt8) :
    s.pushed (a ++ b) = (s.pushed a).pushed b := List.foldl_append

/-- The text of a key pushes the key without its backslashes. -/
theorem runs_body {s : ResponseScanner} (h : s.phase = .inKey false) (elements : List Element) :
    Runs s (JsonText.body elements) (s.pushed (elements.flatMap unescaped)) := by
  induction elements generalizing s with
  | nil => exact Runs.nil s
  | cons element elements ih =>
      rw [List.flatMap_cons, pushed_append]
      exact (runs_element h element).append (ih (phase_pushed h _))

/-- Pushing changes the key only. -/
theorem pushed_frame (s : ResponseScanner) (bytes : List UInt8) :
    (s.pushed bytes).result = s.result ∧ (s.pushed bytes).error = s.error := by
  induction bytes generalizing s with
  | nil => exact ⟨rfl, rfl⟩
  | cons byte rest ih =>
      obtain ⟨hresult, herror⟩ := ih { s.pushKey byte with phase := .inKey false }
      refine ⟨hresult.trans ?_, herror.trans ?_⟩ <;> simp only [pushKey] <;> split <;> rfl

theorem length_le_keyLen (key : List UInt8) : keyLen key ≤ 2 * key.length := by
  induction key with
  | nil => simp [keyLen]
  | cons byte key ih =>
      simp only [keyLen, List.map_cons, List.sum_cons, List.length_cons] at ih ⊢
      split <;> omega

/-- The key is what was pushed, unless that is longer than any key of interest. -/
theorem key_pushed {s : ResponseScanner} {before : List UInt8}
    (h : (s.keyOverflow = false ∧ s.key = before) ∨ (s.keyOverflow = true ∧ 7 ≤ before.length))
    (bytes : List UInt8) :
    ((s.pushed bytes).keyOverflow = false ∧ (s.pushed bytes).key = before ++ bytes) ∨
      ((s.pushed bytes).keyOverflow = true ∧ 7 ≤ (before ++ bytes).length) := by
  induction bytes generalizing s before with
  | nil => simpa [pushed] using h
  | cons byte rest ih =>
      have hpush : ((s.pushKey byte).keyOverflow = false ∧ (s.pushKey byte).key = before ++ [byte]) ∨
          ((s.pushKey byte).keyOverflow = true ∧ 7 ≤ (before ++ [byte]).length) := by
        rcases h with ⟨hoverflow, rfl⟩ | ⟨hoverflow, hlong⟩
        · unfold pushKey
          split
          · rename_i hfull
            have := length_le_keyLen s.key
            refine Or.inr ⟨rfl, ?_⟩
            simp only [maxKeyLen, List.length_append, List.length_singleton] at hfull ⊢
            omega
          · exact Or.inl ⟨hoverflow, rfl⟩
        · refine Or.inr ⟨?_, ?_⟩
          · unfold pushKey
            split
            · rfl
            · exact hoverflow
          · simp only [List.length_append]
            omega
      have hrest := @ih { s.pushKey byte with phase := .inKey false } _ hpush
      rw [List.append_assoc] at hrest
      exact hrest

/-- An overflowing key is classified like the whole key. -/
theorem classify_pushed (s : ResponseScanner) (bytes : List UInt8) :
    Member.classify (({ s with key := [], keyOverflow := false, phase := .inKey false }).pushed bytes).key
        (({ s with key := [], keyOverflow := false, phase := .inKey false }).pushed bytes).keyOverflow
      = Member.classify bytes false := by
  rcases @key_pushed { s with key := [], keyOverflow := false, phase := .inKey false } []
    (Or.inl ⟨rfl, rfl⟩) bytes with ⟨hoverflow, hkey⟩ | ⟨hoverflow, hlong⟩
  · rw [hoverflow, hkey, List.nil_append]
  · have hresult : bytes ≠ bytesOf "result" := by
      rintro rfl
      exact absurd hlong (by decide)
    have herror : bytes ≠ bytesOf "error" := by
      rintro rfl
      exact absurd hlong (by decide)
    simp [Member.classify, hoverflow, hresult, herror]

/-! ## Members -/

/-- A value's bytes are consumed as the scan goes through them. -/
theorem runs_scanAll {s : ResponseScanner} (h : s.phase = .inValue) {scan : ValueScan}
    {text : List UInt8} (hscan : s.value.scanAll text = some scan) :
    Runs s text (s.consumed scan text) := by
  induction text generalizing s with
  | nil =>
      obtain rfl := Option.some.inj hscan
      rw [consumed_self]
      exact Runs.nil s
  | cons byte rest ih =>
      rw [ValueScan.scanAll] at hscan
      cases hbyte : s.value.scanByte byte with
      | within scan' =>
          rw [hbyte] at hscan
          have hstep : s.step byte = .ok (s.consumed scan' [byte]) := by simp [step, h, hbyte]
          have hrest := @ih (s.consumed scan' [byte]) (by simpa using h) (by simpa using hscan)
          rw [consumed_consumed] at hrest
          exact Runs.cons hstep hrest
      | skipped => rw [hbyte] at hscan; cases hscan
      | last scan' => rw [hbyte] at hscan; cases hscan
      | ended => rw [hbyte] at hscan; cases hscan

/-- A token that is followed by a byte which ends it -/
theorem value_token {s : ResponseScanner} (hphase : s.phase = .inValue) (hvalue : s.value = {})
    {text : List UInt8} (hne : text ≠ []) (htoken : ∀ byte ∈ text, JsonText.IsToken byte)
    {byte : UInt8} (hends : ValueScan.endsLiteral byte = true) :
    (text ++ [byte]).foldlM step s
      = (s.consumed { started := true, literal := true } text).completed.delimit byte := by
  obtain ⟨first, rest, rfl⟩ := List.exists_cons_of_ne_nil hne
  have hnot : ∀ b : UInt8, JsonText.IsToken b → isAsciiWhitespace b = false ∧
      ValueScan.endsLiteral b = false ∧ ValueScan.start b = { started := true, literal := true } := by
    intro b hb
    simp only [JsonText.IsToken, List.mem_cons, List.not_mem_nil, or_false, not_or] at hb
    obtain ⟨h1, h2, h3, h4, h5, h6, h7, h8, h9, h10, h11⟩ := hb
    refine ⟨by simp [isAsciiWhitespace, h1, h2, h3, h4, h5], ?_, ?_⟩
    · have : b ≠ ascii ',' ∧ b ≠ ascii '}' ∧ b ≠ ascii ']' := ⟨h7, h11, h9⟩
      simp [ValueScan.endsLiteral, isAsciiWhitespace, h1, h2, h3, h4, h5, this]
    · have : b ≠ ascii '{' ∧ b ≠ ascii '[' ∧ b ≠ ascii '"' := ⟨h10, h8, h6⟩
      simp [ValueScan.start, this]
  have hscan : s.value.scanAll (first :: rest) = some { started := true, literal := true } := by
    have hfirst : s.value.scanByte first = .within { started := true, literal := true } := by
      obtain ⟨hblank, -, hstart⟩ := hnot first (htoken first List.mem_cons_self)
      simp [ValueScan.scanByte, hvalue, hblank, hstart]
    refine ValueScan.scanAll_cons hfirst (ValueScan.scanAll_of_forall fun b hb => ?_)
    · obtain ⟨-, hends, -⟩ := hnot b (htoken b (List.mem_cons_of_mem first hb))
      simp [ValueScan.scanByte, hends]
  have hrun := runs_scanAll hphase hscan
  have hstep : (s.consumed { started := true, literal := true } (first :: rest)).step byte
      = (s.consumed { started := true, literal := true } (first :: rest)).completed.delimit byte := by
    simp [step, hphase, ValueScan.scanByte, hends]
  rw [List.foldlM_append, hrun, ← hstep]
  exact bind_pure (step _ byte)

/-- A string or a composite value, which ends with its last byte -/
theorem value_closed {s : ResponseScanner} (hphase : s.phase = .inValue) {first last : UInt8}
    {inner : List UInt8} {within after : ValueScan}
    (hfirst : s.value.scanByte first = .within within) (hinner : within.scanAll inner = some within)
    (hlast : within.scanByte last = .last after) :
    Runs s (first :: (inner ++ [last])) (s.consumed after (first :: (inner ++ [last]))).completed := by
  have hrun := runs_scanAll hphase (ValueScan.scanAll_cons hfirst hinner)
  have hstep : (s.consumed within (first :: inner)).step last
      = .ok (s.consumed after (first :: (inner ++ [last]))).completed := by
    simp only [step, phase_consumed, hphase, value_consumed, hlast, consumed_consumed, List.cons_append]
  exact hrun.append (Runs.single hstep)

theorem foldlM_after {s s' : ResponseScanner} {text : List UInt8} (h : Runs s text s')
    (byte : UInt8) : (text ++ [byte]).foldlM step s = s'.step byte := by
  rw [List.foldlM_append, h]
  exact bind_pure (step s' byte)

/-- A top-level value is consumed as a whole, whatever ends it. -/
theorem value_delimited {s : ResponseScanner} (hphase : s.phase = .inValue) (hvalue : s.value = {})
    (value : Value) : ∃ scan, ∀ byte, ValueScan.endsLiteral byte = true →
      (value.text ++ [byte]).foldlM step s = (s.consumed scan value.text).completed.delimit byte := by
  -- a value with brackets or quotes is complete before the byte after it is seen
  have hclosed : ∀ {first last : UInt8} {inner : List UInt8} {within after : ValueScan},
      ValueScan.scanByte {} first = .within within → within.scanAll inner = some within →
        within.scanByte last = .last after → ∀ byte,
          (first :: (inner ++ [last]) ++ [byte]).foldlM step s
            = (s.consumed after (first :: (inner ++ [last]))).completed.delimit byte := by
    intro first last inner within after hfirst hinner hlast byte
    rw [← hvalue] at hfirst
    exact foldlM_after (value_closed hphase hfirst hinner hlast) byte
  cases value with
  | null =>
      exact ⟨_, fun byte =>
        value_token hphase hvalue (by decide) (JsonText.isToken_of_all (by decide))⟩
  | true =>
      exact ⟨_, fun byte =>
        value_token hphase hvalue (by decide) (JsonText.isToken_of_all (by decide))⟩
  | false =>
      exact ⟨_, fun byte =>
        value_token hphase hvalue (by decide) (JsonText.isToken_of_all (by decide))⟩
  | number number =>
      exact ⟨_, fun byte => value_token hphase hvalue (JsonText.number_ne_nil number)
        fun _ => JsonText.isToken_number⟩
  | string elements =>
      exact ⟨_, fun byte _ => hclosed rfl (ValueScan.scanAll_body 0 elements) rfl byte⟩
  | array blanks items =>
      exact ⟨_, fun byte _ => hclosed rfl (ValueScan.scanAll_append (ValueScan.scanAll_blanks 1 blanks)
        (ValueScan.scanAll_items 0 items)) rfl byte⟩
  | object blanks entries =>
      exact ⟨_, fun byte _ => hclosed rfl (ValueScan.scanAll_append (ValueScan.scanAll_blanks 1 blanks)
        (ValueScan.scanAll_entries 0 entries)) rfl byte⟩

theorem endsLiteral_blank (blank : Blank) : ValueScan.endsLiteral blank.byte = true := by
  cases blank <;> rfl

/-- White space may stand between a value and what follows it. -/
theorem value_after {s : ResponseScanner} (hphase : s.phase = .inValue) (hvalue : s.value = {})
    (value : Value) : ∃ scan, ∀ (after : Blanks) (byte : UInt8), ValueScan.endsLiteral byte = true →
      (value.text ++ (after.text ++ [byte])).foldlM step s
        = (s.consumed scan value.text).completed.delimit byte := by
  obtain ⟨scan, hscan⟩ := value_delimited hphase hvalue value
  refine ⟨scan, fun after byte hends => ?_⟩
  cases after with
  | nil => exact hscan byte hends
  | cons blank after =>
      have hblank : Runs s (value.text ++ [blank.byte]) (s.consumed scan value.text).completed := by
        refine (hscan blank.byte (endsLiteral_blank blank)).trans ?_
        cases blank <;> rfl
      have hrest := hblank.append (runs_blanks after (Or.inr (Or.inr (Or.inr (Or.inl rfl)))))
      have htext : value.text ++ (Blanks.text (blank :: after) ++ [byte])
          = value.text ++ [blank.byte] ++ Blanks.text after ++ [byte] := by
        simp [Blanks.text]
      rw [htext, foldlM_after hrest]
      rfl

/-- What is kept as the result after a member -/
def resultAfter (entry : Entry) (result : Option Digested) : Option Digested :=
  if Member.classify (scannedKey entry) false = .result then
    some ⟨entry.value.text, entry.value.text.length⟩
  else result

/-- What is kept as the error after a member -/
def errorAfter (entry : Entry) (error : Option (List UInt8)) : Option (List UInt8) :=
  if Member.classify (scannedKey entry) false = .error then
    some (entry.value.text.take maxErrorCapture)
  else error

/-- The quote before a key was read. -/
def keyStarted (s : ResponseScanner) : ResponseScanner :=
  { s with key := [], keyOverflow := false, phase := .inKey false }

/-- The quote after a key was read. -/
def keyEnded (s : ResponseScanner) : ResponseScanner :=
  { s with member := .classify s.key s.keyOverflow, phase := .beforeColon }

/-- The colon was read. -/
def valueStarted (s : ResponseScanner) : ResponseScanner :=
  { { s with value := {} }.startMember with phase := .inValue }

@[simp] theorem value_valueStarted (s : ResponseScanner) : s.valueStarted.value = {} := by
  unfold valueStarted startMember
  simp only
  split <;> rfl

/-- A new member is started and its value consumed. -/
theorem captured (s : ResponseScanner) (scan : ValueScan) (bytes : List UInt8) :
    (s.valueStarted.consumed scan bytes).result
        = (if s.member = .result then some ⟨bytes, bytes.length⟩ else s.result) ∧
      (s.valueStarted.consumed scan bytes).error
        = (if s.member = .error then some (bytes.take maxErrorCapture) else s.error) := by
  unfold valueStarted
  obtain ⟨phase, key, keyOverflow, value, member, result, error⟩ := s
  cases member with
  | result => simp [startMember, consumed, consumeMember]
  | error =>
      have htake : bytes.take (min bytes.length maxErrorCapture) = bytes.take maxErrorCapture := by
        rw [List.take_eq_take_iff]
        omega
      simp [startMember, consumed, consumeMember, htake]
  | other => simp [startMember, consumed, consumeMember]

theorem delimit_comma (s : ResponseScanner) : s.delimit 0x2c = .ok { s with phase := .beforeKey } := rfl

theorem delimit_brace (s : ResponseScanner) : s.delimit 0x7d = .ok { s with phase := .finished } := rfl

/-- A member is scanned up to the byte after it. -/
theorem entry_delimited {s : ResponseScanner} (hphase : s.phase = .beforeKey) (entry : Entry) :
    ∃ s' : ResponseScanner, s'.result = resultAfter entry s.result ∧ s'.error = errorAfter entry s.error ∧
      ∀ byte, ValueScan.endsLiteral byte = true →
        (entry.text ++ [byte]).foldlM step s = s'.delimit byte := by
  obtain ⟨before, key, afterKey, beforeValue, value, after⟩ := entry
  -- up to the colon
  have hquote : s.step 0x22 = .ok s.keyStarted := by
    simp only [step, hphase]
    rfl
  have hbody := @runs_body s.keyStarted rfl key
  obtain ⟨hkeyresult, hkeyerror⟩ := pushed_frame s.keyStarted (key.flatMap unescaped)
  have hkeyphase := @phase_pushed s.keyStarted rfl (key.flatMap unescaped)
  have hclassify := classify_pushed s (key.flatMap unescaped)
  change Member.classify (s.keyStarted.pushed _).key (s.keyStarted.pushed _).keyOverflow = _
    at hclassify
  generalize s.keyStarted.pushed (key.flatMap unescaped) = keyed at *
  have hend : keyed.step 0x22 = .ok keyed.keyEnded := by
    simp only [step, hkeyphase]
    rfl
  have hkey : Runs s (before.text ++ JsonText.quoted key ++ afterKey.text) keyed.keyEnded :=
    ((runs_blanks before (Or.inr (Or.inl hphase))).append
      (Runs.cons hquote (hbody.append (Runs.single hend)))).append
        (runs_blanks afterKey (Or.inr (Or.inr (Or.inl rfl))))
  -- the value
  have hcolon : keyed.keyEnded.step 0x3a = .ok keyed.keyEnded.valueStarted := rfl
  have hblanks : Runs keyed.keyEnded.valueStarted beforeValue.text keyed.keyEnded.valueStarted := by
    refine Runs.of_forall fun byte hbyte => ?_
    obtain ⟨blank, -, rfl⟩ := List.mem_map.1 hbyte
    have hskipped : ValueScan.scanByte {} blank.byte = .skipped := by cases blank <;> rfl
    have hinValue : keyed.keyEnded.valueStarted.phase = .inValue := rfl
    simp only [step, hinValue, value_valueStarted, hskipped]
  obtain ⟨scan, hscan⟩ := @value_after keyed.keyEnded.valueStarted rfl (value_valueStarted _) value
  obtain ⟨hresult, herror⟩ := captured keyed.keyEnded scan value.text
  refine ⟨(keyed.keyEnded.valueStarted.consumed scan value.text).completed, ?_, ?_,
    fun byte hends => ?_⟩
  · refine hresult.trans ?_
    simp only [resultAfter, scannedKey, keyEnded, hclassify, hkeyresult]
    rfl
  · refine herror.trans ?_
    simp only [errorAfter, scannedKey, keyEnded, hclassify, hkeyerror]
    rfl
  · have htext : (Entry.mk before key afterKey beforeValue value after).text ++ [byte]
        = before.text ++ JsonText.quoted key ++ afterKey.text ++ 0x3a :: beforeValue.text
          ++ (value.text ++ (after.text ++ [byte])) := by
      simp [Entry.text]
    rw [htext, List.foldlM_append, hkey.append (Runs.cons hcolon hblanks)]
    exact hscan after byte hends

/-- The members of the object, up to the brace that closes it -/
theorem entries_closed {s : ResponseScanner} (hphase : s.phase = .beforeKey) (entries : List Entry) :
    ∃ s' : ResponseScanner, Runs s (JsonText.entriesText entries ++ [0x7d]) s' ∧ s'.phase = .finished ∧
      s'.result = entries.foldl (fun result entry => resultAfter entry result) s.result ∧
      s'.error = entries.foldl (fun error entry => errorAfter entry error) s.error := by
  induction entries generalizing s with
  | nil =>
      refine ⟨{ s with phase := .finished }, Runs.single ?_, rfl, rfl, rfl⟩
      simp only [step, hphase]
      rfl
  | cons entry entries ih =>
      obtain ⟨s', hresult, herror, hdelimit⟩ := entry_delimited hphase entry
      cases entries with
      | nil =>
          refine ⟨{ s' with phase := .finished }, ?_, rfl, hresult, herror⟩
          exact (hdelimit 0x7d rfl).trans (delimit_brace s')
      | cons next entries =>
          have hcomma : Runs s (entry.text ++ [0x2c]) { s' with phase := .beforeKey } :=
            (hdelimit 0x2c rfl).trans (delimit_comma s')
          obtain ⟨s'', hrun, hfinished, hresult', herror'⟩ := @ih { s' with phase := .beforeKey } rfl
          refine ⟨s'', ?_, hfinished, ?_, ?_⟩
          · have htext : JsonText.entriesText (entry :: next :: entries) ++ [0x7d]
                = entry.text ++ [0x2c] ++ (JsonText.entriesText (next :: entries) ++ [0x7d]) := by
              simp [JsonText.entriesText]
            rw [htext]
            exact hcomma.append hrun
          · refine hresult'.trans ?_
            simp only [hresult, List.foldl_cons]
          · refine herror'.trans ?_
            simp only [herror, List.foldl_cons]

/-- The scanner on the text of an object -/
theorem object_scanned (object : ObjectText) :
    ∃ s : ResponseScanner, Runs {} object.text s ∧ s.phase = .finished ∧
      s.result = object.entries.foldl (fun result entry => resultAfter entry result) none ∧
      s.error = object.entries.foldl (fun error entry => errorAfter entry error) none := by
  obtain ⟨before, blanks, entries, after⟩ := object
  have hopen : ({} : ResponseScanner).step 0x7b = .ok { phase := .beforeKey } := rfl
  obtain ⟨s, hrun, hfinished, hresult, herror⟩ := @entries_closed { phase := .beforeKey } rfl entries
  refine ⟨s, ?_, hfinished, hresult, herror⟩
  have htext : (ObjectText.mk before blanks entries after).text
      = before.text ++ (0x7b :: (blanks.text ++ (JsonText.entriesText entries ++ [0x7d])))
        ++ after.text := by
    simp [ObjectText.text, Value.text]
  rw [htext]
  exact ((runs_blanks before (Or.inl rfl)).append
    (Runs.cons hopen ((runs_blanks blanks (Or.inr (Or.inl rfl))).append hrun))).append
      (runs_blanks after (Or.inr (Or.inr (Or.inr (Or.inr hfinished)))))

end ResponseScanner

end TxGen.CallReplay
