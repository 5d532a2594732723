import TxGen.Lib.Decimal
import TxGen.Metrics.Sample

set_option autoImplicit false

/-! # The sample archive

`SampleStore` and `SampleArchive` of `bench-core`'s `sample.rs`: samples are appended to a file, one JSON
object a line, and read back with a cutoff that is applied to the raw lines. A file is its bytes. How
`serde_json` writes a string or a float, and how it reads a line, are parameters. -/

namespace TxGen.Metrics

/-! ## Labels -/

/-- `entry(key).or_insert(value)` on the entries of a map -/
def insertEntry (key value : String) : List (String × String) → List (String × String)
  | [] => [(key, value)]
  | entry :: rest =>
    if key < entry.1 then (key, value) :: entry :: rest
    else if key = entry.1 then entry :: rest
    else entry :: insertEntry key value rest

theorem mem_insertEntry {key value : String} {entry : String × String}
    {entries : List (String × String)} (h : entry ∈ insertEntry key value entries) :
    entry = (key, value) ∨ entry ∈ entries := by
  induction entries with
  | nil => simpa [insertEntry] using h
  | cons first rest ih =>
      rw [insertEntry] at h
      split at h
      · simpa using h
      · split at h
        · exact Or.inr h
        · rcases List.mem_cons.1 h with rfl | h
          · exact Or.inr List.mem_cons_self
          · rcases ih h with h | h
            · exact Or.inl h
            · exact Or.inr (List.mem_cons_of_mem _ h)

theorem sorted_insertEntry {key value : String} {entries : List (String × String)}
    (h : entries.Pairwise fun a b => a.1 < b.1) :
    (insertEntry key value entries).Pairwise fun a b => a.1 < b.1 := by
  induction entries with
  | nil => simp [insertEntry]
  | cons first rest ih =>
      obtain ⟨hfirst, hrest⟩ := List.pairwise_cons.1 h
      rw [insertEntry]
      split
      · rename_i hlt
        refine List.pairwise_cons.2 ⟨fun entry hentry => ?_, h⟩
        rcases List.mem_cons.1 hentry with rfl | hentry
        · exact hlt
        · exact lt_trans hlt (hfirst entry hentry)
      · rename_i hge
        split
        · exact h
        · rename_i hne
          refine List.pairwise_cons.2 ⟨fun entry hentry => ?_, ih hrest⟩
          rcases mem_insertEntry hentry with rfl | hentry
          · exact lt_of_le_of_ne (not_lt.1 hge) (Ne.symm hne)
          · exact hfirst entry hentry

def LabelMap.orInsert (labels : LabelMap) (key value : String) : LabelMap :=
  ⟨insertEntry key value labels.entries, sorted_insertEntry labels.sorted⟩

def applyLabels (sample : Sample) (labels : List (String × String)) : Sample :=
  { sample with
    labels := labels.foldl (fun map entry => map.orInsert entry.1 entry.2) sample.labels }

/-! ## Lines -/

/-- The bytes of an ASCII text -/
def ascii (text : String) : List UInt8 := text.toList.map fun c => UInt8.ofNat c.toNat

def newline : UInt8 := 0x0a

/-- What is used of `serde_json` -/
structure Json where
  string : String → List UInt8
  float : F64 → List UInt8
  fromSlice : List UInt8 → Except Report Sample

section Lines

variable (json : Json)

def entryText (entry : String × String) : List UInt8 :=
  json.string entry.1 ++ ascii ":" ++ json.string entry.2

/-- `to_writer` of a sample: its fields in the order of their declaration -/
def sampleText (sample : Sample) : List UInt8 :=
  ascii "\x7b\"name\":" ++ json.string sample.name ++
    ascii ",\"labels\":\x7b" ++ (ascii ",").intercalate (sample.labels.entries.map (entryText json)) ++
    ascii "\x7d,\"value\":" ++ json.float sample.value ++
    ascii ",\"offset_ms\":" ++ Decimal.text sample.offsetMs.toNat ++
    ascii ",\"unix_ms\":" ++ Decimal.text sample.unixMs.toNat ++ ascii "\x7d"

def sampleLine (sample : Sample) : List UInt8 := sampleText json sample ++ [newline]

/-! ## Store -/

/-- Append-only sample store: the bytes written so far, and whether the writer is open. -/
structure SampleStore where
  file : List UInt8 := []
  writer : Bool := true
  len : ℕ := 0
  labels : List (String × String)

/-- A finalized sample archive -/
structure SampleArchive where
  file : List UInt8
  len : ℕ
  retainUntilUnixMs : Option UInt64

namespace SampleStore

/-- Create a new empty sample store that adds run-level labels as samples are written. -/
def withLabels (labels : List (String × String)) : SampleStore := { labels }

/-- Append a batch of samples, except those with non-finite values. -/
def pushBatchInner (store : SampleStore) (samples : List Sample) (collectWritten : Bool) :
    Except Report (List Sample) × SampleStore :=
  if samples.isEmpty then (.ok [], store)
  else if !store.writer then (bail "sample store has already been finalized", store)
  else
    let written := (samples.filter (·.value.isFinite)).map (applyLabels · store.labels)
    (.ok (if collectWritten then written else []),
      { store with
        file := store.file ++ written.flatMap (sampleLine json)
        len := store.len + written.length })

/-- Append a batch of samples. -/
def pushBatch (store : SampleStore) (samples : List Sample) : Except Report Unit × SampleStore :=
  ((store.pushBatchInner json samples false).1.map fun _ => (),
    (store.pushBatchInner json samples false).2)

/-- Append a batch of samples and return the samples that were actually written. -/
def pushBatchAndCollect (store : SampleStore) (samples : List Sample) :
    Except Report (List Sample) × SampleStore :=
  store.pushBatchInner json samples true

/-- Finalize the sample archive. -/
def finish (store : SampleStore) : SampleArchive × SampleStore :=
  (⟨store.file, store.len, none⟩, { store with writer := false })

end SampleStore

/-! ## Reading -/

/-- `read_until` a newline: the bytes up to and with it, and what is left -/
def readUntil : List UInt8 → List UInt8 × List UInt8
  | [] => ([], [])
  | byte :: rest =>
    if byte = newline then ([byte], rest) else (byte :: (readUntil rest).1, (readUntil rest).2)

theorem length_readUntil (file : List UInt8) :
    (readUntil file).1.length + (readUntil file).2.length = file.length := by
  fun_induction readUntil file with
  | case1 => rfl
  | case2 rest => simp [Nat.add_comm]
  | case3 byte rest hbyte ih =>
      simp only [List.length_cons]
      omega

def unixMsJsonKey : List UInt8 := ascii "\"unix_ms\""

/-- Where the key stands last in the line -/
def keyStart (line : List UInt8) : Option ℕ :=
  (List.range (line.length + 1 - unixMsJsonKey.length)).reverse.find? fun i =>
    (line.drop i).take unixMsJsonKey.length = unixMsJsonKey

def isJsonWhitespace (byte : UInt8) : Bool := byte ∈ ascii " \n\r\t"

/-- The digits at the start of the bytes, after those that were read: the value, whether there were
    digits, and what is left -/
def scanDigits : ℕ → Bool → List UInt8 → Except Report (ℕ × Bool × List UInt8)
  | value, hasDigits, [] => .ok (value, hasDigits, [])
  | value, hasDigits, byte :: rest =>
    if Decimal.IsDigit byte then
      if value * 10 < 2 ^ 64 ∧ Decimal.shift value byte < 2 ^ 64 then
        scanDigits (Decimal.shift value byte) true rest
      else bail "sample archive line unix_ms overflows u64"
    else .ok (value, hasDigits, byte :: rest)

def sampleLineUnixMs (line : List UInt8) : Except Report UInt64 :=
  match keyStart line with
  | none => bail "sample archive line is missing unix_ms"
  | some start =>
    match (line.drop (start + unixMsJsonKey.length)).dropWhile isJsonWhitespace with
    | 0x3a :: rest => do
      let (value, hasDigits, rest) ← scanDigits 0 false (rest.dropWhile isJsonWhitespace)
      bailIf (hasDigits = false) "sample archive line has invalid unix_ms value"
      bailIf (rest.head?.any fun byte => byte ∉ ascii ",\x7d \n\r\t")
        "sample archive line has invalid unix_ms delimiter"
      return UInt64.ofNat value
    | _ => bail "sample archive line has invalid unix_ms field"

namespace SampleArchive

/-- Set a lazy cutoff so reads skip samples after `cutoff_ms`. -/
def retainUntil (archive : SampleArchive) (cutoffMs : UInt64) : SampleArchive :=
  { archive with
    retainUntilUnixMs := some (archive.retainUntilUnixMs.elim cutoffMs fun current =>
      min current cutoffMs) }

end SampleArchive

/-- Whether the line is after the cutoff -/
def skips (retainUntilUnixMs : Option UInt64) (line : List UInt8) : Except Report Bool :=
  match retainUntilUnixMs with
  | none => .ok false
  | some cutoffMs =>
    (wrapErr (sampleLineUnixMs line) "failed to scan sample archive line timestamp").map (cutoffMs < ·)

/-- `SampleArchiveIter::next`, with what is left of the file -/
def next (retainUntilUnixMs : Option UInt64) (file : List UInt8) :
    Option (Except Report Sample) × List UInt8 :=
  match _h : readUntil file with
  | ([], rest) => (none, rest)
  | (byte :: bytes, rest) =>
    match skips retainUntilUnixMs (byte :: bytes) with
    | .error report => (some (.error report), rest)
    | .ok true => next retainUntilUnixMs rest
    | .ok false =>
      (some (wrapErr (json.fromSlice (byte :: bytes)) "failed to parse sample archive line"), rest)
termination_by file.length
decreasing_by
  have := length_readUntil file
  rw [_h] at this
  simp only [List.length_cons] at this
  omega

theorem length_next (retainUntilUnixMs : Option UInt64) (file : List UInt8)
    (h : (next json retainUntilUnixMs file).1 ≠ none) :
    (next json retainUntilUnixMs file).2.length < file.length := by
  have hlen {byte : UInt8} {bytes rest file : List UInt8}
      (hread : readUntil file = (byte :: bytes, rest)) : rest.length < file.length := by
    have hsum := length_readUntil file
    rw [hread] at hsum
    simp only [List.length_cons] at hsum
    omega
  fun_induction next json retainUntilUnixMs file with
  | case1 file rest hread => exact absurd rfl h
  | case2 file byte bytes rest hread report hskips => exact hlen hread
  | case3 file byte bytes rest hread hskips ih => exact (ih h).trans (hlen hread)
  | case4 file byte bytes rest hread hskips => exact hlen hread

/-- What the iterator yields -/
def items (retainUntilUnixMs : Option UInt64) (file : List UInt8) : List (Except Report Sample) :=
  match _h : next json retainUntilUnixMs file with
  | (none, _) => []
  | (some item, rest) => item :: items retainUntilUnixMs rest
termination_by file.length
decreasing_by
  have := length_next json retainUntilUnixMs file (by simp [_h])
  rwa [_h] at this

/-- The lines that are written, and their number -/
def writeLines (cutoffMs : UInt64) (file : List UInt8) : Except Report (List UInt8 × ℕ) :=
  match _h : readUntil file with
  | ([], _) => .ok ([], 0)
  | (byte :: bytes, rest) => do
    let unixMs ← wrapErr (sampleLineUnixMs (byte :: bytes))
      "failed to scan sample archive line timestamp"
    let (written, count) ← writeLines cutoffMs rest
    return if unixMs ≤ cutoffMs then (byte :: bytes ++ written, count + 1) else (written, count)
termination_by file.length
decreasing_by
  have := length_readUntil file
  rw [_h] at this
  simp only [List.length_cons] at this
  omega

namespace SampleArchive

/-- Iterate over samples in the archive. -/
def iter (archive : SampleArchive) : List (Except Report Sample) :=
  items json archive.retainUntilUnixMs archive.file

/-- Write NDJSON samples, applying any lazy cutoff. -/
def writeNdjsonTo (archive : SampleArchive) : Except Report (List UInt8 × ℕ) :=
  match archive.retainUntilUnixMs with
  | none => .ok (archive.file, archive.len)
  | some cutoffMs => writeLines cutoffMs archive.file

end SampleArchive

end Lines

end TxGen.Metrics
