import TxGen.Metrics.Archive

set_option autoImplicit false

/-! # Reading with a cutoff

Reading an archive with a cutoff yields what parsing its lines and filtering the samples would. The
timestamp that the scan of a line finds is that of the sample: after the last field of a line there is
no quote, so the last occurrence of its key is the field itself, whatever the strings before it hold. -/

namespace TxGen.Metrics

/-! ## Scanning a line -/

theorem find?_reverse_range {p : ℕ → Bool} {i n : ℕ} (hi : p i = true) (hin : i < n)
    (hlast : ∀ j, i < j → j < n → p j = false) : (List.range n).reverse.find? p = some i := by
  induction n with
  | zero => omega
  | succ n ih =>
      rw [List.range_succ, List.reverse_append, List.reverse_singleton, List.singleton_append]
      rcases Nat.lt_succ_iff_lt_or_eq.1 hin with hlt | rfl
      · rw [List.find?_cons_of_neg (by simp [hlast n hlt (Nat.lt_succ_self n)])]
        exact ih hlt fun j hij hjn => hlast j hij (Nat.lt_succ_of_lt hjn)
      · rw [List.find?_cons_of_pos hi]

/-- The byte at the end of the key -/
theorem getElem?_of_key {line : List UInt8} {i : ℕ}
    (h : (line.drop i).take unixMsJsonKey.length = unixMsJsonKey) :
    (line.drop i)[8]? = some 0x22 := by
  have hlast : ((line.drop i).take unixMsJsonKey.length)[8]? = some 0x22 := by
    rw [h]
    decide
  rw [List.getElem?_take_of_lt (by decide)] at hlast
  exact hlast

/-- A key with no quote after it is the last one. -/
theorem keyStart_last {before tail : List UInt8} (htail : ∀ byte ∈ tail, byte ≠ 0x22) :
    keyStart (before ++ (unixMsJsonKey ++ tail)) = some before.length := by
  have hlen : unixMsJsonKey.length = 9 := by decide
  refine find?_reverse_range ?_ ?_ fun j hj _ => ?_
  · simp
  · simp only [List.length_append]
    omega
  · refine decide_eq_false fun h => ?_
    have hquote := getElem?_of_key h
    rw [List.getElem?_drop, List.getElem?_append_right (by omega),
      List.getElem?_append_right (by omega)] at hquote
    exact htail _ (List.mem_of_getElem? hquote) rfl

theorem isJsonWhitespace_digit {byte : UInt8} (h : Decimal.IsDigit byte) :
    isJsonWhitespace byte = false := by
  have hbytes : ascii " \n\r\t" = [0x20, 0x0a, 0x0d, 0x09] := by decide
  refine decide_eq_false fun hmem => ?_
  rw [hbytes] at hmem
  simp only [List.mem_cons, List.not_mem_nil, or_false] at hmem
  rcases hmem with rfl | rfl | rfl | rfl <;> exact absurd h (by decide)

/-- The digits are read up to the first byte that is none. -/
theorem scanDigits_digits {digits rest : List UInt8} (hdigits : ∀ byte ∈ digits, Decimal.IsDigit byte)
    (hrest : ∀ byte, rest.head? = some byte → ¬ Decimal.IsDigit byte) {value : ℕ} {hasDigits : Bool}
    (hvalue : digits.foldl Decimal.shift value < 2 ^ 64) :
    scanDigits value hasDigits (digits ++ rest) =
      .ok (digits.foldl Decimal.shift value, hasDigits || !digits.isEmpty, rest) := by
  induction digits generalizing value hasDigits with
  | nil =>
      cases rest with
      | nil => simp [scanDigits]
      | cons byte rest => simp [scanDigits, hrest byte rfl]
  | cons byte digits ih =>
      rw [List.foldl_cons] at hvalue ⊢
      have hshift : Decimal.shift value byte < 2 ^ 64 :=
        (Decimal.le_foldl_shift _ digits).trans_lt hvalue
      have hmul : value * 10 < 2 ^ 64 := by
        unfold Decimal.shift at hshift
        omega
      rw [List.cons_append, scanDigits, if_pos (hdigits byte List.mem_cons_self), if_pos ⟨hmul, hshift⟩,
        ih (fun b hb => hdigits b (List.mem_cons_of_mem _ hb)) hvalue]
      simp

/-- The scan finds the timestamp after the last key. -/
theorem sampleLineUnixMs_last (before : List UInt8) (unixMs : UInt64) :
    sampleLineUnixMs (before ++ (unixMsJsonKey ++ 0x3a :: (Decimal.text unixMs.toNat ++ [0x7d, newline]))) =
      .ok unixMs := by
  have htail : ∀ byte ∈ (0x3a :: (Decimal.text unixMs.toNat ++ [0x7d, newline]) : List UInt8),
      byte ≠ 0x22 := by
    intro byte hbyte
    rcases List.mem_cons.1 hbyte with rfl | hbyte
    · decide
    · rcases List.mem_append.1 hbyte with hbyte | hbyte
      · rintro rfl
        exact absurd (Decimal.isDigit_of_mem_text hbyte) (by decide)
      · simp only [newline, List.mem_cons, List.not_mem_nil, or_false] at hbyte
        rcases hbyte with rfl | rfl <;> decide
  obtain ⟨first, digits, hdigits⟩ := List.exists_cons_of_ne_nil (Decimal.text_ne_nil unixMs.toNat)
  have hfirst : isJsonWhitespace first = false :=
    isJsonWhitespace_digit (Decimal.isDigit_of_mem_text (hdigits ▸ List.mem_cons_self))
  have hstart : (Decimal.text unixMs.toNat ++ [0x7d, newline]).dropWhile isJsonWhitespace =
      Decimal.text unixMs.toNat ++ [0x7d, newline] := by
    rw [hdigits, List.cons_append, List.dropWhile_cons_of_neg (by simp [hfirst])]
  have hscan : scanDigits 0 false (Decimal.text unixMs.toNat ++ [0x7d, newline]) =
      .ok (unixMs.toNat, true, [0x7d, newline]) := by
    rw [scanDigits_digits (fun _ => Decimal.isDigit_of_mem_text) (by simp; decide)
      (by rw [Decimal.foldl_shift_text]; exact unixMs.toNat_lt)]
    simp [Decimal.foldl_shift_text, Decimal.text_ne_nil]
  have hdrop : (before ++ (unixMsJsonKey ++
      0x3a :: (Decimal.text unixMs.toNat ++ [0x7d, newline]))).drop
        (before.length + unixMsJsonKey.length) =
      0x3a :: (Decimal.text unixMs.toNat ++ [0x7d, newline]) := by
    rw [← List.append_assoc, ← List.length_append, List.drop_left]
  have hcolon : isJsonWhitespace 0x3a = false := by decide
  rw [sampleLineUnixMs, keyStart_last htail]
  simp only [hdrop]
  rw [List.dropWhile_cons_of_neg (by simp [hcolon])]
  simp only [hstart, hscan, bind, Except.bind]
  have hdelimiter : (0x7d : UInt8) ∈ ascii ",\x7d \n\r\t" := by decide
  simp [bailIf, pure, Except.pure, hdelimiter]

/-! ## Lines of samples -/

/-- What `serde_json` guarantees: no line break within a string or a number, and the line of a sample is
    read as that sample. Its value may be read as a neighbour of the float that was written. -/
structure Json.Lawful (json : Json) (reread : F64 → F64) (samples : List Sample) : Prop where
  string_line : ∀ text, newline ∉ json.string text
  float_line : ∀ value, value.isFinite = true → newline ∉ json.float value
  fromSlice_line : ∀ sample ∈ samples,
    json.fromSlice (sampleLine json sample) = .ok { sample with value := reread sample.value }

variable {json : Json} {reread : F64 → F64} {all : List Sample}

theorem Json.Lawful.mono {samples samples' : List Sample} (h : json.Lawful reread samples')
    (hsub : ∀ sample ∈ samples, sample ∈ samples') : json.Lawful reread samples :=
  ⟨h.string_line, h.float_line, fun sample hmem => h.fromSlice_line sample (hsub sample hmem)⟩

theorem newline_not_mem_decimal (n : ℕ) : newline ∉ Decimal.text n := fun h =>
  absurd (Decimal.isDigit_of_mem_text h) (by decide)

theorem newline_not_mem_intercalate {sep : List UInt8} {texts : List (List UInt8)}
    (hsep : newline ∉ sep) (htexts : ∀ text ∈ texts, newline ∉ text) :
    newline ∉ sep.intercalate texts := by
  induction texts with
  | nil => simp [List.intercalate]
  | cons first rest ih =>
      have hrest := ih fun text h => htexts text (List.mem_cons_of_mem _ h)
      cases rest with
      | nil => simpa [List.intercalate] using htexts first List.mem_cons_self
      | cons second rest =>
          have hfirst := htexts first List.mem_cons_self
          simp only [List.intercalate, List.intersperse, List.flatten_cons, List.mem_append,
            not_or] at hrest ⊢
          exact ⟨hfirst, hsep, hrest⟩

/-- A sample is written in one line. -/
theorem newline_not_mem_sampleText (hjson : json.Lawful reread all) {sample : Sample}
    (hfinite : sample.value.isFinite = true) : newline ∉ sampleText json sample := by
  have hentries : newline ∉ (ascii ",").intercalate (sample.labels.entries.map (entryText json)) := by
    refine newline_not_mem_intercalate (by decide) fun text htext => ?_
    obtain ⟨entry, -, rfl⟩ := List.mem_map.1 htext
    have hcolon : newline ∉ ascii ":" := by decide
    simp [entryText, hjson.string_line, hcolon]
  have hname := hjson.string_line sample.name
  have hvalue := hjson.float_line sample.value hfinite
  have hoffset := newline_not_mem_decimal sample.offsetMs.toNat
  have hunix := newline_not_mem_decimal sample.unixMs.toNat
  simp only [sampleText, List.mem_append, hentries, hname, hvalue, hoffset, hunix, or_false]
  decide

theorem readUntil_line {text rest : List UInt8} (htext : newline ∉ text) :
    readUntil (text ++ newline :: rest) = (text ++ [newline], rest) := by
  induction text with
  | nil => simp [readUntil]
  | cons byte text ih =>
      obtain ⟨hbyte, htext⟩ := not_or.1 (List.mem_cons.not.1 htext)
      rw [List.cons_append, readUntil, if_neg (Ne.symm hbyte), ih htext]
      rfl

theorem readUntil_sampleLine (hjson : json.Lawful reread all) {sample : Sample}
    (hfinite : sample.value.isFinite = true) (rest : List UInt8) :
    readUntil (sampleLine json sample ++ rest) = (sampleLine json sample, rest) := by
  rw [sampleLine, List.append_assoc]
  exact readUntil_line (newline_not_mem_sampleText hjson hfinite)

/-- The timestamp is the last field of a line. -/
theorem exists_before (json : Json) (sample : Sample) : ∃ before, sampleLine json sample =
    before ++ (unixMsJsonKey ++ 0x3a :: (Decimal.text sample.unixMs.toNat ++ [0x7d, newline])) := by
  have hkey : ascii ",\"unix_ms\":" = 0x2c :: (unixMsJsonKey ++ [0x3a]) := by decide
  have hbrace : ascii "\x7d" = [0x7d] := by decide
  refine ⟨ascii "\x7b\"name\":" ++ json.string sample.name ++
    ascii ",\"labels\":\x7b" ++ (ascii ",").intercalate (sample.labels.entries.map (entryText json)) ++
    ascii "\x7d,\"value\":" ++ json.float sample.value ++
    ascii ",\"offset_ms\":" ++ Decimal.text sample.offsetMs.toNat ++ [0x2c], ?_⟩
  rw [sampleLine, sampleText, hkey, hbrace]
  simp only [List.append_assoc, List.cons_append, List.nil_append]

/-- The scan of a written line finds the timestamp of its sample. -/
theorem sampleLineUnixMs_sampleLine (json : Json) (sample : Sample) :
    sampleLineUnixMs (sampleLine json sample) = .ok sample.unixMs := by
  obtain ⟨before, hbefore⟩ := exists_before json sample
  rw [hbefore]
  exact sampleLineUnixMs_last before sample.unixMs

/-! ## Reading an archive -/

/-- Whether the sample is at or before the cutoff -/
def retains (retainUntilUnixMs : Option UInt64) (sample : Sample) : Bool :=
  retainUntilUnixMs.all fun cutoffMs => sample.unixMs ≤ cutoffMs

theorem skips_sampleLine (json : Json) (retainUntilUnixMs : Option UInt64) (sample : Sample) :
    skips retainUntilUnixMs (sampleLine json sample) = .ok (!retains retainUntilUnixMs sample) := by
  cases retainUntilUnixMs with
  | none => rfl
  | some cutoffMs =>
      have hnot : decide (cutoffMs < sample.unixMs) = !decide (sample.unixMs ≤ cutoffMs) := by
        rw [← decide_not]
        exact decide_eq_decide.2 UInt64.not_le.symm
      rw [skips, sampleLineUnixMs_sampleLine]
      simp [wrapErr, Except.mapError, Except.map, retains, hnot]

theorem exists_sampleLine (json : Json) (sample : Sample) :
    ∃ byte bytes, sampleLine json sample = byte :: bytes :=
  List.exists_cons_of_ne_nil (by simp [sampleLine])

theorem next_sampleLine (hjson : json.Lawful reread all) (retainUntilUnixMs : Option UInt64)
    {sample : Sample} (hmem : sample ∈ all) (hfinite : sample.value.isFinite = true)
    (rest : List UInt8) :
    next json retainUntilUnixMs (sampleLine json sample ++ rest) =
      if retains retainUntilUnixMs sample then
        (some (.ok { sample with value := reread sample.value }), rest)
      else next json retainUntilUnixMs rest := by
  obtain ⟨byte, bytes, hline⟩ := exists_sampleLine json sample
  have hread := readUntil_sampleLine hjson hfinite rest
  have hskips := skips_sampleLine json retainUntilUnixMs sample
  have hparse := hjson.fromSlice_line sample hmem
  rw [hline] at hread hskips hparse ⊢
  rw [next]
  split
  · rename_i heq
    cases hread.symm.trans heq
  · rename_i byte' bytes' rest' heq
    obtain ⟨hcons, rfl⟩ := Prod.mk.inj (hread.symm.trans heq)
    obtain ⟨rfl, rfl⟩ := List.cons.inj hcons
    rw [hskips]
    cases retains retainUntilUnixMs sample with
    | true => simp [hparse, wrapErr, Except.mapError]
    | false => simp

theorem items_eq (retainUntilUnixMs : Option UInt64) (file : List UInt8) :
    items json retainUntilUnixMs file =
      match next json retainUntilUnixMs file with
      | (none, _) => []
      | (some item, rest) => item :: items json retainUntilUnixMs rest := by
  rw [items]
  split <;> rename_i heq <;> rw [heq]

/-- The iterator yields the samples up to the cutoff, in the order of the file. -/
theorem items_flatMap {samples : List Sample} (hjson : json.Lawful reread samples)
    (retainUntilUnixMs : Option UInt64) (hfinite : ∀ sample ∈ samples, sample.value.isFinite = true) :
    items json retainUntilUnixMs (samples.flatMap (sampleLine json)) =
      (samples.filter (retains retainUntilUnixMs)).map fun sample =>
        .ok { sample with value := reread sample.value } := by
  induction samples with
  | nil =>
      rw [items_eq, next]
      rfl
  | cons sample rest ih =>
      have hrest := ih (hjson.mono fun s hs => List.mem_cons_of_mem _ hs) fun s hs =>
        hfinite s (List.mem_cons_of_mem _ hs)
      rw [List.flatMap_cons, items_eq, next_sampleLine hjson _ List.mem_cons_self
        (hfinite sample List.mem_cons_self)]
      cases hretains : retains retainUntilUnixMs sample with
      | true =>
          rw [List.filter_cons_of_pos hretains, List.map_cons, ← hrest]
          rfl
      | false =>
          rw [List.filter_cons_of_neg (by simp [hretains]), ← hrest]
          exact (items_eq _ _).symm

/-- The lines up to the cutoff are written. -/
theorem writeLines_flatMap (hjson : json.Lawful reread all) (cutoffMs : UInt64) {samples : List Sample}
    (hfinite : ∀ sample ∈ samples, sample.value.isFinite = true) :
    writeLines cutoffMs (samples.flatMap (sampleLine json)) =
      .ok ((samples.filter (retains (some cutoffMs))).flatMap (sampleLine json),
        (samples.filter (retains (some cutoffMs))).length) := by
  induction samples with
  | nil =>
      rw [writeLines]
      rfl
  | cons sample rest ih =>
      have hrest := ih fun s hs => hfinite s (List.mem_cons_of_mem _ hs)
      obtain ⟨byte, bytes, hline⟩ := exists_sampleLine json sample
      have hread := readUntil_sampleLine hjson (hfinite sample List.mem_cons_self)
        (rest.flatMap (sampleLine json))
      have hunix := sampleLineUnixMs_sampleLine json sample
      rw [List.flatMap_cons, writeLines]
      rw [hline] at hread hunix ⊢
      split
      · rename_i heq
        cases hread.symm.trans heq
      · rename_i byte' bytes' rest' heq
        obtain ⟨hcons, rfl⟩ := Prod.mk.inj (hread.symm.trans heq)
        obtain ⟨rfl, rfl⟩ := List.cons.inj hcons
        simp only [hunix, hrest, wrapErr, Except.mapError, bind, Except.bind, pure, Except.pure]
        by_cases hle : sample.unixMs ≤ cutoffMs
        · rw [if_pos hle, List.filter_cons_of_pos (by simp [retains, hle]), List.flatMap_cons, hline,
            List.length_cons]
        · rw [if_neg hle, List.filter_cons_of_neg (by simp [retains, hle])]

/-! ## Archives -/

/-- The samples of the batches that are written, with the labels of the store -/
def written (labels : List (String × String)) (batches : List (List Sample)) : List Sample :=
  (batches.flatten.filter (·.value.isFinite)).map (applyLabels · labels)

/-- The store after batches are pushed -/
def pushed (json : Json) (labels : List (String × String)) (batches : List (List Sample)) :
    SampleStore :=
  batches.foldl (fun store batch => (store.pushBatch json batch).2) (SampleStore.withLabels labels)

/-- What is written by one more batch -/
theorem pushBatch_open {store : SampleStore} (hopen : store.writer = true) (batch : List Sample) :
    (store.pushBatch json batch).2 = { store with
      file := store.file ++ (written store.labels [batch]).flatMap (sampleLine json)
      len := store.len + (written store.labels [batch]).length } := by
  cases batch with
  | nil => simp [SampleStore.pushBatch, SampleStore.pushBatchInner, written]
  | cons sample rest =>
      simp [SampleStore.pushBatch, SampleStore.pushBatchInner, written, hopen]

theorem foldl_pushBatch (batches : List (List Sample)) {store : SampleStore}
    (hopen : store.writer = true) :
    batches.foldl (fun store batch => (store.pushBatch json batch).2) store = { store with
      file := store.file ++ (written store.labels batches).flatMap (sampleLine json)
      len := store.len + (written store.labels batches).length } := by
  induction batches generalizing store with
  | nil => simp [written]
  | cons batch rest ih =>
      have hrest := @ih (store.pushBatch json batch).2 (by rw [pushBatch_open hopen]; exact hopen)
      rw [List.foldl_cons, hrest, pushBatch_open hopen]
      simp [written, List.append_assoc, Nat.add_assoc]

theorem finite_written {labels : List (String × String)} {batches : List (List Sample)}
    {sample : Sample} (h : sample ∈ written labels batches) : sample.value.isFinite = true := by
  obtain ⟨source, hsource, rfl⟩ := List.mem_map.1 h
  exact (List.mem_filter.1 hsource).2

theorem retains_retainUntil (archive : SampleArchive) (cutoffMs : UInt64) (sample : Sample) :
    retains (archive.retainUntil cutoffMs).retainUntilUnixMs sample =
      (retains archive.retainUntilUnixMs sample && decide (sample.unixMs ≤ cutoffMs)) := by
  have hmin (current : UInt64) :
      sample.unixMs ≤ min current cutoffMs ↔ sample.unixMs ≤ current ∧ sample.unixMs ≤ cutoffMs := by
    show sample.unixMs ≤ (if current ≤ cutoffMs then current else cutoffMs) ↔ _
    split
    · rename_i hle
      exact ⟨fun h => ⟨h, UInt64.le_trans h hle⟩, And.left⟩
    · rename_i hgt
      have hle := UInt64.le_of_lt (UInt64.not_le.1 hgt)
      exact ⟨fun h => ⟨UInt64.le_trans h hle, h⟩, And.right⟩
  unfold SampleArchive.retainUntil retains
  cases archive.retainUntilUnixMs with
  | none => simp
  | some current => simp [hmin]

/-- The cutoff of an archive is the smallest it was given. -/
theorem retains_foldl (cutoffs : List UInt64) (archive : SampleArchive) (sample : Sample) :
    retains (cutoffs.foldl SampleArchive.retainUntil archive).retainUntilUnixMs sample =
      (retains archive.retainUntilUnixMs sample &&
        cutoffs.all fun cutoffMs => sample.unixMs ≤ cutoffMs) := by
  induction cutoffs generalizing archive with
  | nil => simp
  | cons cutoffMs rest ih =>
      rw [List.foldl_cons, ih, retains_retainUntil, List.all_cons, Bool.and_assoc]

theorem file_foldl (cutoffs : List UInt64) (archive : SampleArchive) :
    (cutoffs.foldl SampleArchive.retainUntil archive).file = archive.file ∧
      (cutoffs.foldl SampleArchive.retainUntil archive).len = archive.len := by
  induction cutoffs generalizing archive with
  | nil => exact ⟨rfl, rfl⟩
  | cons cutoffMs rest ih => exact ih _

/-- Reading an archive with cutoffs is parsing its lines and filtering the samples, and no line is
    malformed. -/
theorem archive_filtered (labels : List (String × String)) (batches : List (List Sample))
    (hjson : json.Lawful reread (written labels batches)) (cutoffs : List UInt64) :
    let archive := cutoffs.foldl SampleArchive.retainUntil (pushed json labels batches).finish.1
    let retained := (written labels batches).filter fun sample =>
      cutoffs.all fun cutoffMs => sample.unixMs ≤ cutoffMs
    archive.iter json = retained.map (fun sample =>
        .ok { sample with value := reread sample.value }) ∧
      archive.writeNdjsonTo = .ok (retained.flatMap (sampleLine json), retained.length) := by
  have hstore : pushed json labels batches = { SampleStore.withLabels labels with
      file := (written labels batches).flatMap (sampleLine json)
      len := (written labels batches).length } := by
    rw [pushed, foldl_pushBatch batches rfl]
    simp [SampleStore.withLabels]
  have hretains (sample : Sample) : retains
      (cutoffs.foldl SampleArchive.retainUntil (pushed json labels batches).finish.1).retainUntilUnixMs
        sample = cutoffs.all fun cutoffMs => sample.unixMs ≤ cutoffMs := by
    rw [retains_foldl]
    rfl
  obtain ⟨hfile, hlen⟩ := file_foldl cutoffs (pushed json labels batches).finish.1
  have hbytes : (pushed json labels batches).finish.1.file =
      (written labels batches).flatMap (sampleLine json) := by
    rw [hstore]
    rfl
  have hcount : (pushed json labels batches).finish.1.len = (written labels batches).length := by
    rw [hstore]
    rfl
  have hfinite : ∀ sample ∈ written labels batches, sample.value.isFinite = true :=
    fun _ => finite_written
  intro archive retained
  have hretained : (written labels batches).filter (retains archive.retainUntilUnixMs) = retained :=
    List.filter_congr fun sample _ => hretains sample
  refine ⟨?_, ?_⟩
  · rw [SampleArchive.iter, hfile, hbytes, items_flatMap hjson _ hfinite, hretained]
  · unfold SampleArchive.writeNdjsonTo
    cases hcutoff : archive.retainUntilUnixMs with
    | some cutoffMs =>
        show writeLines cutoffMs archive.file = _
        rw [hfile, hbytes, writeLines_flatMap hjson _ hfinite, ← hcutoff, hretained]
    | none =>
        have hall : retained = written labels batches := by
          rw [← hretained, hcutoff]
          exact List.filter_eq_self.2 fun _ _ => rfl
        rw [hfile, hlen, hbytes, hcount, hall]

namespace ArchiveSample

/-! Strings are written as `serde_json` does, and the number of the sample below. -/

def hexDigit (n : ℕ) : UInt8 := UInt8.ofNat (if n < 10 then 48 + n else 87 + n)

def escape (byte : UInt8) : List UInt8 :=
  if byte = 0x22 then ascii "\\\""
  else if byte = 0x5c then ascii "\\\\"
  else if byte = 0x08 then ascii "\\b"
  else if byte = 0x09 then ascii "\\t"
  else if byte = 0x0a then ascii "\\n"
  else if byte = 0x0c then ascii "\\f"
  else if byte = 0x0d then ascii "\\r"
  else if byte < 0x20 then ascii "\\u00" ++ [hexDigit (byte.toNat / 16), hexDigit (byte.toNat % 16)]
  else [byte]

def quoted (text : String) : List UInt8 := 0x22 :: text.toUTF8.toList.flatMap escape ++ [0x22]

/-- A label is named like the timestamp, and its value looks like the end of a line. -/
def hostile : Sample where
  name := "m"
  labels := ⟨[("unix_ms", "\",\"unix_ms\":7\x7d\n\\")], by decide⟩
  value := ⟨0x3ff0000000000000⟩
  offsetMs := 0
  unixMs := 42

def writer : Json where
  string := quoted
  float _ := ascii "1.0"
  fromSlice _ := bail "not a sample"

def reader : Json :=
  { writer with
    fromSlice := fun line =>
      if line = sampleLine writer hostile then .ok hostile else bail "not a sample" }

theorem newline_ne_hexDigit {n : ℕ} (h : n < 16) : newline ≠ hexDigit n := by
  have hall : ∀ n < 16, newline ≠ hexDigit n := by decide
  exact hall n h

theorem newline_not_mem_escape (byte : UInt8) : newline ∉ escape byte := by
  have hlt := byte.toNat_lt
  unfold escape
  split_ifs with _ _ _ _ hbyte
  · decide
  · decide
  · decide
  · decide
  · decide
  · decide
  · decide
  · rw [List.mem_append, not_or]
    refine ⟨by decide, ?_⟩
    simp only [List.mem_cons, List.not_mem_nil, or_false, not_or]
    exact ⟨newline_ne_hexDigit (by omega), newline_ne_hexDigit (by omega)⟩
  · exact fun hmem => hbyte (List.mem_singleton.1 hmem).symm

theorem reader_lawful : reader.Lawful id (written [] [[hostile]]) where
  string_line text := by
    have hquote : newline ≠ 0x22 := by decide
    simp [reader, writer, quoted, newline_not_mem_escape, hquote]
  float_line _ _ := by
    show newline ∉ ascii "1.0"
    decide
  fromSlice_line sample hmem := by
    obtain ⟨source, hsource, rfl⟩ := List.mem_map.1 hmem
    obtain rfl : source = hostile := by simpa using (List.mem_filter.1 hsource).1
    show (if sampleLine writer hostile = sampleLine writer hostile then _ else _) = _
    rw [if_pos rfl]
    rfl

theorem archive_filtered_hostile :
    reader.Lawful id (written [] [[hostile]]) ∧
      (([41].foldl SampleArchive.retainUntil (pushed reader [] [[hostile]]).finish.1).iter reader =
        []) :=
  ⟨reader_lawful, (archive_filtered [] [[hostile]] reader_lawful [41]).1⟩

end ArchiveSample

end TxGen.Metrics
