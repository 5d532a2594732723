import TxGen.Metrics.RemoteWrite

set_option autoImplicit false

/-! # Splitting keeps the samples

`encodeBoundedRequests` cuts the kept samples of a batch into segments, in their order, and encodes each.
It fails exactly if a single kept sample is over the limit: a request is at least as long as the one
of any of its samples, so the splitting goes on until that sample is alone. -/

namespace TxGen.Metrics

variable {order : List TimeSeries → List TimeSeries} {format : Format} {maxBytes : ℕ}

/-! ## What a request holds -/

/-- The samples of a request, each with the labels of its time series -/
def WriteRequest.contents (request : WriteRequest) : List (List Label × PromSample) :=
  request.timeseries.flatMap fun ts => ts.samples.map fun sample => (ts.labels, sample)

theorem contents_groups (samples : List Sample) :
    ((Grouping.groups seriesLabels samples).map groupSeries).flatMap
        (fun ts => ts.samples.map fun sample => (ts.labels, sample)) =
      ((Grouping.groups seriesLabels samples).flatMap Prod.snd).map
        fun s => (seriesLabels s, promSample s) := by
  rw [List.flatMap_map, List.map_flatMap]
  refine List.flatMap_congr fun g hg => ?_
  have hgroup := (Grouping.grouped_groups seriesLabels samples).group g hg
  simp only [groupSeries, List.map_map]
  refine List.map_congr_left fun s hs => ?_
  rw [hgroup] at hs
  simp [of_decide_eq_true (List.mem_filter.1 hs).2]

theorem sorted_samples_perm (ts : TimeSeries) : ts.sorted.samples.Perm ts.samples :=
  List.mergeSort_perm ..

/-- A request holds the samples that are not skipped, each exactly once. -/
theorem contents_perm (horder : ∀ map, (order map).Perm map) (samples : List Sample) :
    (buildWriteRequest order samples).contents.Perm
      ((samples.filter Sample.kept).map fun s => (seriesLabels s, promSample s)) := by
  have hsorted : (buildWriteRequest order samples).contents.Perm
      ((order (seriesMap samples)).flatMap fun ts => ts.samples.map fun sample =>
        (ts.labels, sample)) := by
    rw [WriteRequest.contents, buildWriteRequest, List.flatMap_map]
    exact List.Perm.flatMap_left _ fun ts _ => (sorted_samples_perm ts).map _
  refine hsorted.trans (((horder _).flatMap_right _).trans ?_)
  rw [seriesMap_eq, contents_groups]
  exact (Grouping.flatMap_groups_perm _ _).map _

theorem timeseries_ne_nil_iff (horder : ∀ map, (order map).Perm map) (samples : List Sample) :
    (buildWriteRequest order samples).timeseries ≠ [] ↔ samples.filter Sample.kept ≠ [] := by
  have hempty : (buildWriteRequest order samples).timeseries = [] ↔ seriesMap samples = [] := by
    rw [buildWriteRequest, List.map_eq_nil_iff, ← List.length_eq_zero_iff, (horder _).length_eq,
      List.length_eq_zero_iff]
  rw [Ne, hempty, seriesMap_eq, List.map_eq_nil_iff]
  constructor
  · intro h hnil
    exact h (by rw [hnil]; rfl)
  · intro h
    exact Grouping.groups_ne_nil h

/-! ## Sizes -/

/-- The size of a request is the sum of the sizes of its groups. -/
theorem size_eq {labelsLen : List Label → ℕ} {sampleLen : PromSample → ℕ} {field : ℕ → ℕ}
    (hfields : ∀ request, format.encodedLen request =
      (request.timeseries.map fun ts =>
        field (labelsLen ts.labels + (ts.samples.map sampleLen).sum)).sum)
    (horder : ∀ map, (order map).Perm map) (samples : List Sample) :
    format.encodedLen (buildWriteRequest order samples) =
      ((Grouping.groups seriesLabels (samples.filter Sample.kept)).map fun g =>
        field (labelsLen g.1 + (g.2.map fun s => sampleLen (promSample s)).sum)).sum := by
  rw [hfields, buildWriteRequest, List.map_map]
  have hsorted : ∀ ts : TimeSeries, field (labelsLen ts.sorted.labels +
      (ts.sorted.samples.map sampleLen).sum) =
        field (labelsLen ts.labels + (ts.samples.map sampleLen).sum) := by
    intro ts
    rw [((sorted_samples_perm ts).map sampleLen).sum_eq]
    rfl
  calc
    _ = ((order (seriesMap samples)).map fun ts =>
          field (labelsLen ts.labels + (ts.samples.map sampleLen).sum)).sum := by
        congr 1
        exact List.map_congr_left fun ts _ => hsorted ts
    _ = ((seriesMap samples).map fun ts =>
          field (labelsLen ts.labels + (ts.samples.map sampleLen).sum)).sum :=
        ((horder _).map _).sum_eq
    _ = _ := by
        rw [seriesMap_eq, List.map_map]
        simp only [Function.comp_def, groupSeries, List.map_map]

/-- A batch is at least as large as each of its kept samples. -/
theorem size_single_le (hformat : format.Lawful maxBytes) (horder : ∀ map, (order map).Perm map)
    {batch : List Sample} {s : Sample} (hmem : s ∈ batch) (hkept : s.kept = true) :
    format.encodedLen (buildWriteRequest order [s]) ≤
      format.encodedLen (buildWriteRequest order batch) := by
  obtain ⟨labelsLen, sampleLen, field, hmono, hfields⟩ := hformat.fields
  obtain ⟨as, hgroup, has⟩ := Grouping.exists_group seriesLabels
    (List.mem_filter.2 ⟨hmem, hkept⟩)
  have hsample : sampleLen (promSample s) ≤ (as.map fun s => sampleLen (promSample s)).sum :=
    List.le_sum_of_mem (List.mem_map_of_mem has)
  have hsingle : format.encodedLen (buildWriteRequest order [s]) =
      field (labelsLen (seriesLabels s) + sampleLen (promSample s)) := by
    rw [size_eq hfields horder, List.filter_singleton, hkept]
    simp [Grouping.groups, Grouping.insert]
  rw [hsingle, size_eq hfields horder]
  refine (hmono (Nat.add_le_add_left hsample _)).trans (List.le_sum_of_mem ?_)
  exact List.mem_map.2 ⟨_, hgroup, rfl⟩

/-- Nothing is encoded in no bytes. -/
theorem size_of_skipped (hformat : format.Lawful maxBytes) (horder : ∀ map, (order map).Perm map)
    {batch : List Sample} (hskipped : batch.filter Sample.kept = []) :
    format.encodedLen (buildWriteRequest order batch) = 0 := by
  obtain ⟨labelsLen, sampleLen, field, -, hfields⟩ := hformat.fields
  rw [size_eq hfields horder, hskipped]
  rfl

/-! ## Splitting -/

/-- The encoding of a segment of samples -/
structure Request (order : List TimeSeries → List TimeSeries) (format : Format) (maxBytes : ℕ)
    (segment : List Sample) (body : List UInt8) : Prop where
  encoded : format.encodeCompressed (buildWriteRequest order segment) = .ok body
  nonempty : body ≠ [] ∧ segment ≠ []
  bounded : format.encodedLen (buildWriteRequest order segment) ≤ maxBytes
  holds : (buildWriteRequest order segment).contents.Perm
    (segment.map fun s => (seriesLabels s, promSample s))

/-- The kept samples of the batch, cut into the segments that the bodies encode -/
def Split (order : List TimeSeries → List TimeSeries) (format : Format) (maxBytes : ℕ)
    (batch : List Sample) (bodies : List (List UInt8)) : Prop :=
  ∃ segments : List (List Sample), segments.flatten = batch.filter Sample.kept ∧
    List.Forall₂ (Request order format maxBytes) segments bodies

theorem Split.append {left right : List Sample} {bodies bodies' : List (List UInt8)}
    (hleft : Split order format maxBytes left bodies)
    (hright : Split order format maxBytes right bodies') :
    Split order format maxBytes (left ++ right) (bodies ++ bodies') := by
  obtain ⟨segments, hflatten, hrequests⟩ := hleft
  obtain ⟨segments', hflatten', hrequests'⟩ := hright
  refine ⟨segments ++ segments', ?_, List.rel_append hrequests hrequests'⟩
  rw [List.flatten_append, List.filter_append, hflatten, hflatten']

/-- A batch within the limit is one segment, or none if nothing of it is kept. -/
theorem encodeBoundedRequests_within (hformat : format.Lawful maxBytes)
    (horder : ∀ map, (order map).Perm map) {batch : List Sample} (bodies : List (List UInt8))
    (hbytes : format.encodedLen (buildWriteRequest order batch) ≤ maxBytes) :
    ∃ new, encodeBoundedRequests order format batch maxBytes bodies = .ok (bodies ++ new) ∧
      Split order format maxBytes batch new := by
  unfold encodeBoundedRequests
  rw [if_neg (Nat.not_lt.2 hbytes)]
  by_cases hkept : batch.filter Sample.kept = []
  · have hnone : ¬ (buildWriteRequest order batch).timeseries ≠ [] := by
      rw [timeseries_ne_nil_iff horder]
      exact not_not.2 hkept
    rw [if_neg hnone]
    exact ⟨[], by simp, [], by simp [hkept], List.Forall₂.nil⟩
  · rw [if_pos ((timeseries_ne_nil_iff horder batch).2 hkept)]
    obtain ⟨body, hbody, hne⟩ := hformat.compresses _ hbytes
    rw [hbody]
    refine ⟨[body], rfl, [batch.filter Sample.kept], by simp, List.Forall₂.cons ?_ List.Forall₂.nil⟩
    refine ⟨?_, ⟨hne, hkept⟩, ?_, ?_⟩
    · rw [buildWriteRequest_filter, hbody]
    · rw [buildWriteRequest_filter]
      exact hbytes
    · simpa [List.filter_filter] using contents_perm horder (batch.filter Sample.kept)

/-- Some kept sample of the batch is over the limit alone. -/
def Oversized (order : List TimeSeries → List TimeSeries) (format : Format) (maxBytes : ℕ)
    (batch : List Sample) : Prop :=
  ∃ s ∈ batch, s.kept = true ∧ maxBytes < format.encodedLen (buildWriteRequest order [s])

theorem oversized_append {left right : List Sample} :
    Oversized order format maxBytes (left ++ right) ↔
      Oversized order format maxBytes left ∨ Oversized order format maxBytes right := by
  simp only [Oversized, List.mem_append, or_and_right, exists_or]

/-- The splitting fails at the sample that is over the limit. -/
theorem encodeBoundedRequests_oversized (hformat : format.Lawful maxBytes)
    (horder : ∀ map, (order map).Perm map) (batch : List Sample) (bodies : List (List UInt8))
    (h : Oversized order format maxBytes batch) :
    ∃ report, encodeBoundedRequests order format batch maxBytes bodies = .error report := by
  induction hn : batch.length using Nat.strong_induction_on generalizing batch bodies with
  | _ n ih =>
      obtain ⟨s, hmem, hkept, hover⟩ := h
      have hbytes : format.encodedLen (buildWriteRequest order batch) > maxBytes :=
        hover.trans_le (size_single_le hformat horder hmem hkept)
      unfold encodeBoundedRequests
      rw [if_pos hbytes]
      by_cases hlen : batch.length ≤ 1
      · rw [if_pos hlen]
        exact ⟨_, rfl⟩
      · rw [if_neg hlen]
        have hsplit : Oversized order format maxBytes (batch.take (batch.length / 2)) ∨
            Oversized order format maxBytes (batch.drop (batch.length / 2)) := by
          rw [← oversized_append, List.take_append_drop]
          exact ⟨s, hmem, hkept, hover⟩
        -- the right half is only reached when the left one succeeds
        cases hleft : encodeBoundedRequests order format (batch.take (batch.length / 2)) maxBytes
            bodies with
        | error report => exact ⟨report, by simp [hleft, bind, Except.bind]⟩
        | ok bodies' =>
            rcases hsplit with hl | hr
            · obtain ⟨report, hreport⟩ := ih _ (by simp; omega) _ bodies hl rfl
              simp [hreport] at hleft
            · obtain ⟨report, hreport⟩ := ih _ (by simp; omega) _ bodies' hr rfl
              exact ⟨report, by simp [hleft, hreport, bind, Except.bind]⟩

/-- Without such a sample the batch is split. -/
theorem encodeBoundedRequests_split (hformat : format.Lawful maxBytes)
    (horder : ∀ map, (order map).Perm map) (batch : List Sample) (bodies : List (List UInt8))
    (h : ¬ Oversized order format maxBytes batch) :
    ∃ new, encodeBoundedRequests order format batch maxBytes bodies = .ok (bodies ++ new) ∧
      Split order format maxBytes batch new := by
  induction hn : batch.length using Nat.strong_induction_on generalizing batch bodies with
  | _ n ih =>
      by_cases hbytes : format.encodedLen (buildWriteRequest order batch) ≤ maxBytes
      · exact encodeBoundedRequests_within hformat horder bodies hbytes
      · have hlen : ¬ batch.length ≤ 1 := by
          intro hlen
          -- a single sample over the limit is not kept, and then nothing is encoded
          cases hkept : batch.filter Sample.kept with
          | nil =>
              rw [size_of_skipped hformat horder hkept] at hbytes
              exact hbytes (Nat.zero_le _)
          | cons s rest =>
              have hmem : s ∈ batch.filter Sample.kept := hkept ▸ List.mem_cons_self
              obtain ⟨hs, hskept⟩ := List.mem_filter.1 hmem
              obtain rfl : batch = [s] := by
                match batch, hlen with
                | [a], _ => simp_all
              exact h ⟨s, hs, hskept, Nat.lt_of_not_le hbytes⟩
        have hparts : ¬ Oversized order format maxBytes (batch.take (batch.length / 2)) ∧
            ¬ Oversized order format maxBytes (batch.drop (batch.length / 2)) := by
          rw [← not_or, ← oversized_append, List.take_append_drop]
          exact h
        obtain ⟨left, hleft, hsplitLeft⟩ := ih _ (by simp; omega) _ bodies hparts.1 rfl
        obtain ⟨right, hright, hsplitRight⟩ := ih _ (by simp; omega) _ (bodies ++ left) hparts.2 rfl
        refine ⟨left ++ right, ?_, ?_⟩
        · unfold encodeBoundedRequests
          rw [if_pos (Nat.lt_of_not_le hbytes), if_neg hlen]
          simp [hleft, hright, bind, Except.bind]
        · simpa using hsplitLeft.append hsplitRight

namespace RequestSample

/-! The wire format, on short messages -/

def varint (n : ℕ) : List UInt8 :=
  if n = 0 then [0]
  else (Nat.digits 128 n).dropLast.map (fun d => UInt8.ofNat (d + 128)) ++
    (Nat.digits 128 n).getLast?.toList.map UInt8.ofNat

def field (tag : UInt8) (content : List UInt8) : List UInt8 := tag :: varint content.length ++ content

def stringField (tag : UInt8) (text : String) : List UInt8 :=
  if text = "" then [] else field tag text.toUTF8.toList

def sampleFields (sample : PromSample) : List UInt8 :=
  (if sample.value.bits = 0 then []
    else 0x09 :: (List.range 8).map fun i => UInt8.ofNat (sample.value.bits.toNat / 256 ^ i)) ++
    if sample.timestamp = 0 then [] else 0x10 :: varint sample.timestamp.toUInt64.toNat

def seriesFields (ts : TimeSeries) : List UInt8 :=
  ts.labels.flatMap (fun l => field 0x0a (stringField 0x0a l.name ++ stringField 0x12 l.value)) ++
    ts.samples.flatMap fun sample => field 0x12 (sampleFields sample)

def encode (request : WriteRequest) : List UInt8 :=
  request.timeseries.flatMap fun ts => field 0x0a (seriesFields ts)

/-- A single literal, which is how short texts without repetitions are compressed. -/
def compress (bytes : List UInt8) : List UInt8 :=
  varint bytes.length ++ UInt8.ofNat ((bytes.length - 1) * 4) :: bytes

def wire : Format where
  encodedLen request := (encode request).length
  encodeCompressed request := .ok (compress (encode request))

theorem length_varint (n : ℕ) : (varint n).length = max 1 (Nat.digits 128 n).length := by
  unfold varint
  split
  · rename_i hzero
    simp [hzero]
  · rename_i hne
    have hdigits : Nat.digits 128 n ≠ [] := Nat.digits_ne_nil_iff_ne_zero.2 hne
    have hpos := List.length_pos_of_ne_nil hdigits
    simp [List.getLast?_eq_some_getLast hdigits]
    omega

theorem varint_monotone : Monotone fun n => (varint n).length := by
  intro a b hab
  have hdigits : (Nat.digits 128 a).length ≤ (Nat.digits 128 b).length :=
    Nat.le_length_digits_le 128 a b hab
  show (varint a).length ≤ (varint b).length
  rw [length_varint, length_varint]
  omega

theorem wire_lawful (maxBytes : ℕ) : wire.Lawful maxBytes where
  fields := by
    refine ⟨fun labels => (labels.map fun l =>
        (field 0x0a (stringField 0x0a l.name ++ stringField 0x12 l.value)).length).sum,
      fun sample => (field 0x12 (sampleFields sample)).length,
      fun n => n + (varint n).length + 1, ?_, ?_⟩
    · intro a b hab
      have hlen : (varint a).length ≤ (varint b).length := varint_monotone hab
      show a + (varint a).length + 1 ≤ b + (varint b).length + 1
      omega
    · intro request
      simp only [wire, encode, List.length_flatMap]
      congr 1
      refine List.map_congr_left fun ts _ => ?_
      have hseries : (seriesFields ts).length =
          (ts.labels.map fun l =>
            (field 0x0a (stringField 0x0a l.name ++ stringField 0x12 l.value)).length).sum +
            (ts.samples.map fun sample => (field 0x12 (sampleFields sample)).length).sum := by
        simp only [seriesFields, List.length_append, List.length_flatMap]
      rw [← hseries, field]
      simp only [List.cons_append, List.length_cons, List.length_append]
      omega
  compresses request _ := ⟨_, rfl, by simp [compress]⟩

theorem unlabelled : ([] : List (String × String)).Pairwise fun a b => a.1 < b.1 := .nil

/-- Two metrics and an invalid name between them -/
def batch : List Sample :=
  [⟨"metric_a", ⟨[], unlabelled⟩, ⟨0x3ff0000000000000⟩, 0, 1⟩,
    ⟨"invalid-name", ⟨[], unlabelled⟩, ⟨0x3ff0000000000000⟩, 0, 2⟩,
    ⟨"metric_b", ⟨[], unlabelled⟩, ⟨0x4000000000000000⟩, 0, 3⟩]

end RequestSample

end TxGen.Metrics
