import TxGen.Lib.Fallible
import TxGen.Lib.Grouping
import TxGen.Metrics.Sample

set_option autoImplicit false

/-! # Remote-write requests

`prometheus_reporter.rs` of `bench-core`: samples are grouped into time series, and a batch is split
until each of its requests is within a limit. The messages and their encoding are those of
`prometheus_remote_write`, of which the size of a request and its compressed form are parameters. -/

namespace TxGen.Metrics

/-! ## Messages -/

/-- Special label for the name of a metric. -/
def labelName : String := "__name__"

structure Label where
  name : String
  value : String
deriving DecidableEq

structure PromSample where
  value : F64
  timestamp : Int64
deriving DecidableEq

structure TimeSeries where
  labels : List Label
  samples : List PromSample
deriving DecidableEq

structure WriteRequest where
  timeseries : List TimeSeries
deriving DecidableEq

/-! ## Building a request -/

/-- Whether a metric name matches `[a-zA-Z_:][a-zA-Z0-9_:]*`. -/
def isValidMetricName (name : String) : Bool :=
  match name.toList with
  | [] => false
  | first :: chars =>
    (first.isAlpha || first = '_' || first = ':') &&
      chars.all fun c => c.isAlphanum || c = '_' || c = ':'

/-- Coerce an arbitrary string into a valid Prometheus label name.

    Replaces invalid characters with `_` and prefixes a leading digit with `_`. -/
def sanitizeLabelName (name : String) : String :=
  let out := name.toList.map fun c => if c.isAlphanum || c = '_' then c else '_'
  String.ofList (if out.head?.any Char.isDigit then '_' :: out else out)

/-- Samples with non-finite values or invalid metric names are skipped. -/
def Sample.kept (s : Sample) : Bool := isValidMetricName s.name && s.value.isFinite

/-- The labels of the user, with the names that Prometheus takes -/
def userLabels (s : Sample) : List Label :=
  s.labels.entries.filterMap fun (k, v) =>
    let key := sanitizeLabelName k
    if key = "" then none else some ⟨key, v⟩

/-- The time series identity of a sample: name and sorted labels. -/
def seriesLabels (s : Sample) : List Label :=
  (⟨labelName, s.name⟩ :: userLabels s).mergeSort fun a b => a.name ≤ b.name

def promSample (s : Sample) : PromSample := ⟨s.value, s.unixMs.toInt64⟩

/-- Push a sample into the entry of the map. -/
def pushSample (labels : List Label) (sample : PromSample) : List TimeSeries → List TimeSeries
  | [] => [⟨labels, [sample]⟩]
  | ts :: rest =>
    if ts.labels = labels then { ts with samples := ts.samples ++ [sample] } :: rest
    else ts :: pushSample labels sample rest

/-- The map from identities to time series, with its entries in the order of their insertion -/
def seriesMap (samples : List Sample) : List TimeSeries :=
  samples.foldl (fun map s => if s.kept then pushSample (seriesLabels s) (promSample s) map else map) []

/-- Sort samples within a time series by timestamp. -/
def TimeSeries.sorted (ts : TimeSeries) : TimeSeries :=
  { ts with samples := ts.samples.mergeSort fun a b => a.timestamp ≤ b.timestamp }

-- the order in which a hash map is iterated
variable (order : List TimeSeries → List TimeSeries)

/-- Build a write request from a batch of samples. -/
def buildWriteRequest (samples : List Sample) : WriteRequest :=
  ⟨(order (seriesMap samples)).map TimeSeries.sorted⟩

/-! ## Splitting a batch -/

/-- What is used of `prometheus_remote_write` and its compression -/
structure Format where
  encodedLen : WriteRequest → ℕ
  encodeCompressed : WriteRequest → Except Report (List UInt8)

/-- A request is encoded as the fields of its time series, each with the labels and the samples, so that
    a longer content has a longer field. Compression succeeds within the limit, and what is
    compressed is never empty. -/
structure Format.Lawful (format : Format) (maxBytes : ℕ) : Prop where
  fields : ∃ (labelsLen : List Label → ℕ) (sampleLen : PromSample → ℕ) (field : ℕ → ℕ),
    Monotone field ∧ ∀ request, format.encodedLen request =
      (request.timeseries.map fun ts =>
        field (labelsLen ts.labels + (ts.samples.map sampleLen).sum)).sum
  compresses : ∀ request, format.encodedLen request ≤ maxBytes →
    ∃ body, format.encodeCompressed request = .ok body ∧ body ≠ []

/-- Bound the uncompressed protobuf, not the much smaller snappy body. -/
def maxRequestBytes : ℕ := 8 * 1024 * 1024

variable (format : Format)

/-- Split before sending, so an oversized request never reaches the endpoint. Keep sample chunks in
    input order. -/
def encodeBoundedRequests (batch : List Sample) (maxBytes : ℕ) (bodies : List (List UInt8)) :
    Except Report (List (List UInt8)) :=
  let writeReq := buildWriteRequest order batch
  let bytes := format.encodedLen writeReq
  if bytes > maxBytes then
    if batch.length ≤ 1 then
      bail s!"remote write sample exceeds uncompressed request limit: {bytes} > {maxBytes} bytes"
    else do
      let left := batch.take (batch.length / 2)
      let right := batch.drop (batch.length / 2)
      let bodies ← encodeBoundedRequests left maxBytes bodies
      encodeBoundedRequests right maxBytes bodies
  else if writeReq.timeseries ≠ [] then do
    let body ← wrapErr (format.encodeCompressed writeReq) "snappy compression failed"
    return bodies ++ [body]
  else .ok bodies
termination_by batch.length
decreasing_by
  · simp only [List.length_take]
    omega
  · simp only [List.length_drop]
    omega

structure PreparedBatch where
  idx : ℕ
  samples : ℕ
  bodies : List (List UInt8)

def prepareBatch (batch : List Sample) (idx : ℕ) : Except Report PreparedBatch := do
  let bodies ← encodeBoundedRequests order format batch maxRequestBytes []
  return { idx, samples := batch.length, bodies }

/-! ## The groups of a batch -/

/-- The time series of a group of samples -/
def groupSeries (group : List Label × List Sample) : TimeSeries :=
  ⟨group.1, group.2.map promSample⟩

theorem pushSample_map (s : Sample) (table : List (List Label × List Sample)) :
    pushSample (seriesLabels s) (promSample s) (table.map groupSeries) =
      (Grouping.insert (seriesLabels s) s table).map groupSeries := by
  induction table with
  | nil => rfl
  | cons g rest ih =>
      by_cases hlabels : g.1 = seriesLabels s
      · simp [pushSample, Grouping.insert, groupSeries, hlabels]
      · simp [pushSample, Grouping.insert, groupSeries, hlabels, ← ih]

theorem foldl_pushSample (samples : List Sample) (table : List (List Label × List Sample)) :
    samples.foldl (fun map s => if s.kept then pushSample (seriesLabels s) (promSample s) map else map)
        (table.map groupSeries) =
      ((samples.filter Sample.kept).foldl (fun table s => Grouping.insert (seriesLabels s) s table)
        table).map groupSeries := by
  induction samples generalizing table with
  | nil => rfl
  | cons s rest ih =>
      cases hkept : s.kept with
      | true =>
          rw [List.filter_cons_of_pos hkept, List.foldl_cons, List.foldl_cons, if_pos hkept,
            pushSample_map, ih]
      | false =>
          rw [List.filter_cons_of_neg (by simp [hkept]), List.foldl_cons, hkept]
          exact ih table

/-- The time series are those of the groups of the samples with the same labels. -/
theorem seriesMap_eq (samples : List Sample) :
    seriesMap samples =
      (Grouping.groups seriesLabels (samples.filter Sample.kept)).map groupSeries :=
  foldl_pushSample samples []

theorem seriesMap_filter (samples : List Sample) :
    seriesMap (samples.filter Sample.kept) = seriesMap samples := by
  rw [seriesMap_eq, seriesMap_eq, List.filter_filter]
  simp

/-- Skipped samples do not show in a request. -/
theorem buildWriteRequest_filter (samples : List Sample) :
    buildWriteRequest order (samples.filter Sample.kept) = buildWriteRequest order samples := by
  rw [buildWriteRequest, seriesMap_filter, buildWriteRequest]

end TxGen.Metrics
