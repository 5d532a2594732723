import TxGen.Scenario.Name

set_option autoImplicit false

/-! # Metric samples

`Sample` of `bench-core`'s `sample.rs`. -/

namespace TxGen.Metrics

/-- An `f64`, by its bits -/
structure F64 where
  bits : UInt64
deriving DecidableEq

/-- Neither infinite nor a NaN: the exponent is not all ones. -/
def F64.isFinite (value : F64) : Bool := value.bits &&& 0x7ff0000000000000 != 0x7ff0000000000000

/-- A `BTreeMap` from strings to strings: its entries in the order of their keys -/
structure LabelMap where
  entries : List (String × String)
  sorted : entries.Pairwise fun a b => a.1 < b.1
deriving DecidableEq

theorem LabelMap.nodup_keys (labels : LabelMap) : (labels.entries.map Prod.fst).Nodup :=
  List.pairwise_map.2 (labels.sorted.imp fun h => ne_of_lt h)

@[ext]
theorem LabelMap.ext {a b : LabelMap} (h : a.entries = b.entries) : a = b := by
  cases a
  cases b
  congr

/-- A single metric data point. -/
structure Sample where
  name : String
  /-- Label key-value pairs. Ordered for deterministic serialization. -/
  labels : LabelMap
  value : F64
  /-- Monotonic offset in milliseconds since benchmark start -/
  offsetMs : UInt64
  /-- Wall-clock time in Unix milliseconds -/
  unixMs : UInt64
deriving DecidableEq

end TxGen.Metrics
