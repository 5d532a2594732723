import Mathlib

set_option autoImplicit false

/-! # Generated transactions and their scheduling keys

The part of `txgen-core` that the submission clients read: a transaction's phase, its setup
dependencies and its two sets of scheduling keys, and the key normalization every submission path
starts with (`normalizeKeySets`). Raw bytes and signing payloads only reach the network and are not
modelled. -/

namespace TxGen

/-- A 20-byte transaction scheduling key; opaque, only compared. -/
structure SchedulingKey where
  bytes : BitVec 160
deriving DecidableEq, Repr

/-- A 20-byte account address. -/
abbrev Address := BitVec 160

/-- Stream phase of a transaction. -/
inductive TxPhase
  | setup
  | workload
deriving DecidableEq, Repr

/-- Deferred-signing instructions; the payload is opaque to the sender. -/
structure LateSignSpec where
  format : String
deriving DecidableEq, Repr

/-- A generated transaction ready for output. -/
structure GeneratedTx where
  dependsOn : List String := []
  phase : TxPhase := .workload
  id : Option String := none
  lateSign : Option LateSignSpec := none
  sender : Option Address := none
  /-- Released once the transaction is accepted by the RPC endpoint. -/
  submissionKeys : List SchedulingKey
  /-- Released once the transaction is included in a block. -/
  inclusionKeys : List SchedulingKey := []
deriving DecidableEq, Repr

/-- All keys the transaction is ordered on. -/
def GeneratedTx.schedulingKeys (tx : GeneratedTx) : List SchedulingKey :=
  tx.submissionKeys ++ tx.inclusionKeys

/-- Deduplicate scheduling keys while preserving their first-seen order. -/
def dedupSchedulingKeys (keys : List SchedulingKey) : List SchedulingKey :=
  keys.foldl (fun deduped key => if key ∈ deduped then deduped else deduped ++ [key]) []

theorem dedupSchedulingKeys_loop (keys : List SchedulingKey) :
    ∀ acc : List SchedulingKey, acc.Nodup →
      (keys.foldl (fun deduped key => if key ∈ deduped then deduped else deduped ++ [key])
        acc).Nodup ∧
      ∀ k, k ∈ keys.foldl (fun deduped key => if key ∈ deduped then deduped else deduped ++ [key])
        acc ↔ k ∈ acc ∨ k ∈ keys := by
  induction keys with
  | nil => intro acc h; simpa using h
  | cons key rest ih =>
      intro acc h
      simp only [List.foldl_cons]
      by_cases hin : key ∈ acc
      · rw [if_pos hin]
        refine ⟨(ih acc h).1, fun k => ?_⟩
        rw [(ih acc h).2 k, List.mem_cons]
        constructor
        · exact Or.imp_right Or.inr
        · rintro (hk | rfl | hk)
          · exact Or.inl hk
          · exact Or.inl hin
          · exact Or.inr hk
      · rw [if_neg hin]
        have hacc : (acc ++ [key]).Nodup :=
          h.append (List.nodup_singleton key) (List.disjoint_singleton.2 hin)
        refine ⟨(ih _ hacc).1, fun k => ?_⟩
        rw [(ih _ hacc).2 k, List.mem_append, List.mem_singleton, List.mem_cons, or_assoc]

theorem nodup_dedupSchedulingKeys (keys : List SchedulingKey) : (dedupSchedulingKeys keys).Nodup :=
  (dedupSchedulingKeys_loop keys [] List.nodup_nil).1

@[simp] theorem mem_dedupSchedulingKeys {keys : List SchedulingKey} {k : SchedulingKey} :
    k ∈ dedupSchedulingKeys keys ↔ k ∈ keys := by
  simpa [dedupSchedulingKeys] using (dedupSchedulingKeys_loop keys [] List.nodup_nil).2 k

/-- Deduplicate both sets; a key that appears in both keeps the stricter release policy. `none` is
    the error "transactions must have at least one submission or inclusion key". -/
def normalizeKeySets (submissionKeys inclusionKeys : List SchedulingKey) :
    Option (List SchedulingKey × List SchedulingKey) :=
  let inclusionKeys := dedupSchedulingKeys inclusionKeys
  let submissionKeys :=
    (dedupSchedulingKeys submissionKeys).filter fun key => !inclusionKeys.contains key
  if submissionKeys.isEmpty && inclusionKeys.isEmpty then none
  else some (submissionKeys, inclusionKeys)

/-- Normalization keeps the set of keys, lists each key once and leaves at least one. -/
theorem normalizeKeySets_spec {sub inc sub' inc' : List SchedulingKey}
    (h : normalizeKeySets sub inc = some (sub', inc')) :
    (sub' ++ inc').Nodup ∧ (∀ k, k ∈ sub' ++ inc' ↔ k ∈ sub ++ inc) ∧ sub' ++ inc' ≠ [] := by
  simp only [normalizeKeySets] at h
  split at h
  · cases h
  rename_i hne
  obtain ⟨rfl, rfl⟩ := Prod.mk.injEq .. ▸ Option.some.inj h
  refine ⟨?_, fun k => ?_, fun hnil => ?_⟩
  · refine ((nodup_dedupSchedulingKeys sub).filter _).append (nodup_dedupSchedulingKeys inc) ?_
    intro k hk hk'
    simp only [List.mem_filter, List.contains_eq_mem, Bool.not_eq_true',
      decide_eq_false_iff_not] at hk
    exact hk.2 hk'
  · simp only [List.mem_append, List.mem_filter, mem_dedupSchedulingKeys, List.contains_eq_mem,
      Bool.not_eq_true', decide_eq_false_iff_not]
    tauto
  · obtain ⟨hsub, hinc⟩ := List.append_eq_nil_iff.1 hnil
    exact hne (by rw [hsub, hinc]; rfl)

end TxGen
