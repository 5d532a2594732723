import TxGen.Generate.Model
import TxGen.Lib.Bisection

set_option autoImplicit false

/-! # The workload selector and its reference sampler

`WorkloadSelector` keeps the items that fit the remaining budget, with cumulative weights, and rebuilds
them only when an item stops fitting. The reference sampler filters the whole mix and adds up the weights
at every pick. -/

namespace TxGen

structure MixEntry where
  item : MixItem
  weight : ℕ

/-- A workload with its weighted mix. -/
structure MixedWorkload extends WorkloadSpec where
  mix : List MixEntry

/-- The random numbers from a generator in `R`, and the arithmetic of gas weights in `φ`. -/
structure Sampling (φ R : Type) where
  /-- a number below the bound -/
  randomRange : ℕ → R → ℕ × R
  randomRange_lt : ∀ n rng, 0 < n → (randomRange n rng).1 < n
  zero : φ
  add : φ → φ → φ
  div : ℕ → ℕ → φ
  le : φ → φ → Bool
  randomGas : φ → R → φ × R

/-- The number of transactions of an item. -/
def workloadItemTxCount (spec : WorkloadSpec) : MixItem → Except Report ℕ
  | .template name => do
    bailIf (spec.templates.lookup name = none) s!"template '{name}' not found"
    return 1
  | .sequence name =>
    match spec.sequences.lookup name with
    | none => bail s!"sequence '{name}' not found"
    | some [] => bail s!"sequence '{name}' has no steps"
    | some steps => .ok steps.length

/-- Addition of `u64`. -/
def checkedAddWeight (total weight : ℕ) : Except Report ℕ :=
  if total + weight < 2 ^ 64 then .ok (total + weight) else bail "mix weights overflowed u64"

/-! ## The selector -/

structure WeightedWorkloadItem (φ : Type) where
  item : MixItem
  txCount : ℕ
  weight : ℕ
  cumulativeWeight : ℕ
  gasWeight : φ
  cumulativeGasWeight : φ

/-- Precompute weights and validate references once. The remaining transaction budget only decreases, so
    entries that stop fitting can be removed permanently. -/
structure WorkloadSelector (φ : Type) where
  entries : List (WeightedWorkloadItem φ) := []
  totalWeight : ℕ := 0
  maxTxCount : ℕ := 0
  gasWeighted : Bool := false
  totalGasWeight : φ

namespace WorkloadSelector

variable {φ R : Type} (S : Sampling φ R)

/-- Add the entries of the mix that fit. -/
def addEntries (spec : WorkloadSpec) (remainingTxs : ℕ) :
    List MixEntry → WorkloadSelector φ → Except Report (WorkloadSelector φ)
  | [], selector => .ok selector
  | entry :: mix, selector => do
    let txCount ← workloadItemTxCount spec entry.item
    if txCount > 0 ∧ txCount ≤ remainingTxs ∧ entry.weight > 0 then
      let totalWeight ← checkedAddWeight selector.totalWeight entry.weight
      addEntries spec remainingTxs mix
        { selector with
          totalWeight
          maxTxCount := max selector.maxTxCount txCount
          entries := selector.entries ++
            [⟨entry.item, txCount, entry.weight, totalWeight, S.zero, S.zero⟩] }
    else addEntries spec remainingTxs mix selector

def new (spec : MixedWorkload) (remainingTxs : ℕ) : Except Report (WorkloadSelector φ) :=
  let selector := { totalGasWeight := S.zero }
  if remainingTxs = 0 then .ok selector
  else addEntries S spec.toWorkloadSpec remainingTxs spec.mix selector

/-- Add an entry that was kept, with new cumulative weights. -/
def push (selector : WorkloadSelector φ) (entry : WeightedWorkloadItem φ) : WorkloadSelector φ :=
  let totalWeight := selector.totalWeight + entry.weight
  let totalGasWeight := S.add selector.totalGasWeight entry.gasWeight
  { selector with
    totalWeight
    totalGasWeight
    maxTxCount := max selector.maxTxCount entry.txCount
    entries := selector.entries ++
      [{ entry with cumulativeWeight := totalWeight, cumulativeGasWeight := totalGasWeight }] }

/-- Rebuild only when a sequence no longer fits the remaining budget. -/
def refit (selector : WorkloadSelector φ) (remainingTxs : ℕ) : WorkloadSelector φ :=
  if remainingTxs < selector.maxTxCount then
    (selector.entries.filter (·.txCount ≤ remainingTxs)).foldl (push S)
      { totalGasWeight := S.zero, gasWeighted := selector.gasWeighted }
  else selector

/-- `entries[index]`, which panics out of bounds. -/
def itemAt (selector : WorkloadSelector φ) (index : ℕ) : Except Report MixItem :=
  match selector.entries[index]? with
  | some entry => .ok entry.item
  | none => bail "index out of bounds"

/-- Choose from the entries that are left. -/
def choose (selector : WorkloadSelector φ) (rng : R) : Except Report (Option MixItem × R) :=
  if selector.totalWeight = 0 then .ok (none, rng)
  else if selector.gasWeighted then
    let roll := S.randomGas selector.totalGasWeight rng
    let index := Bisection.partitionPoint (fun e => S.le e.cumulativeGasWeight roll.1) selector.entries
    (selector.itemAt index).map fun item => (some item, roll.2)
  else
    let roll := S.randomRange selector.totalWeight rng
    let index := Bisection.partitionPoint (fun e => e.cumulativeWeight ≤ roll.1) selector.entries
    (selector.itemAt index).map fun item => (some item, roll.2)

def pick (selector : WorkloadSelector φ) (rng : R) (remainingTxs : ℕ) :
    Except Report (Option MixItem × R) × WorkloadSelector φ :=
  let selector := selector.refit S remainingTxs
  (selector.choose S rng, selector)

/-- The entries with gas weights, and their total. -/
def weighByGas (total : φ) :
    List (WeightedWorkloadItem φ × ℕ) → List (WeightedWorkloadItem φ) × φ
  | [] => ([], total)
  | (entry, gas) :: rest =>
    let gasWeight := S.div entry.weight gas
    let total := S.add total gasWeight
    let weighted := weighByGas total rest
    ({ entry with gasWeight, cumulativeGasWeight := total } :: weighted.1, weighted.2)

/-- Weigh the entries by the gas that they use. -/
def setGasEstimates (selector : WorkloadSelector φ) (estimates : List ℕ) :
    Except Report (WorkloadSelector φ) :=
  if estimates.length ≠ selector.entries.length ∨ 0 ∈ estimates then
    bail "gas sampling must return positive gas usage for each workload item"
  else
    let weighted := weighByGas S S.zero (selector.entries.zip estimates)
    .ok { selector with
      entries := weighted.1, totalGasWeight := weighted.2, gasWeighted := true }

/-- Pick once for each of the remaining budgets. -/
def picks : List ℕ → WorkloadSelector φ → R → Except Report (List (Option MixItem) × R)
  | [], _, rng => .ok ([], rng)
  | remainingTxs :: budgets, selector, rng => do
    let (item, rng') ← (selector.pick S rng remainingTxs).1
    let (items, rng'') ← picks budgets (selector.pick S rng remainingTxs).2 rng'
    return (item :: items, rng'')

end WorkloadSelector

/-! ## The reference sampler -/

section Reference

variable {φ R : Type} (S : Sampling φ R)

/-- The items that fit, with their weights and their sum. -/
def referenceCandidates (spec : WorkloadSpec) (remainingTxs : ℕ) :
    List MixEntry → ℕ × List (MixItem × ℕ) → Except Report (ℕ × List (MixItem × ℕ))
  | [], acc => .ok acc
  | entry :: mix, acc => do
    let txCount ← workloadItemTxCount spec entry.item
    if txCount > 0 ∧ txCount ≤ remainingTxs ∧ entry.weight > 0 then
      let totalWeight ← checkedAddWeight acc.1 entry.weight
      referenceCandidates spec remainingTxs mix (totalWeight, acc.2 ++ [(entry.item, entry.weight)])
    else referenceCandidates spec remainingTxs mix acc

/-- The first item whose cumulative weight is above the roll. -/
def referenceScan (roll : ℕ) : ℕ → List (MixItem × ℕ) → Option MixItem
  | _, [] => none
  | cumulative, (item, weight) :: candidates =>
    if roll < cumulative + weight then some item
    else referenceScan roll (cumulative + weight) candidates

def referencePickWorkloadItem (spec : MixedWorkload) (rng : R) (remainingTxs : ℕ) :
    Except Report (Option MixItem × R) := do
  let (totalWeight, candidates) ←
    referenceCandidates spec.toWorkloadSpec remainingTxs spec.mix (0, [])
  if totalWeight = 0 then return (none, rng)
  let (roll, rng') := S.randomRange totalWeight rng
  match referenceScan roll 0 candidates with
  | some item => return (some item, rng')
  | none => bail s!"workload selection failed with roll={roll} total_weight={totalWeight}"

def referencePicks (spec : MixedWorkload) : List ℕ → R → Except Report (List (Option MixItem) × R)
  | [], rng => .ok ([], rng)
  | remainingTxs :: budgets, rng => do
    let (item, rng') ← referencePickWorkloadItem S spec rng remainingTxs
    let (items, rng'') ← referencePicks spec budgets rng'
    return (item :: items, rng'')

end Reference

/-! ## The items that fit -/

/-- An item of the mix with its length and its weight. -/
structure Candidate where
  item : MixItem
  txCount : ℕ
  weight : ℕ
deriving DecidableEq

/-- The candidate that an entry of the mix gives, if it fits. -/
def MixEntry.candidate (spec : WorkloadSpec) (budget : ℕ) (entry : MixEntry) : Option Candidate :=
  match workloadItemTxCount spec entry.item with
  | .error _ => none
  | .ok txCount =>
    if txCount > 0 ∧ txCount ≤ budget ∧ entry.weight > 0 then
      some ⟨entry.item, txCount, entry.weight⟩
    else none

def MixedWorkload.candidates (spec : MixedWorkload) (budget : ℕ) : List Candidate :=
  spec.mix.filterMap (·.candidate spec.toWorkloadSpec budget)

theorem MixEntry.candidate_of_le (spec : WorkloadSpec) {budget budget' : ℕ} (hle : budget' ≤ budget)
    (entry : MixEntry) : entry.candidate spec budget' =
      (entry.candidate spec budget).filter fun c => c.txCount ≤ budget' := by
  rw [candidate, candidate]
  cases workloadItemTxCount spec entry.item with
  | error e => rfl
  | ok txCount =>
      dsimp only
      by_cases hfit : txCount > 0 ∧ txCount ≤ budget ∧ entry.weight > 0
      · rw [if_pos hfit, Option.filter_some]
        simp [hfit.1, hfit.2.2]
      · rw [if_neg hfit, if_neg fun h => hfit ⟨h.1, h.2.1.trans hle, h.2.2⟩]
        rfl

/-- A smaller budget keeps those that fit it. -/
theorem MixedWorkload.candidates_of_le (spec : MixedWorkload) {budget budget' : ℕ}
    (hle : budget' ≤ budget) : spec.candidates budget' =
      (spec.candidates budget).filter fun c => c.txCount ≤ budget' := by
  rw [candidates, candidates, List.filter_filterMap]
  exact List.filterMap_congr fun entry _ => entry.candidate_of_le _ hle

theorem MixedWorkload.mem_candidates {spec : MixedWorkload} {budget : ℕ} {c : Candidate} :
    c ∈ spec.candidates budget ↔ ∃ entry ∈ spec.mix, entry.item = c.item ∧ entry.weight = c.weight ∧
      workloadItemTxCount spec.toWorkloadSpec c.item = .ok c.txCount ∧ 0 < c.txCount ∧
        c.txCount ≤ budget ∧ 0 < c.weight := by
  rw [candidates, List.mem_filterMap]
  refine exists_congr fun entry => and_congr_right fun _ => ?_
  rw [MixEntry.candidate]
  constructor
  · intro h
    split at h
    · cases h
    · rename_i txCount hcount
      split at h
      · rename_i hfit
        obtain rfl := Option.some.inj h
        exact ⟨rfl, rfl, hcount, hfit⟩
      · cases h
  · rintro ⟨hitem, hweight, hcount, hfit⟩
    rw [hitem, hcount]
    dsimp only
    rw [if_pos (by rwa [hweight]), hweight]

/-- The total weight of candidates. -/
def totalWeightOf (cands : List Candidate) : ℕ := (cands.map (·.weight)).sum

/-- The choice among candidates: none if there are none, otherwise the one that a random number below
    the total weight falls on. -/
def chooseFrom {φ R : Type} (S : Sampling φ R) (cands : List Candidate) (rng : R) :
    Option MixItem × R :=
  if totalWeightOf cands = 0 then (none, rng)
  else
    let roll := S.randomRange (totalWeightOf cands) rng
    (referenceScan roll.1 0 (cands.map fun c => (c.item, c.weight)), roll.2)

/-! ## The reference chooses among the candidates -/

theorem referenceCandidates_eq {spec : WorkloadSpec} {budget : ℕ} {mix : List MixEntry}
    (hresolve : ∀ entry ∈ mix, ∃ txCount, workloadItemTxCount spec entry.item = .ok txCount)
    (acc : ℕ × List (MixItem × ℕ))
    (hsum : acc.1 + totalWeightOf (mix.filterMap (·.candidate spec budget)) < 2 ^ 64) :
    referenceCandidates spec budget mix acc =
      .ok (acc.1 + totalWeightOf (mix.filterMap (·.candidate spec budget)),
        acc.2 ++ (mix.filterMap (·.candidate spec budget)).map fun c => (c.item, c.weight)) := by
  induction mix generalizing acc with
  | nil => simp [referenceCandidates, totalWeightOf]
  | cons entry mix ih =>
      obtain ⟨⟨txCount, hcount⟩, hresolve⟩ := List.forall_mem_cons.1 hresolve
      have hcand : entry.candidate spec budget =
          if txCount > 0 ∧ txCount ≤ budget ∧ entry.weight > 0 then
            some ⟨entry.item, txCount, entry.weight⟩ else none := by
        rw [MixEntry.candidate, hcount]
      rw [referenceCandidates, hcount]
      show (if _ then _ else _) = _
      by_cases hfit : txCount > 0 ∧ txCount ≤ budget ∧ entry.weight > 0
      · rw [if_pos hfit] at hcand ⊢
        rw [List.filterMap_cons_some hcand] at hsum ⊢
        have htotal : totalWeightOf (⟨entry.item, txCount, entry.weight⟩ ::
            mix.filterMap (·.candidate spec budget)) =
              entry.weight + totalWeightOf (mix.filterMap (·.candidate spec budget)) := by
          simp [totalWeightOf]
        rw [htotal] at hsum ⊢
        rw [checkedAddWeight, if_pos (by omega)]
        refine (ih hresolve _ (by dsimp only; omega)).trans ?_
        simp [Nat.add_assoc]
      · rw [if_neg hfit] at hcand ⊢
        rw [List.filterMap_cons_none hcand] at hsum ⊢
        exact ih hresolve acc hsum

/-- A roll below the total falls on a candidate. -/
theorem referenceScan_isSome {roll cumulative : ℕ} {cands : List (MixItem × ℕ)}
    (hroll : roll < cumulative + (cands.map Prod.snd).sum) (hle : cumulative ≤ roll) :
    ∃ c ∈ cands, referenceScan roll cumulative cands = some c.1 := by
  induction cands generalizing cumulative with
  | nil =>
      rw [List.map_nil, List.sum_nil] at hroll
      omega
  | cons c cands ih =>
      obtain ⟨item, weight⟩ := c
      rw [List.map_cons, List.sum_cons] at hroll
      rw [referenceScan]
      split
      · exact ⟨_, List.mem_cons_self, rfl⟩
      · obtain ⟨c, hc, heq⟩ := @ih (cumulative + weight) (by omega) (by omega)
        exact ⟨c, List.mem_cons_of_mem _ hc, heq⟩

theorem chooseFrom_scan {φ R : Type} (S : Sampling φ R) {cands : List Candidate} (rng : R)
    (htotal : totalWeightOf cands ≠ 0) : ∃ c ∈ cands,
      referenceScan (S.randomRange (totalWeightOf cands) rng).1 0
        (cands.map fun c => (c.item, c.weight)) = some c.item := by
  have hlt := S.randomRange_lt (totalWeightOf cands) rng (Nat.pos_of_ne_zero htotal)
  have hsum : ((cands.map fun c => (c.item, c.weight)).map Prod.snd).sum = totalWeightOf cands := by
    rw [totalWeightOf, List.map_map]
    rfl
  obtain ⟨c, hc, heq⟩ := referenceScan_isSome (by rw [Nat.zero_add, hsum]; exact hlt) (Nat.zero_le _)
  obtain ⟨c', hc', rfl⟩ := List.mem_map.1 hc
  exact ⟨c', hc', heq⟩

theorem referencePickWorkloadItem_eq {φ R : Type} (S : Sampling φ R) {spec : MixedWorkload}
    {budget : ℕ} (hresolve : ∀ entry ∈ spec.mix,
      ∃ txCount, workloadItemTxCount spec.toWorkloadSpec entry.item = .ok txCount)
    (hsum : totalWeightOf (spec.candidates budget) < 2 ^ 64) (rng : R) :
    referencePickWorkloadItem S spec rng budget =
      .ok (chooseFrom S (spec.candidates budget) rng) := by
  have hcands : referenceCandidates spec.toWorkloadSpec budget spec.mix (0, []) =
      .ok (totalWeightOf (spec.candidates budget),
        (spec.candidates budget).map fun c => (c.item, c.weight)) := by
    rw [referenceCandidates_eq hresolve (0, []) (by rw [Nat.zero_add]; exact hsum), Nat.zero_add,
      List.nil_append]
    rfl
  rw [referencePickWorkloadItem, hcands, chooseFrom]
  change (if totalWeightOf (spec.candidates budget) = 0 then _ else _) = _
  split
  · rfl
  · rename_i htotal
    obtain ⟨c, -, hscan⟩ := chooseFrom_scan S rng htotal
    dsimp only
    rw [hscan]
    rfl

/-! ## The selector chooses among the same candidates -/

/-- The cumulative weights of entries after others of weight `total`. -/
def Cumulative {φ : Type} : ℕ → List (WeightedWorkloadItem φ) → Prop
  | _, [] => True
  | total, e :: entries =>
    e.cumulativeWeight = total + e.weight ∧ Cumulative (total + e.weight) entries

def WeightedWorkloadItem.candidate {φ : Type} (e : WeightedWorkloadItem φ) : Candidate :=
  ⟨e.item, e.txCount, e.weight⟩

/-- The entries of the selector are the candidates, and what is cached agrees with them. -/
structure WorkloadSelector.Caches {φ : Type} (selector : WorkloadSelector φ) (cands : List Candidate) :
    Prop where
  entries : selector.entries.map (·.candidate) = cands
  cumulative : Cumulative 0 selector.entries
  total : selector.totalWeight = totalWeightOf cands
  le_max : ∀ c ∈ cands, c.txCount ≤ selector.maxTxCount

theorem Cumulative.snoc {φ : Type} {total : ℕ} {entries : List (WeightedWorkloadItem φ)}
    (h : Cumulative total entries) {e : WeightedWorkloadItem φ}
    (he : e.cumulativeWeight = total + (entries.map (·.weight)).sum + e.weight) :
    Cumulative total (entries ++ [e]) := by
  induction entries generalizing total with
  | nil => exact ⟨by simpa using he, trivial⟩
  | cons e' entries ih =>
      refine ⟨h.1, ih h.2 ?_⟩
      rw [he, List.map_cons, List.sum_cons]
      omega

/-- Later entries have greater cumulative weights. -/
theorem Cumulative.partitioned {φ : Type} {total : ℕ} {entries : List (WeightedWorkloadItem φ)}
    (h : Cumulative total entries) :
    (∀ e ∈ entries, total ≤ e.cumulativeWeight) ∧
      entries.Pairwise fun a b => a.cumulativeWeight ≤ b.cumulativeWeight := by
  induction entries generalizing total with
  | nil => exact ⟨by simp, .nil⟩
  | cons e entries ih =>
      obtain ⟨hle, hpair⟩ := ih h.2
      refine ⟨List.forall_mem_cons.2 ⟨?_, fun e' he' => ?_⟩, List.pairwise_cons.2 ⟨fun e' he' => ?_, hpair⟩⟩
      · rw [h.1]
        exact Nat.le_add_right _ _
      · exact (Nat.le_add_right _ _).trans (hle e' he')
      · rw [h.1]
        exact hle e' he'

/-- The search over the cumulative weights finds what the scan finds. -/
theorem Cumulative.find? {φ : Type} {total roll : ℕ} {entries : List (WeightedWorkloadItem φ)}
    (h : Cumulative total entries) :
    (entries.find? fun e => !decide (e.cumulativeWeight ≤ roll)).map (·.item) =
      referenceScan roll total (entries.map fun e => (e.item, e.weight)) := by
  induction entries generalizing total with
  | nil => rfl
  | cons e entries ih =>
      rw [List.map_cons, referenceScan, ← h.1]
      by_cases hroll : roll < e.cumulativeWeight
      · rw [if_pos hroll, List.find?_cons_of_pos (by simpa using hroll)]
        rfl
      · rw [if_neg hroll, List.find?_cons_of_neg (by simpa using hroll), h.1]
        exact ih h.2

namespace WorkloadSelector

variable {φ R : Type} {S : Sampling φ R} {selector selector' : WorkloadSelector φ}
  {cands : List Candidate}

theorem Caches.snoc (h : selector.Caches cands) {e : WeightedWorkloadItem φ}
    (hentries : selector'.entries = selector.entries ++ [e])
    (hcumulative : e.cumulativeWeight = selector.totalWeight + e.weight)
    (htotal : selector'.totalWeight = selector.totalWeight + e.weight)
    (hmax : selector'.maxTxCount = max selector.maxTxCount e.txCount) :
    selector'.Caches (cands ++ [e.candidate]) := by
  have hsum : (selector.entries.map (·.weight)).sum = selector.totalWeight := by
    rw [h.total, ← h.entries, totalWeightOf, List.map_map]
    rfl
  refine ⟨?_, ?_, ?_, fun c hc => ?_⟩
  · rw [hentries, List.map_append, h.entries]
    rfl
  · rw [hentries]
    exact h.cumulative.snoc (by rw [hcumulative, hsum, Nat.zero_add])
  · rw [htotal, h.total]
    simp [totalWeightOf, WeightedWorkloadItem.candidate]
  · rw [hmax]
    rcases List.mem_append.1 hc with hc | hc
    · exact (h.le_max c hc).trans (le_max_left _ _)
    · rw [List.mem_singleton.1 hc]
      exact le_max_right _ _

/-- What building the selector checks and leaves. -/
theorem addEntries_spec {spec : WorkloadSpec} {budget : ℕ} {mix : List MixEntry}
    (h : selector.Caches cands) (hsum : selector.totalWeight < 2 ^ 64)
    (hok : addEntries S spec budget mix selector = .ok selector') :
    selector'.Caches (cands ++ mix.filterMap (·.candidate spec budget)) ∧
      selector'.gasWeighted = selector.gasWeighted ∧ selector'.totalWeight < 2 ^ 64 ∧
      ∀ entry ∈ mix, ∃ txCount, workloadItemTxCount spec entry.item = .ok txCount := by
  induction mix generalizing selector cands with
  | nil =>
      obtain rfl := Except.ok.inj hok
      exact ⟨by simpa using h, rfl, hsum, by simp⟩
  | cons entry mix ih =>
      rw [addEntries] at hok
      obtain ⟨txCount, hcount, hok⟩ := bind_eq_ok.1 hok
      have hcand : entry.candidate spec budget =
          if txCount > 0 ∧ txCount ≤ budget ∧ entry.weight > 0 then
            some ⟨entry.item, txCount, entry.weight⟩ else none := by
        rw [MixEntry.candidate, hcount]
      split at hok
      · rename_i hfit
        obtain ⟨total, htotal, hok⟩ := bind_eq_ok.1 hok
        rw [checkedAddWeight] at htotal
        split at htotal
        · rename_i hlt
          obtain rfl := Except.ok.inj htotal
          rw [if_pos hfit] at hcand
          rw [List.filterMap_cons_some hcand, List.append_cons]
          obtain ⟨hcaches, hgas, hlt', hresolve⟩ := ih (h.snoc rfl rfl rfl rfl) hlt hok
          exact ⟨hcaches, hgas, hlt', List.forall_mem_cons.2 ⟨⟨txCount, hcount⟩, hresolve⟩⟩
        · cases htotal
      · rename_i hfit
        rw [if_neg hfit] at hcand
        rw [List.filterMap_cons_none hcand]
        obtain ⟨hcaches, hgas, hlt', hresolve⟩ := ih h hsum hok
        exact ⟨hcaches, hgas, hlt', List.forall_mem_cons.2 ⟨⟨txCount, hcount⟩, hresolve⟩⟩

theorem push_caches (h : selector.Caches cands) (kept : List (WeightedWorkloadItem φ)) :
    (kept.foldl (push S) selector).Caches (cands ++ kept.map (·.candidate)) ∧
      (kept.foldl (push S) selector).gasWeighted = selector.gasWeighted := by
  induction kept generalizing selector cands with
  | nil => exact ⟨by simpa using h, rfl⟩
  | cons e kept ih =>
      let e' := { e with
        cumulativeWeight := selector.totalWeight + e.weight
        cumulativeGasWeight := S.add selector.totalGasWeight e.gasWeight }
      have hpush : (selector.push S e).Caches (cands ++ [e'.candidate]) := h.snoc rfl rfl rfl rfl
      obtain ⟨hcaches, hgas⟩ := ih hpush
      rw [List.map_cons, List.append_cons]
      exact ⟨hcaches, hgas⟩

/-- Refitting keeps the candidates that fit. -/
theorem Caches.refit (h : selector.Caches cands) (budget : ℕ) :
    (selector.refit S budget).Caches (cands.filter fun c => c.txCount ≤ budget) ∧
      (selector.refit S budget).gasWeighted = selector.gasWeighted := by
  rw [WorkloadSelector.refit]
  split
  · have hempty : ({ totalGasWeight := S.zero, gasWeighted := selector.gasWeighted } :
        WorkloadSelector φ).Caches [] := ⟨rfl, trivial, rfl, by simp⟩
    obtain ⟨hcaches, hgas⟩ := push_caches (S := S) hempty
      (selector.entries.filter (·.txCount ≤ budget))
    refine ⟨?_, hgas⟩
    rw [List.nil_append] at hcaches
    rwa [← h.entries, List.filter_map]
  · rename_i hmax
    refine ⟨?_, rfl⟩
    rwa [List.filter_eq_self.2 fun c hc => by simpa using (h.le_max c hc).trans (not_lt.1 hmax)]

/-- Without gas weights, the selector chooses as the reference does. -/
theorem Caches.choose (h : selector.Caches cands) (hgas : selector.gasWeighted = false) (rng : R) :
    selector.choose S rng = .ok (chooseFrom S cands rng) := by
  rw [WorkloadSelector.choose, chooseFrom, hgas, h.total]
  split
  · rfl
  · rename_i htotal
    obtain ⟨c, -, hscan⟩ := chooseFrom_scan S rng htotal
    dsimp only
    have hmap : selector.entries.map (fun e => (e.item, e.weight)) =
        cands.map fun c => (c.item, c.weight) := by
      rw [← h.entries, List.map_map]
      rfl
    have hpart : selector.entries.Pairwise fun a b =>
        decide (b.cumulativeWeight ≤ (S.randomRange (totalWeightOf cands) rng).1) = true →
          decide (a.cumulativeWeight ≤ (S.randomRange (totalWeightOf cands) rng).1) = true :=
      h.cumulative.partitioned.2.imp fun hab hb => by
        rw [decide_eq_true_eq] at hb ⊢
        exact hab.trans hb
    have hfind := @Cumulative.find? _ _ (S.randomRange (totalWeightOf cands) rng).1 _ h.cumulative
    rw [hmap, hscan, ← Bisection.getElem?_partitionPoint hpart] at hfind
    obtain ⟨e, he, hitem⟩ := Option.map_eq_some_iff.1 hfind
    rw [hscan, if_neg (by simp), itemAt, he]
    dsimp only
    rw [hitem]
    rfl

/-- The state of a selector while the budget is `budget`. -/
structure Ready (spec : MixedWorkload) (budget : ℕ) (selector : WorkloadSelector φ) : Prop where
  caches : selector.Caches (spec.candidates budget)
  unweighted : selector.gasWeighted = false

theorem new_ready {spec : MixedWorkload} {budget : ℕ} (hok : new S spec budget = .ok selector) :
    selector.Ready spec budget ∧ (budget ≠ 0 → selector.totalWeight < 2 ^ 64 ∧
      ∀ entry ∈ spec.mix,
        ∃ txCount, workloadItemTxCount spec.toWorkloadSpec entry.item = .ok txCount) := by
  have hempty : ({ totalGasWeight := S.zero } : WorkloadSelector φ).Caches [] :=
    ⟨rfl, trivial, rfl, by simp⟩
  rw [new] at hok
  split at hok
  · rename_i hzero
    obtain rfl := Except.ok.inj hok
    have hnone : spec.candidates budget = [] := by
      refine List.eq_nil_iff_forall_not_mem.2 fun c hc => ?_
      obtain ⟨-, -, -, -, -, hpos, hle, -⟩ := MixedWorkload.mem_candidates.1 hc
      omega
    exact ⟨⟨hnone ▸ hempty, rfl⟩, fun h => absurd hzero h⟩
  · obtain ⟨hcaches, hgas, hlt, hresolve⟩ := addEntries_spec hempty (Nat.two_pow_pos 64) hok
    exact ⟨⟨hcaches, hgas⟩, fun _ => ⟨hlt, hresolve⟩⟩

/-- A pick with a smaller budget. -/
theorem Ready.pick {spec : MixedWorkload} {budget budget' : ℕ} (h : selector.Ready spec budget)
    (hle : budget' ≤ budget) (rng : R) :
    (selector.pick S rng budget').1 = .ok (chooseFrom S (spec.candidates budget') rng) ∧
      (selector.pick S rng budget').2.Ready spec budget' := by
  obtain ⟨hcaches, hgas⟩ := h.caches.refit (S := S) budget'
  rw [← spec.candidates_of_le hle] at hcaches
  rw [h.unweighted] at hgas
  exact ⟨hcaches.choose hgas rng, hcaches, hgas⟩

/-- Picks with budgets that never grow. -/
theorem Ready.picks {spec : MixedWorkload} {budget : ℕ} (h : selector.Ready spec budget)
    {budgets : List ℕ} (hle : (budget :: budgets).Pairwise (· ≥ ·)) (rng : R) :
    ∃ items rng', picks S budgets selector rng = .ok (items, rng') ∧
      List.Forall₂ (fun item budget => ∃ rng, item = (chooseFrom S (spec.candidates budget) rng).1)
        items budgets ∧
      (spec.candidates budget = [] → (∀ item ∈ items, item = none) ∧ rng' = rng) ∧
      ((∀ entry ∈ spec.mix,
          ∃ txCount, workloadItemTxCount spec.toWorkloadSpec entry.item = .ok txCount) →
        (∀ budget ∈ budgets, totalWeightOf (spec.candidates budget) < 2 ^ 64) →
        referencePicks S spec budgets rng = .ok (items, rng')) := by
  induction budgets generalizing budget selector rng with
  | nil => exact ⟨[], rng, rfl, .nil, fun _ => ⟨by simp, rfl⟩, fun _ _ => rfl⟩
  | cons budget' budgets ih =>
      obtain ⟨hfirst, hrest⟩ := List.pairwise_cons.1 hle
      obtain ⟨hpick, hnext⟩ := h.pick (S := S) (hfirst budget' List.mem_cons_self) rng
      obtain ⟨items, rng', hok, hitems, hnone, href⟩ :=
        ih hnext hrest (chooseFrom S (spec.candidates budget') rng).2
      refine ⟨(chooseFrom S (spec.candidates budget') rng).1 :: items, rng', ?_,
        .cons ⟨rng, rfl⟩ hitems, fun hempty => ?_, fun hresolve hsum => ?_⟩
      · rw [WorkloadSelector.picks, hpick]
        exact bind_eq_ok.2 ⟨_, rfl, bind_eq_ok.2 ⟨_, hok, rfl⟩⟩
      · have hempty' : spec.candidates budget' = [] := by
          rw [spec.candidates_of_le (hfirst budget' List.mem_cons_self), hempty]
          rfl
        have hchoice : chooseFrom S (spec.candidates budget') rng = (none, rng) := by
          rw [hempty']
          rfl
        obtain ⟨hitems, hrng⟩ := hnone hempty'
        rw [hchoice] at hrng ⊢
        exact ⟨List.forall_mem_cons.2 ⟨rfl, hitems⟩, hrng⟩
      · obtain ⟨hlt, hsum⟩ := List.forall_mem_cons.1 hsum
        rw [referencePicks, referencePickWorkloadItem_eq S hresolve hlt]
        exact bind_eq_ok.2 ⟨_, rfl, bind_eq_ok.2 ⟨_, href hresolve hsum, rfl⟩⟩

end WorkloadSelector

/-! ## The selector equals the reference -/

/-- An entry of the mix that may be picked within the budget. -/
def MixEntry.Fits (spec : MixedWorkload) (budget : ℕ) (entry : MixEntry) : Prop :=
  0 < entry.weight ∧ ∃ txCount, workloadItemTxCount spec.toWorkloadSpec entry.item = .ok txCount ∧
    0 < txCount ∧ txCount ≤ budget

theorem chooseFrom_some {φ R : Type} {S : Sampling φ R} {spec : MixedWorkload} {budget : ℕ} {rng : R}
    {item : MixItem} (h : (chooseFrom S (spec.candidates budget) rng).1 = some item) :
    ∃ entry ∈ spec.mix, entry.item = item ∧ entry.Fits spec budget := by
  rw [chooseFrom] at h
  split at h
  · cases h
  · rename_i htotal
    obtain ⟨c, hc, hscan⟩ := chooseFrom_scan S rng htotal
    obtain rfl := Option.some.inj (hscan.symm.trans h)
    obtain ⟨entry, hentry, hitem, hweight, hcount, hpos, hle, hw⟩ := MixedWorkload.mem_candidates.1 hc
    exact ⟨entry, hentry, hitem, hweight ▸ hw, c.txCount, hitem ▸ hcount, hpos, hle⟩

theorem chooseFrom_none {φ R : Type} {S : Sampling φ R} {spec : MixedWorkload} {budget : ℕ} {rng : R} :
    (chooseFrom S (spec.candidates budget) rng).1 = none ↔
      ∀ entry ∈ spec.mix, ¬ entry.Fits spec budget := by
  constructor
  · intro h entry hentry ⟨hweight, txCount, hcount, hpos, hle⟩
    have hc : (⟨entry.item, txCount, entry.weight⟩ : Candidate) ∈ spec.candidates budget :=
      MixedWorkload.mem_candidates.2 ⟨entry, hentry, rfl, rfl, hcount, hpos, hle, hweight⟩
    have htotal : totalWeightOf (spec.candidates budget) ≠ 0 := by
      intro hzero
      have := List.sum_eq_zero_iff_forall_eq_nat.1 hzero entry.weight (List.mem_map.2 ⟨_, hc, rfl⟩)
      omega
    obtain ⟨c, -, hscan⟩ := chooseFrom_scan S rng htotal
    rw [chooseFrom, if_neg htotal] at h
    exact absurd (hscan.symm.trans h) nofun
  · intro h
    cases hitem : (chooseFrom S (spec.candidates budget) rng).1 with
    | none => rfl
    | some item =>
        obtain ⟨entry, hentry, -, hfits⟩ := chooseFrom_some hitem
        exact absurd hfits (h entry hentry)

/-! ## With gas weights -/

namespace WorkloadSelector

variable {φ R : Type} {S : Sampling φ R} {selector selector' : WorkloadSelector φ}

theorem weighByGas_spec {entries : List (WeightedWorkloadItem φ)} {estimates : List ℕ}
    (hlength : estimates.length = entries.length) {total : ℕ} (hcumulative : Cumulative total entries)
    (gas : φ) : (weighByGas S gas (entries.zip estimates)).1.map (·.candidate) =
        entries.map (·.candidate) ∧
      Cumulative total (weighByGas S gas (entries.zip estimates)).1 := by
  induction entries generalizing estimates total gas with
  | nil => exact ⟨rfl, trivial⟩
  | cons e entries ih =>
      cases estimates with
      | nil => simp at hlength
      | cons estimate estimates =>
          obtain ⟨hmap, hrest⟩ := ih (Nat.succ.inj hlength) hcumulative.2
            (S.add gas (S.div e.weight estimate))
          rw [List.zip_cons_cons, weighByGas]
          refine ⟨?_, hcumulative.1, hrest⟩
          rw [List.map_cons, hmap, List.map_cons]
          rfl

/-- Gas estimates change how the candidates are weighed, not what they are. -/
theorem Caches.setGasEstimates {cands : List Candidate} (h : selector.Caches cands)
    {estimates : List ℕ} (hok : setGasEstimates S selector estimates = .ok selector') :
    selector'.Caches cands := by
  rw [WorkloadSelector.setGasEstimates] at hok
  split at hok
  · cases hok
  · rename_i hvalid
    obtain rfl := Except.ok.inj hok
    obtain ⟨hmap, hcumulative⟩ := weighByGas_spec (S := S) (not_not.1 (not_or.1 hvalid).1)
      h.cumulative S.zero
    exact ⟨hmap.trans h.entries, hcumulative, h.total, h.le_max⟩

theorem itemAt_of_map {index : ℕ} {rng rng' : R} {item : MixItem}
    (h : (selector.itemAt index).map (fun picked => (some picked, rng)) = .ok (some item, rng')) :
    selector.itemAt index = .ok item := by
  cases hitem : selector.itemAt index with
  | error e =>
      rw [hitem] at h
      cases h
  | ok picked =>
      rw [hitem] at h
      cases h
      rfl

/-- However the candidates are weighed, only what fits the budget is picked. -/
theorem Caches.pick_fits {spec : MixedWorkload} {budget budget' : ℕ}
    (h : selector.Caches (spec.candidates budget)) (hle : budget' ≤ budget) {rng rng' : R}
    {item : MixItem} (hok : (selector.pick S rng budget').1 = .ok (some item, rng')) :
    ∃ entry ∈ spec.mix, entry.item = item ∧ entry.Fits spec budget' := by
  obtain ⟨hcaches, -⟩ := h.refit (S := S) budget'
  rw [← spec.candidates_of_le hle] at hcaches
  have hat : ∃ index, (selector.refit S budget').itemAt index = .ok item := by
    rw [pick, WorkloadSelector.choose] at hok
    split at hok
    · cases hok
    · split at hok
      · exact ⟨_, itemAt_of_map hok⟩
      · exact ⟨_, itemAt_of_map hok⟩
  obtain ⟨index, hat⟩ := hat
  rw [itemAt] at hat
  split at hat
  · rename_i e he
    obtain rfl := Except.ok.inj hat
    have hc : e.candidate ∈ spec.candidates budget' := by
      rw [← hcaches.entries]
      exact List.mem_map_of_mem (List.mem_of_getElem? he)
    obtain ⟨entry, hentry, hitem, hweight, hcount, hpos, hle, hw⟩ := MixedWorkload.mem_candidates.1 hc
    exact ⟨entry, hentry, hitem, hweight ▸ hw, e.txCount, hitem ▸ hcount, hpos, hle⟩
  · cases hat

end WorkloadSelector

/-- A smaller budget does not make the total weight greater. -/
theorem totalWeightOf_candidates_le (spec : MixedWorkload) {budget budget' : ℕ}
    (hle : budget' ≤ budget) :
    totalWeightOf (spec.candidates budget') ≤ totalWeightOf (spec.candidates budget) := by
  rw [spec.candidates_of_le hle]
  exact (List.filter_sublist.map _).sum_le_sum fun _ _ => Nat.zero_le _

/-- **The selector equals the reference.** With budgets that never grow, its picks are those of the
    reference, and so is the state of the random generator after them. It picks only what fits the
    budget, and nothing exactly if nothing fits. (With no budget at all the selector is built without
    looking at the mix, so that the references in it need not resolve.) -/
theorem workloadSelector_eq_reference {φ R : Type} (S : Sampling φ R) (spec : MixedWorkload)
    (remainingTxs : ℕ) (selector : WorkloadSelector φ)
    (hnew : WorkloadSelector.new S spec remainingTxs = .ok selector) (budgets : List ℕ)
    (hbudgets : (remainingTxs :: budgets).Pairwise (· ≥ ·)) (rng : R) :
    ∃ items rng', WorkloadSelector.picks S budgets selector rng = .ok (items, rng') ∧
      (remainingTxs ≠ 0 → referencePicks S spec budgets rng = .ok (items, rng')) ∧
      (remainingTxs = 0 → (∀ item ∈ items, item = none) ∧ rng' = rng) ∧
      List.Forall₂ (fun item budget =>
        (∀ picked, item = some picked →
          ∃ entry ∈ spec.mix, entry.item = picked ∧ entry.Fits spec budget) ∧
        (item = none ↔ ∀ entry ∈ spec.mix, ¬ entry.Fits spec budget)) items budgets := by
  obtain ⟨hready, hvalid⟩ := WorkloadSelector.new_ready hnew
  obtain ⟨items, rng', hok, hitems, hnone, href⟩ := hready.picks hbudgets rng
  refine ⟨items, rng', hok, fun hpos => ?_, fun hzero => ?_, hitems.imp ?_⟩
  · obtain ⟨hlt, hresolve⟩ := hvalid hpos
    refine href hresolve fun budget hbudget => ?_
    have hle := (List.pairwise_cons.1 hbudgets).1 budget hbudget
    rw [hready.caches.total] at hlt
    exact (totalWeightOf_candidates_le spec hle).trans_lt hlt
  · refine hnone (List.eq_nil_iff_forall_not_mem.2 fun c hc => ?_)
    obtain ⟨-, -, -, -, -, hpos, hle, -⟩ := MixedWorkload.mem_candidates.1 hc
    omega
  · rintro item budget ⟨rng, rfl⟩
    exact ⟨fun _ => chooseFrom_some, chooseFrom_none⟩

namespace SelectorSample

/-- A generator that returns its state and counts up. -/
def sampling : Sampling Unit ℕ where
  randomRange n rng := (rng % n, rng + 1)
  randomRange_lt _ rng h := Nat.mod_lt rng h
  zero := ()
  add _ _ := ()
  div _ _ := ()
  le _ _ := true
  randomGas _ rng := ((), rng)

/-- A template and a sequence of two transactions. -/
def spec : MixedWorkload where
  templates := [("a", .null)]
  sequences := [("s", [{ template := "a" }, { template := "a" }])]
  mix := [⟨.template "a", 2⟩, ⟨.sequence "s", 3⟩]

end SelectorSample

open SelectorSample in
theorem workloadSelector_eq_reference_sample : ∃ selector items rng',
    WorkloadSelector.new sampling spec 3 = .ok selector ∧
      WorkloadSelector.picks sampling [3, 1, 0] selector 4 = .ok (items, rng') ∧
      referencePicks sampling spec [3, 1, 0] 4 = .ok (items, rng') := by
  have hnew : WorkloadSelector.new sampling spec 3 = .ok
      ⟨[⟨.template "a", 1, 2, 2, (), ()⟩, ⟨.sequence "s", 2, 3, 5, (), ()⟩], 5, 2, false, ()⟩ := by
    rfl
  obtain ⟨items, rng', hpicks, href, -⟩ :=
    workloadSelector_eq_reference sampling spec 3 _ hnew [3, 1, 0] (by decide) 4
  exact ⟨_, items, rng', hnew, hpicks, href (by decide)⟩

/-- The sequence is picked, and then no longer fits. -/
example : referencePicks SelectorSample.sampling SelectorSample.spec [3, 1, 0] 4 =
    .ok ([some (.sequence "s"), some (.template "a"), none], 6) := by rfl

end TxGen
