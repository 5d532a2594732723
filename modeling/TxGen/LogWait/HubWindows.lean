import TxGen.LogWait.Hub

set_option autoImplicit false

/-! # What a scan of the hub finds

The union of the filters accepts every log that one of the interests accepts, and the ranges of a scan
put together are the blocks from the first to the last. -/

namespace TxGen

namespace LogHub

variable {δ : Type}

/-- The chains of one network. -/
structure BlockLedger (δ : Type) extends Ledger (@Block.hash δ) where
  nonempty : ∀ chain ∈ chains, chain ≠ []
  short : ∀ chain ∈ chains, chain.length ≤ u64Max
  numbered : ∀ chain ∈ chains, ∀ (n : ℕ) (b : Block δ), chain[n]? = some b →
    ∀ log ∈ b.logs, log.blockNumber = n

def canonicalLogs (chain : Chain δ) : List (MinedLog δ) := chain.flatMap (·.logs)

/-- The canonical logs from one block to before another that the union of the filters accepts. -/
def scanned (firstTopic : δ → Option (BitVec 256)) (interests : List LogInterest) (chain : Chain δ)
    (first next : ℕ) : List (MinedLog δ) :=
  (canonicalLogs chain).filter fun log => first ≤ log.blockNumber && log.blockNumber < next &&
    (unionFilter interests 0 0).acceptsContent firstTopic log

variable {firstTopic : δ → Option (BitVec 256)} {interests : List LogInterest} {chain chain' : Chain δ}

theorem getLogs_unionFilter (first last : ℕ) :
    getLogs firstTopic chain (unionFilter interests first last) =
      scanned firstTopic interests chain first (last + 1) := by
  unfold getLogs scanned canonicalLogs
  congr 1
  funext log
  simp only [LogFilter.accepts, unionFilter, Nat.lt_succ_iff]
  rfl

theorem mem_scanned {first next : ℕ} {log : MinedLog δ} :
    log ∈ scanned firstTopic interests chain first next ↔ log ∈ canonicalLogs chain ∧
      (first ≤ log.blockNumber ∧ log.blockNumber < next) ∧
        (unionFilter interests 0 0).acceptsContent firstTopic log = true := by
  simp only [scanned, List.mem_filter, Bool.and_eq_true, decide_eq_true_eq]

theorem scanned_empty (first : ℕ) : scanned firstTopic interests chain first first = [] := by
  refine List.eq_nil_iff_forall_not_mem.2 fun log hlog => ?_
  obtain ⟨-, ⟨hlow, hhigh⟩, -⟩ := mem_scanned.1 hlog
  exact absurd hhigh (Nat.not_lt.2 hlow)

/-- Two ranges that meet make one. -/
theorem scanned_append {first mid next : ℕ} (hlow : first ≤ mid) (hhigh : mid ≤ next) :
    (scanned firstTopic interests chain first mid ++ scanned firstTopic interests chain mid next).Perm
      (scanned firstTopic interests chain first next) := by
  have hparts := List.filter_append_perm (fun log : MinedLog δ => decide (log.blockNumber < mid))
    (scanned firstTopic interests chain first next)
  have hbelow : (scanned firstTopic interests chain first next).filter
      (fun log => decide (log.blockNumber < mid)) = scanned firstTopic interests chain first mid := by
    simp only [scanned, List.filter_filter]
    refine List.filter_congr fun log _ => ?_
    by_cases hlt : log.blockNumber < mid
    · simp [hlt, Nat.lt_of_lt_of_le hlt hhigh]
    · simp [hlt]
  have habove : (scanned firstTopic interests chain first next).filter
      (fun log => !decide (log.blockNumber < mid)) = scanned firstTopic interests chain mid next := by
    simp only [scanned, List.filter_filter]
    refine List.filter_congr fun log _ => ?_
    by_cases hlt : log.blockNumber < mid
    · simp [hlt]
    · simp [hlt, Nat.le_of_not_lt hlt, hlow.trans (Nat.le_of_not_lt hlt)]
  rwa [hbelow, habove] at hparts

/-- The blocks before a number are all that a range up to there depends on. -/
theorem scanned_take {L : BlockLedger δ} (hmem : chain ∈ L.chains) {first next m : ℕ} (hle : next ≤ m) :
    scanned firstTopic interests (chain.take m) first next =
      scanned firstTopic interests chain first next := by
  have hsplit : canonicalLogs chain = canonicalLogs (chain.take m) ++ canonicalLogs (chain.drop m) := by
    unfold canonicalLogs
    rw [← List.flatMap_append, List.take_append_drop]
  unfold scanned
  rw [hsplit, List.filter_append, List.self_eq_append_right]
  refine List.filter_eq_nil_iff.2 fun log hlog => ?_
  -- the later blocks have later numbers
  obtain ⟨b, hb, hin⟩ := List.mem_flatMap.1 hlog
  obtain ⟨k, hk⟩ := List.mem_iff_getElem?.1 hb
  rw [List.getElem?_drop] at hk
  have hnumber := L.numbered chain hmem _ b hk log hin
  have hnot : ¬ log.blockNumber < next := by omega
  simp [hnot]

theorem scanned_congr {L : BlockLedger δ} (hmem : chain ∈ L.chains) (hmem' : chain' ∈ L.chains)
    {first next m : ℕ} (hle : next ≤ m) (htake : chain.take m = chain'.take m) :
    scanned firstTopic interests chain first next = scanned firstTopic interests chain' first next := by
  rw [← scanned_take hmem hle, htake, scanned_take hmem' hle]

theorem acceptsContent_iff {filter : LogFilter} {log : MinedLog δ} :
    filter.acceptsContent firstTopic log = true ↔
      (filter.addresses = [] ∨ log.address ∈ filter.addresses) ∧
        (filter.topics = [] ∨ ∃ topic ∈ filter.topics, firstTopic log.data = some topic) := by
  simp only [LogFilter.acceptsContent, Bool.and_eq_true, Bool.or_eq_true, decide_eq_true_eq,
    Option.any_eq_true]
  refine and_congr Iff.rfl (or_congr Iff.rfl ⟨?_, ?_⟩)
  · rintro ⟨topic, hfirst, hin⟩
    exact ⟨topic, hin, hfirst⟩
  · rintro ⟨topic, hin, hfirst⟩
    exact ⟨topic, hfirst, hin⟩

/-- One dimension of the shared filter: nothing is asked for, or what each interest asks for is listed. -/
theorem union_dimension {α : Type} [DecidableEq α] (wanted : LogInterest → Option α)
    {interest : LogInterest} (hin : interest ∈ interests) :
    (if interests.all (wanted · |>.isSome) then (interests.filterMap wanted).dedup else []) = [] ∨
      ∃ a, wanted interest = some a ∧
        a ∈ if interests.all (wanted · |>.isSome) then (interests.filterMap wanted).dedup else [] := by
  by_cases hall : interests.all (wanted · |>.isSome) = true
  · obtain ⟨a, ha⟩ := Option.isSome_iff_exists.1 (List.all_eq_true.1 hall interest hin)
    refine Or.inr ⟨a, ha, ?_⟩
    rw [if_pos hall, List.mem_dedup]
    exact List.mem_filterMap.2 ⟨interest, hin, ha⟩
  · exact Or.inl (if_neg hall)

/-- The shared filter accepts what one of the interests accepts. -/
theorem unionFilter_accepts {interest : LogInterest} (hin : interest ∈ interests) {log : MinedLog δ}
    (hmatches : interest.matchesLog firstTopic log = true) :
    (unionFilter interests 0 0).acceptsContent firstTopic log = true := by
  simp only [LogInterest.matchesLog, Bool.and_eq_true] at hmatches
  obtain ⟨⟨-, haddress⟩, htopic⟩ := hmatches
  refine acceptsContent_iff.2 ⟨?_, ?_⟩
  · rcases union_dimension (·.address) hin with hnone | ⟨address, hsome, hlisted⟩
    · exact Or.inl hnone
    · rw [hsome] at haddress
      have heq : log.address = address := by simpa using haddress
      exact Or.inr (heq ▸ hlisted)
  · rcases union_dimension (·.topic0) hin with hnone | ⟨topic, hsome, hlisted⟩
    · exact Or.inl hnone
    · rw [hsome] at htopic
      have heq : firstTopic log.data = some topic := by simpa using htopic
      exact Or.inr ⟨topic, hlisted, heq⟩

/-! ## Windows -/

theorem coverageStart_le {plan : TickPlan} {interest : LogInterest} (hin : interest ∈ plan.interests)
    (head : ℕ) : coverageStart plan head ≤
      max (head - (recentLogRescanBlocks - 1)) interest.startBlock := by
  have hmem : interest.startBlock ∈ plan.interests.map (·.startBlock) := List.mem_map_of_mem hin
  obtain ⟨least, hleast⟩ : ∃ least, (plan.interests.map (·.startBlock)).min? = some least :=
    Option.isSome_iff_exists.1 (List.isSome_min?_of_mem hmem)
  have hle : least ≤ interest.startBlock := (List.min?_eq_some_iff.1 hleast).2 _ hmem
  unfold coverageStart
  rw [hleast, Option.getD_some]
  omega

/-- The window has the logs of the chain that the interest asks for, in their order. -/
structure Complete (firstTopic : δ → Option (BitVec 256)) (interest : LogInterest)
    (window : LogWindow δ) (chain : Chain δ) : Prop where
  head_lt : window.head < chain.length
  coverage : window.coverageStart ≤
    max (window.head - (recentLogRescanBlocks - 1)) interest.startBlock
  found : ∀ log ∈ canonicalLogs chain, window.coverageStart ≤ log.blockNumber →
    log.blockNumber ≤ window.head → interest.matchesLog firstTopic log = true → log ∈ window.logs
  canonical : ∀ log ∈ window.logs, log ∈ canonicalLogs chain ∧
    window.coverageStart ≤ log.blockNumber ∧ log.blockNumber ≤ window.head
  sorted : window.logs.Pairwise fun a b => a.key ≤ b.key

theorem complete_of_scan {plan : TickPlan} {interest : LogInterest} (hin : interest ∈ plan.interests)
    {head cursor epoch : ℕ} (hhead : head < chain.length) (hpast : head < cursor)
    (hcursor : cursor ≤ max (coverageStart plan head) (head + 1)) {logs : List (MinedLog δ)}
    (hlogs : logs.Perm
      (scanned firstTopic plan.interests chain (coverageStart plan head) cursor)) :
    Complete firstTopic interest
      { epoch, head, coverageStart := coverageStart plan head, logs := sortLogs logs } chain := by
  have hmem : ∀ log, log ∈ sortLogs logs ↔
      log ∈ scanned firstTopic plan.interests chain (coverageStart plan head) cursor := fun log =>
    ((sortLogs_perm logs).trans hlogs).mem_iff
  refine ⟨hhead, coverageStart_le hin head, fun log hlog hlow hhigh hmatches => ?_, fun log hlog => ?_,
    pairwise_sortLogs logs⟩
  · exact (hmem log).2 (mem_scanned.2 ⟨hlog, ⟨hlow, hhigh.trans_lt hpast⟩,
      unionFilter_accepts hin hmatches⟩)
  · obtain ⟨hcanonical, ⟨hlow, hhigh⟩, -⟩ := mem_scanned.1 ((hmem log).1 hlog)
    have hle : log.blockNumber ≤ head := by
      rcases Nat.le_total (coverageStart plan head) (head + 1) with hin | hout
      · rw [max_eq_right hin] at hcursor
        omega
      · rw [max_eq_left hout] at hcursor
        omega
    exact ⟨hcanonical, hlow, hle⟩

end LogHub

end TxGen
