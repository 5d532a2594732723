import TxGen.LogWait.Search

set_option autoImplicit false

/-! # Searches of an unchanging chain

The two loops ask for consecutive ranges of blocks. They differ at the last block number: the search
stops when it has asked for the last range, the scan when its cursor is past the head, which no cursor
ever is when the head is the largest number. -/

namespace TxGen

/-! ## Ranges -/

theorem le_boundedRangeEnd {start through : ℕ} (maxRange : ℕ) (hle : start ≤ through)
    (hfits : through ≤ u64Max) : start ≤ boundedRangeEnd start through maxRange := by
  unfold boundedRangeEnd saturatingAdd
  omega

theorem boundedRangeEnd_le (start through maxRange : ℕ) :
    boundedRangeEnd start through maxRange ≤ through := Nat.min_le_right _ _

theorem saturatingAdd_of_lt {a : ℕ} (h : a < u64Max) : saturatingAdd a 1 = a + 1 :=
  Nat.min_eq_left h

/-- Consecutive ranges from the first block to the last. -/
inductive Covers (query : ℕ → ℕ → LogFilter) : ℕ → ℕ → List LogFilter → Prop
  | last {first last : ℕ} (h : first ≤ last) : Covers query first last [query first last]
  | more {first mid last : ℕ} {queries : List LogFilter} (h : first ≤ mid)
      (rest : Covers query (mid + 1) last queries) : Covers query first last (query first mid :: queries)

variable {δ ν : Type} [DecidableEq ν]

/-! ## Matches -/

section

local instance lawfulBEqAddress : LawfulBEq Address := inferInstance

local instance lawfulBEqTopic : LawfulBEq (BitVec 256) := inferInstance

/-- The log comes from one of the addresses, and begins with one of the topics. -/
def LogFilter.acceptsContent (firstTopic : δ → Option (BitVec 256)) (filter : LogFilter)
    (log : MinedLog δ) : Bool :=
  (filter.addresses = [] || log.address ∈ filter.addresses) &&
    (filter.topics = [] || (firstTopic log.data).any (· ∈ filter.topics))

end

/-- The logs that a node gives for a filter. -/
def LogFilter.accepts (firstTopic : δ → Option (BitVec 256)) (filter : LogFilter)
    (log : MinedLog δ) : Bool :=
  filter.fromBlock ≤ log.blockNumber && log.blockNumber ≤ filter.toBlock &&
    filter.acceptsContent firstTopic log

namespace LogSearch

variable (firstTopic : δ → Option (BitVec 256)) (search : LogSearch δ ν)
  (canonical : List (MinedLog δ))

/-- A canonical log of the range that matches, with its values. -/
structure Matching (first last : ℕ) (found : MinedLog δ × List ν) : Prop where
  canonical : found.1 ∈ canonical
  accepted : (search.rpcFilter first last).accepts firstTopic found.1 = true
  decoded : search.decodeMatch found.1 = .ok (some found.2)

/-- The match with the least position, or nothing when there is none. -/
def IsFirst (first last : ℕ) : Option (MinedLog δ × List ν) → Prop
  | none => ∀ found, ¬ search.Matching firstTopic canonical first last found
  | some found => search.Matching firstTopic canonical first last found ∧
      ∀ other, search.Matching firstTopic canonical first last other → found.1.key ≤ other.1.key

variable {firstTopic search canonical}

omit [DecidableEq ν] in
theorem accepts_iff {first last : ℕ} {log : MinedLog δ} :
    (search.rpcFilter first last).accepts firstTopic log = true ↔
      (first ≤ log.blockNumber ∧ log.blockNumber ≤ last) ∧
        (search.rpcFilter 0 0).acceptsContent firstTopic log = true := by
  rw [LogFilter.accepts, Bool.and_eq_true, Bool.and_eq_true, decide_eq_true_iff, decide_eq_true_iff]
  rfl

theorem matching_iff {first last : ℕ} {found : MinedLog δ × List ν} {first' last' : ℕ}
    (hin : first ≤ found.1.blockNumber ∧ found.1.blockNumber ≤ last ↔
      first' ≤ found.1.blockNumber ∧ found.1.blockNumber ≤ last') :
    search.Matching firstTopic canonical first last found ↔
      search.Matching firstTopic canonical first' last' found := by
  constructor
  · rintro ⟨hmem, haccepted, hdecoded⟩
    rw [accepts_iff, hin, ← accepts_iff] at haccepted
    exact ⟨hmem, haccepted, hdecoded⟩
  · rintro ⟨hmem, haccepted, hdecoded⟩
    rw [accepts_iff, ← hin, ← accepts_iff] at haccepted
    exact ⟨hmem, haccepted, hdecoded⟩

theorem Matching.within {first last : ℕ} {found : MinedLog δ × List ν}
    (h : search.Matching firstTopic canonical first last found) :
    first ≤ found.1.blockNumber ∧ found.1.blockNumber ≤ last :=
  (accepts_iff.1 h.accepted).1

theorem decodeMatch_ok (log : MinedLog δ) : ∃ values, search.decodeMatch log = .ok values := by
  unfold decodeMatch
  split
  · exact ⟨none, rfl⟩
  · exact search.matcher.decodeIfMatches_ok log.toRpcLog

/-- The first match of a list: those before it do not match. -/
theorem firstMatch_spec (logs : List (MinedLog δ)) :
    (search.firstMatch logs = .ok none ∧ ∀ log ∈ logs, search.decodeMatch log = .ok none) ∨
      ∃ before log after values, logs = before ++ log :: after ∧
        search.firstMatch logs = .ok (some (log, values)) ∧
        search.decodeMatch log = .ok (some values) ∧
        ∀ log ∈ before, search.decodeMatch log = .ok none := by
  induction logs with
  | nil => exact Or.inl ⟨rfl, nofun⟩
  | cons log logs ih =>
      obtain ⟨decoded, hdecoded⟩ := search.decodeMatch_ok log
      cases decoded with
      | some values =>
          refine Or.inr ⟨[], log, logs, values, rfl, ?_, hdecoded, nofun⟩
          simp only [firstMatch, hdecoded]
          rfl
      | none =>
          have hfirst : search.firstMatch (log :: logs) = search.firstMatch logs := by
            simp only [firstMatch, hdecoded]
            rfl
          rw [hfirst]
          rcases ih with ⟨hnone, hall⟩ | ⟨before, found, after, values, rfl, hfound, hvalues, hbefore⟩
          · exact Or.inl ⟨hnone, List.forall_mem_cons.2 ⟨hdecoded, hall⟩⟩
          · exact Or.inr ⟨log :: before, found, after, values, rfl, hfound, hvalues,
              List.forall_mem_cons.2 ⟨hdecoded, hbefore⟩⟩

end LogSearch

theorem sortLogs_perm (logs : List (MinedLog δ)) : (sortLogs logs).Perm logs :=
  List.mergeSort_perm _ _

theorem pairwise_sortLogs (logs : List (MinedLog δ)) :
    (sortLogs logs).Pairwise fun a b => a.key ≤ b.key := by
  have htrans : ∀ a b c : MinedLog δ, decide (a.key ≤ b.key) = true → decide (b.key ≤ c.key) = true →
      decide (a.key ≤ c.key) = true := by
    intro a b c hab hbc
    exact decide_eq_true ((of_decide_eq_true hab).trans (of_decide_eq_true hbc))
  have htotal : ∀ a b : MinedLog δ, (decide (a.key ≤ b.key) || decide (b.key ≤ a.key)) = true := by
    intro a b
    simpa using le_total a.key b.key
  exact (List.pairwise_mergeSort htrans htotal logs).imp of_decide_eq_true

/-! ## A node on an unchanging chain -/

/-- A run that notes the queries. -/
abbrev Traced : Type → Type := StateT (List LogFilter) (Except Report)

instance : MonadLiftT (Except Report) Traced := ⟨fun result queries => do return (← result, queries)⟩

theorem Traced.bind_of_ok {α β : Type} {x : Traced α} {f : α → Traced β}
    {noted noted' : List LogFilter} {a : α} (h : x noted = .ok (a, noted')) :
    (x >>= f) noted = f a noted' := by
  show (x noted >>= fun r => f r.1 r.2) = _
  rw [h]
  rfl

theorem Traced.lift_of_ok {α : Type} {result : Except Report α} {a : α} (h : result = .ok a)
    (noted : List LogFilter) : (liftM result : Traced α) noted = .ok (a, noted) := by
  rw [h]
  rfl

/-- The answers of a node, none of which changes. -/
def unchangingNode (hash : ℕ → Option (BitVec 256)) (answer : LogFilter → List (MinedLog δ)) :
    LogProvider Traced δ where
  canonicalBlockHash number := pure (hash number)
  getLogs filter := fun queries => .ok (answer filter, queries ++ [filter])

variable {firstTopic : δ → Option (BitVec 256)} {canonical : List (MinedLog δ)}
  {hash : ℕ → Option (BitVec 256)} {answer : LogFilter → List (MinedLog δ)}

namespace LogSearch

variable {search : LogSearch δ ν}

/-- What one range gives is the first match there. -/
theorem firstMatch_answer (search : LogSearch δ ν)
    (hanswer : ∀ filter, (answer filter).Perm (canonical.filter (filter.accepts firstTopic)))
    (first last : ℕ) : ∃ r,
      search.firstMatch (sortLogs (answer (search.rpcFilter first last))) = .ok r ∧
        search.IsFirst firstTopic canonical first last r := by
  have hmem : ∀ log, log ∈ sortLogs (answer (search.rpcFilter first last)) ↔
      log ∈ canonical ∧ (search.rpcFilter first last).accepts firstTopic log = true := by
    intro log
    rw [(sortLogs_perm _).mem_iff, (hanswer _).mem_iff, List.mem_filter]
  rcases search.firstMatch_spec (sortLogs (answer (search.rpcFilter first last))) with
    ⟨hnone, hall⟩ | ⟨before, log, after, values, hsplit, hsome, hdecoded, hbefore⟩
  · refine ⟨none, hnone, fun found h => ?_⟩
    have hfound := hall found.1 ((hmem _).2 ⟨h.canonical, h.accepted⟩)
    cases hfound.symm.trans h.decoded
  · have hlog := (hmem log).1 (by simp [hsplit])
    refine ⟨some (log, values), hsome, ⟨hlog.1, hlog.2, hdecoded⟩, fun other h => ?_⟩
    have hsorted := pairwise_sortLogs (answer (search.rpcFilter first last))
    rw [hsplit] at hsorted
    have hother := (hmem _).2 ⟨h.canonical, h.accepted⟩
    rw [hsplit, List.mem_append, List.mem_cons] at hother
    rcases hother with hin | hsame | hafter
    · cases (hbefore _ hin).symm.trans h.decoded
    · exact hsame ▸ le_refl _
    · exact List.rel_of_pairwise_cons (List.pairwise_append.1 hsorted).2.1 hafter

/-- A match in the first part of an interval comes before those in the rest. -/
theorem IsFirst.extend {first mid last : ℕ} (hmid : mid ≤ last) {found : MinedLog δ × List ν}
    (h : search.IsFirst firstTopic canonical first mid (some found)) :
    search.IsFirst firstTopic canonical first last (some found) := by
  obtain ⟨hmatch, hleast⟩ := h
  have hwithin := hmatch.within
  refine ⟨(matching_iff (by omega)).1 hmatch, fun other hother => ?_⟩
  by_cases hin : other.1.blockNumber ≤ mid
  · have := hother.within
    exact hleast other ((matching_iff (by omega)).1 hother)
  · refine le_of_lt (Prod.Lex.toLex_lt_toLex.2 (Or.inl ?_))
    exact Nat.lt_of_le_of_lt hwithin.2 (Nat.lt_of_not_le hin)

/-- Where the first part has no match, the first match is that of the rest. -/
theorem IsFirst.skip {first mid last : ℕ} (hfirst : first ≤ mid + 1)
    {r : Option (MinedLog δ × List ν)}
    (hnone : search.IsFirst firstTopic canonical first mid none)
    (h : search.IsFirst firstTopic canonical (mid + 1) last r) :
    search.IsFirst firstTopic canonical first last r := by
  have hrest : ∀ found, search.Matching firstTopic canonical first last found ↔
      search.Matching firstTopic canonical (mid + 1) last found := by
    intro found
    by_cases hin : found.1.blockNumber ≤ mid
    · constructor
      · intro hmatch
        have := hmatch.within
        exact absurd ((matching_iff (by omega)).1 hmatch) (hnone found)
      · intro hmatch
        have := hmatch.within
        omega
    · exact matching_iff (by omega)
  cases r with
  | none => exact fun found hmatch => h found ((hrest found).1 hmatch)
  | some found => exact ⟨(hrest found).2 h.1, fun other hother => h.2 other ((hrest other).1 hother)⟩

/-- The queries end with the range of the first match, or at the last block. -/
structure Stops (through : ℕ) (queries : List LogFilter) (stop : ℕ)
    (r : Option (MinedLog δ × List ν)) : Prop where
  le : stop ≤ through
  all : r = none → stop = through
  inside : ∀ found, r = some found → found.1.blockNumber ≤ stop ∧
    ∀ query ∈ queries.dropLast, query.toBlock < found.1.blockNumber

/-- One range of the search. -/
theorem findRanges_succ {through fuel cursor last : ℕ}
    (hlast : boundedRangeEnd cursor through search.maxRange = last)
    {r : Option (MinedLog δ × List ν)}
    (hr : search.firstMatch (sortLogs (answer (search.rpcFilter cursor last))) = .ok r)
    (noted : List LogFilter) :
    search.findRanges (unchangingNode hash answer) through (fuel + 1) cursor noted =
      if r = none ∧ last ≠ through then
        search.findRanges (unchangingNode hash answer) through fuel (saturatingAdd last 1)
          (noted ++ [search.rpcFilter cursor last])
      else .ok (some r, noted ++ [search.rpcFilter cursor last]) := by
  subst hlast
  rw [findRanges, Traced.bind_of_ok rfl, Traced.bind_of_ok (Traced.lift_of_ok hr _)]
  cases r with
  | some found => exact (if_neg nofun).symm
  | none =>
      dsimp only
      by_cases hlast : boundedRangeEnd cursor through search.maxRange = through
      · rw [if_pos hlast, if_neg fun h => h.2 hlast]
        rfl
      · rw [if_neg hlast, if_pos ⟨rfl, hlast⟩]

/-- By induction on the blocks that are left. -/
theorem findRanges_spec (search : LogSearch δ ν) (hash : ℕ → Option (BitVec 256))
    (hanswer : ∀ filter, (answer filter).Perm (canonical.filter (filter.accepts firstTopic)))
    {through : ℕ} (hfits : through ≤ u64Max) {fuel cursor : ℕ} (hle : cursor ≤ through)
    (hfuel : through - cursor < fuel) (noted : List LogFilter) : ∃ r queries stop,
      search.findRanges (unchangingNode hash answer) through fuel cursor noted =
        .ok (some r, noted ++ queries) ∧
      Covers search.rpcFilter cursor stop queries ∧ Stops through queries stop r ∧
      search.IsFirst firstTopic canonical cursor through r := by
  induction fuel generalizing cursor noted with
  | zero => exact absurd hfuel (Nat.not_lt_zero _)
  | succ fuel ih =>
      obtain ⟨last, hlast⟩ : ∃ last, boundedRangeEnd cursor through search.maxRange = last := ⟨_, rfl⟩
      have hlow := hlast ▸ le_boundedRangeEnd search.maxRange hle hfits
      have hhigh := hlast ▸ boundedRangeEnd_le cursor through search.maxRange
      obtain ⟨r, hr, hfirst⟩ := search.firstMatch_answer hanswer cursor last
      rw [findRanges_succ hlast hr]
      cases r with
      | some found =>
          refine ⟨some found, [search.rpcFilter cursor last], last, if_neg nofun, .last hlow,
            ⟨hhigh, nofun, ?_⟩, hfirst.extend hhigh⟩
          rintro _ ⟨⟩
          exact ⟨hfirst.1.within.2, nofun⟩
      | none =>
          by_cases hlast : last = through
          · subst hlast
            refine ⟨none, [search.rpcFilter cursor last], last, if_neg (fun h => h.2 rfl), .last hlow,
              ⟨Nat.le_refl _, fun _ => rfl, nofun⟩, hfirst⟩
          · have hlt : last < through := Nat.lt_of_le_of_ne hhigh hlast
            rw [if_pos ⟨rfl, hlast⟩, saturatingAdd_of_lt (Nat.lt_of_lt_of_le hlt hfits)]
            obtain ⟨r, queries, stop, hrest, hcovers, hstops, hfound⟩ :=
              ih (show last + 1 ≤ through from hlt) (by omega) (noted ++ [search.rpcFilter cursor last])
            refine ⟨r, search.rpcFilter cursor last :: queries, stop, ?_, .more hlow hcovers,
              ⟨hstops.le, hstops.all, fun found hr => ?_⟩, hfirst.skip (by omega) hfound⟩
            · rw [hrest, List.append_assoc, List.singleton_append]
            · obtain ⟨hstop, hbefore⟩ := hstops.inside found hr
              refine ⟨hstop, fun query hquery => ?_⟩
              have hne : queries ≠ [] := by cases hcovers <;> simp
              rw [List.dropLast_cons_of_ne_nil hne, List.mem_cons] at hquery
              rcases hquery with rfl | hquery
              · subst hr
                exact Nat.lt_of_succ_le hfound.1.within.1
              · exact hbefore query hquery

/-- Two logs have different positions, so that there is one first match. -/
theorem IsFirst.unique (hkeys : (canonical.map MinedLog.key).Nodup) {first last : ℕ}
    {r r' : Option (MinedLog δ × List ν)} (h : search.IsFirst firstTopic canonical first last r)
    (h' : search.IsFirst firstTopic canonical first last r') : r = r' := by
  cases r with
  | none =>
      cases r' with
      | none => rfl
      | some found => exact absurd h'.1 (h found)
  | some found =>
      cases r' with
      | none => exact absurd h.1 (h' found)
      | some other =>
          obtain ⟨log, values⟩ := found
          obtain ⟨log', values'⟩ := other
          have hkey : log.key = log'.key := le_antisymm (h.2 _ h'.1) (h'.2 _ h.1)
          obtain rfl : log = log' :=
            List.inj_on_of_nodup_map hkeys h.1.canonical h'.1.canonical hkey
          obtain rfl := Option.some.inj (Except.ok.inj (h.1.decoded.symm.trans h'.1.decoded))
          rfl

/-- Neither the filter nor the values depend on the range of a query. -/
theorem isFirst_maxRange {first last maxRange : ℕ} {r : Option (MinedLog δ × List ν)} :
    { search with maxRange }.IsFirst firstTopic canonical first last r ↔
      search.IsFirst firstTopic canonical first last r := by
  have hmatching : ∀ found, { search with maxRange }.Matching firstTopic canonical first last found ↔
      search.Matching firstTopic canonical first last found := fun found =>
    ⟨fun h => ⟨h.canonical, h.accepted, h.decoded⟩, fun h => ⟨h.canonical, h.accepted, h.decoded⟩⟩
  cases r with
  | none => simp only [IsFirst, hmatching]
  | some found => simp only [IsFirst, hmatching]

theorem findFirstCanonicalLog_spec (search : LogSearch δ ν)
    (hanswer : ∀ filter, (answer filter).Perm (canonical.filter (filter.accepts firstTopic)))
    {start through : ℕ} (hfits : through ≤ u64Max) (hle : start ≤ through)
    {endpoint : BitVec 256} (hhash : hash through = some endpoint) {fuel : ℕ}
    (hfuel : through - start < fuel) : ∃ r queries stop,
      search.findFirstCanonicalLog (unchangingNode hash answer) start through fuel [] =
        .ok (some r, queries) ∧
      Covers search.rpcFilter start stop queries ∧ Stops through queries stop r ∧
      search.IsFirst firstTopic canonical start through r := by
  obtain ⟨r, queries, stop, hrun, hcovers, hstops, hfirst⟩ :=
    search.findRanges_spec hash hanswer hfits hle hfuel []
  refine ⟨r, queries, stop, ?_, hcovers, hstops, hfirst⟩
  have hbefore : (unchangingNode hash answer).canonicalBlockHash through [] =
      .ok (some endpoint, []) := by rw [← hhash]; rfl
  have hafter : (unchangingNode hash answer).canonicalBlockHash through queries =
      .ok (some endpoint, queries) := by rw [← hhash]; rfl
  cases fuel with
  | zero => exact absurd hfuel (Nat.not_lt_zero _)
  | succ fuel =>
      rw [findFirstCanonicalLog, if_neg (Nat.not_lt.2 hle), findStable, Traced.bind_of_ok hbefore]
      dsimp only
      rw [Traced.bind_of_ok hrun]
      dsimp only
      rw [List.nil_append, Traced.bind_of_ok hafter, if_pos rfl]
      rfl

end LogSearch

/-! ## The scan -/

section Scan

variable {interests : List LogInterest} {head : ℕ}

theorem scanRanges_of_le {fuel cursor last : ℕ} (hle : cursor ≤ head)
    (hlast : boundedRangeEnd cursor head (scanChunk interests) = last) (logs : List (MinedLog δ))
    (noted : List LogFilter) :
    scanRanges (unchangingNode hash answer) interests head (fuel + 1) cursor logs noted =
      scanRanges (unchangingNode hash answer) interests head fuel (saturatingAdd last 1)
        (logs ++ answer (unionFilter interests cursor last))
        (noted ++ [unionFilter interests cursor last]) := by
  subst hlast
  rw [scanRanges, if_pos hle, Traced.bind_of_ok rfl]

theorem scanRanges_of_lt {fuel cursor : ℕ} (hlt : head < cursor) (logs : List (MinedLog δ))
    (noted : List LogFilter) :
    scanRanges (unchangingNode hash answer) interests head (fuel + 1) cursor logs noted =
      .ok (some logs, noted) := by
  rw [scanRanges, if_neg (Nat.not_le.2 hlt)]
  rfl

/-- Below the largest number the scan ends. -/
theorem scanRanges_spec (hfits : head < u64Max) {fuel cursor : ℕ} (hle : cursor ≤ head)
    (hfuel : head + 1 - cursor < fuel) (logs : List (MinedLog δ)) (noted : List LogFilter) :
    ∃ logs' queries,
      scanRanges (unchangingNode hash answer) interests head fuel cursor logs noted =
        .ok (some logs', noted ++ queries) ∧
      Covers (unionFilter interests) cursor head queries := by
  induction fuel generalizing cursor logs noted with
  | zero => exact absurd hfuel (Nat.not_lt_zero _)
  | succ fuel ih =>
      obtain ⟨last, hlast⟩ :
        ∃ last, boundedRangeEnd cursor head (scanChunk interests) = last := ⟨_, rfl⟩
      have hlow := hlast ▸ le_boundedRangeEnd (scanChunk interests) hle hfits.le
      have hhigh := hlast ▸ boundedRangeEnd_le cursor head (scanChunk interests)
      rw [scanRanges_of_le hle hlast, saturatingAdd_of_lt (Nat.lt_of_le_of_lt hhigh hfits)]
      rcases Nat.lt_or_eq_of_le hhigh with hlt | rfl
      · obtain ⟨logs', queries, hrest, hcovers⟩ := ih (show last + 1 ≤ head from hlt) (by omega)
          (logs ++ answer (unionFilter interests cursor last))
          (noted ++ [unionFilter interests cursor last])
        refine ⟨logs', unionFilter interests cursor last :: queries, ?_, .more hlow hcovers⟩
        rw [hrest, List.append_assoc, List.singleton_append]
      · obtain ⟨fuel, rfl⟩ := Nat.exists_eq_succ_of_ne_zero (show fuel ≠ 0 by omega)
        exact ⟨_, _, scanRanges_of_lt (Nat.lt_succ_self _) _ _, .last hlow⟩

/-- At the largest number it goes on for ever. -/
theorem scanRanges_stuck {fuel cursor : ℕ} (hle : cursor ≤ u64Max) (logs : List (MinedLog δ))
    (noted : List LogFilter) : ∃ queries,
      scanRanges (unchangingNode hash answer) interests u64Max fuel cursor logs noted =
        .ok (none, queries) := by
  induction fuel generalizing cursor logs noted with
  | zero => exact ⟨noted, rfl⟩
  | succ fuel ih =>
      rw [scanRanges_of_le hle rfl]
      exact ih (Nat.min_le_right _ _) _ _

end Scan

/-- Searches of an unchanging chain whose last block is known find the first match, whatever their
    ranges. -/
def FindsFirst (firstTopic : δ → Option (BitVec 256)) (search : LogSearch δ ν)
    (canonical : List (MinedLog δ)) (hash : ℕ → Option (BitVec 256))
    (answer : LogFilter → List (MinedLog δ)) (start through : ℕ) : Prop :=
  ∃ r, search.IsFirst firstTopic canonical start through r ∧
    ∀ maxRange fuel, through - start < fuel → ∃ queries stop,
      { search with maxRange }.findFirstCanonicalLog (unchangingNode hash answer) start through fuel [] =
        .ok (some r, queries) ∧
      Covers search.rpcFilter start stop queries ∧ LogSearch.Stops through queries stop r

/-- The scan ends, and has asked for all blocks. -/
def ScansAll (interests : List LogInterest) (hash : ℕ → Option (BitVec 256))
    (answer : LogFilter → List (MinedLog δ)) (start head : ℕ) : Prop :=
  ∃ n, ∀ fuel, n ≤ fuel → ∃ logs queries,
    scanRanges (unchangingNode hash answer) interests head fuel start [] [] =
      .ok (some logs, queries) ∧ Covers (unionFilter interests) start head queries

theorem findsFirst (search : LogSearch δ ν)
    (hanswer : ∀ filter, (answer filter).Perm (canonical.filter (filter.accepts firstTopic)))
    (hkeys : (canonical.map MinedLog.key).Nodup) {start through : ℕ}
    (hfits : through ≤ u64Max) (hle : start ≤ through) {endpoint : BitVec 256}
    (hhash : hash through = some endpoint) :
    FindsFirst firstTopic search canonical hash answer start through := by
  obtain ⟨r, -, -, -, -, -, hfirst⟩ := search.findFirstCanonicalLog_spec hanswer
    hfits hle hhash (Nat.lt_succ_self (through - start))
  refine ⟨r, hfirst, fun maxRange fuel hfuel => ?_⟩
  obtain ⟨r', queries, stop, hrun, hcovers, hstops, hfirst'⟩ :=
    { search with maxRange }.findFirstCanonicalLog_spec hanswer hfits hle hhash hfuel
  obtain rfl : r = r' := hfirst.unique hkeys (LogSearch.isFirst_maxRange.1 hfirst')
  exact ⟨queries, stop, hrun, hcovers, hstops⟩

/-- The search of an unchanging chain is right at every block number, and the scan exactly below the
    largest one. -/
theorem log_ranges_covered_iff {search : LogSearch δ ν} {interests : List LogInterest}
    (hanswer : ∀ filter, (answer filter).Perm (canonical.filter (filter.accepts firstTopic)))
    (hkeys : (canonical.map MinedLog.key).Nodup) {start through : ℕ}
    (hfits : through ≤ u64Max) (hle : start ≤ through) {endpoint : BitVec 256}
    (hhash : hash through = some endpoint) :
    (FindsFirst firstTopic search canonical hash answer start through ∧
      ScansAll interests hash answer start through ↔ through < u64Max) ∧
    FindsFirst firstTopic search canonical hash answer start through := by
  have hfinds := findsFirst search hanswer hkeys hfits hle hhash
  refine ⟨⟨fun ⟨_, n, hscans⟩ => ?_, fun hlt => ⟨hfinds, through + 2 - start, fun fuel hfuel => ?_⟩⟩,
    hfinds⟩
  · refine Nat.lt_of_le_of_ne hfits ?_
    rintro rfl
    obtain ⟨logs, queries, hrun, -⟩ := hscans n (Nat.le_refl n)
    obtain ⟨queries', hstuck⟩ := scanRanges_stuck hle [] []
    cases hrun.symm.trans hstuck
  · exact scanRanges_spec hlt hle (by omega) [] []

namespace LogSearchSample

/-- An event without parameters. -/
def search : LogSearch Unit Unit where
  matcher := {
    parameters := []
    expected := []
    decodeLog := fun _ => some ([], [])
    decoded := by
      rintro data indexed body ⟨⟩
      exact ⟨rfl, rfl⟩ }
  selector := none
  maxRange := 4

def log : MinedLog Unit where
  address := 0
  removed := false
  data := ()
  blockNumber := 5
  blockHash := 0
  transactionHash := 0
  logIndex := 0

def interest : LogInterest where
  topic0 := none
  address := none
  startBlock := 0
  maxBlockRange := 1000

end LogSearchSample

open LogSearchSample in
theorem log_ranges_covered_sample :
    (FindsFirst (fun _ => none) search [log] (fun _ => some 0)
        (fun filter => [log].filter (filter.accepts fun _ => none)) 0 10 ∧
      ScansAll [interest] (fun _ => some 0)
        (fun filter => [log].filter (filter.accepts fun _ => none)) 0 10 ↔ 10 < u64Max) ∧
    FindsFirst (fun _ => none) search [log] (fun _ => some 0)
      (fun filter => [log].filter (filter.accepts fun _ => none)) 0 10 :=
  log_ranges_covered_iff (fun _ => .refl _) (by simp) (by decide) (by decide) rfl

open LogSearchSample in
/-- The scan of the last blocks does not end when the head is the largest number. -/
theorem scan_never_ends : ¬ ScansAll [interest] (fun _ => some 0) (fun _ => ([] : List (MinedLog Unit)))
    (u64Max - 63) u64Max := by
  rintro ⟨n, hscans⟩
  obtain ⟨logs, queries, hrun, -⟩ := hscans n (Nat.le_refl n)
  obtain ⟨queries', hstuck⟩ := scanRanges_stuck (Nat.sub_le u64Max 63) [] []
  cases hrun.symm.trans hstuck

end TxGen
