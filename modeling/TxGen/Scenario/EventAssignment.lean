import TxGen.Lib.Matching
import TxGen.Lib.Namespaces
import TxGen.Scenario.Name
import TxGen.Scenario.Value

set_option autoImplicit false

/-! # Assigning the expected events of a receipt to its logs

`completeReceiptEventAssignment` gives every expected event a log of its own. What of the ABI crate is
used is a decoder, which returns as many values as the event has parameters. -/

namespace TxGen

/-! ## Events and logs -/

/-- A log in a receipt; `δ` are its topics and its data. -/
structure RpcLog (δ : Type) where
  address : Address
  removed : Bool
  data : δ

structure EventParameter where
  name : String
  indexed : Bool

/-- An event with the values that some of its parameters must have. `decodeLog` gives the indexed and the
    other values of a log of the event. -/
structure EventMatcher (δ ν : Type) where
  parameters : List EventParameter
  expected : List (String × ν)
  decodeLog : δ → Option (List ν × List ν)
  decoded : ∀ data indexed body, decodeLog data = some (indexed, body) →
    indexed.length = parameters.countP (·.indexed) ∧ body.length = parameters.countP (!·.indexed)

/-- One required event in a receipt-scoped grouped wait. -/
structure PreparedReceiptEvent (δ ν : Type) where
  id : String
  address : Option Address
  matcher : EventMatcher δ ν

variable {δ ν : Type} [DecidableEq ν]

/-- The values in the order of the parameters, unless one is not the expected one. -/
def matchParameters (expected : List (String × ν)) :
    List EventParameter → List ν → List ν → Except Report (Option (List ν))
  | [], _, _ => .ok (some [])
  | parameter :: parameters, indexed, body =>
    match (if parameter.indexed then indexed else body) with
    | [] => bail "decoded event argument count mismatch"
    | value :: values =>
      if (OrdMap.get? parameter.name expected).any (· ≠ value) then .ok none
      else
        (matchParameters expected parameters (if parameter.indexed then values else indexed)
          (if parameter.indexed then body else values)).map (·.map (value :: ·))

def EventMatcher.decodeIfMatches (matcher : EventMatcher δ ν) (log : RpcLog δ) :
    Except Report (Option (List ν)) :=
  match matcher.decodeLog log.data with
  | none => .ok none
  | some (indexed, body) => matchParameters matcher.expected matcher.parameters indexed body

/-! ## The assignment -/

/-- The positions of the logs that match, from `position` on. -/
def matchingLogs (required : PreparedReceiptEvent δ ν) :
    ℕ → List (RpcLog δ) → Except Report (List ℕ)
  | _, [] => .ok []
  | position, log :: logs =>
    if log.removed ∨ required.address.any (log.address ≠ ·) then
      matchingLogs required (position + 1) logs
    else
      match required.matcher.decodeIfMatches log with
      | .error e => .error e
      | .ok none => matchingLogs required (position + 1) logs
      | .ok (some _) => (matchingLogs required (position + 1) logs).map (position :: ·)

/-- Find a log for an event along an augmenting path. -/
def augmentRemaining (candidates : List (List ℕ)) (unavailableLogs : Finset ℕ) (logCount : ℕ) :
    ℕ → Matching.Search ℕ ℕ → Bool × Matching.Search ℕ ℕ :=
  Matching.augment (fun eventIndex => candidates.getD eventIndex []) unavailableLogs (logCount + 1)

def remainingEventsHaveCompleteAssignment (candidates : List (List ℕ)) (logCount : ℕ)
    (unavailableLogs : Finset ℕ) (remaining : List ℕ) : Bool :=
  Matching.coverAll (augmentRemaining candidates unavailableLogs logCount) remaining fun _ => none

/-- Select the first canonical log for each required event that still permits a complete assignment for
    every later requirement. -/
def completeReceiptEventAssignment (events : List (PreparedReceiptEvent δ ν))
    (logs : List (RpcLog δ)) : Except Report (List ℕ) :=
  match events.mapM (matchingLogs · 0 logs) with
  | .error e => .error e
  | .ok candidates =>
    match Matching.leastAssignment (fun eventIndex => candidates.getD eventIndex [])
        (remainingEventsHaveCompleteAssignment candidates logs.length) (List.range events.length) ∅ with
    | .ok assignment => .ok assignment
    | .error eventIndex =>
      bail ("confirmed transaction receipt contained no complete canonical event assignment for '" ++
        (events[eventIndex]?.map (·.id)).getD "" ++ "'")

/-! ## Matching logs -/

/-- The log is one that the event may be assigned to. -/
def PreparedReceiptEvent.Matches (required : PreparedReceiptEvent δ ν) (log : RpcLog δ) : Prop :=
  log.removed = false ∧ (∀ expected, required.address = some expected → log.address = expected) ∧
    ∃ values, required.matcher.decodeIfMatches log = .ok (some values)

/-- The decoder returns enough values, so the comparison does not fail. -/
theorem matchParameters_ok (expected : List (String × ν)) {parameters : List EventParameter}
    {indexed body : List ν} (hindexed : indexed.length = parameters.countP (·.indexed))
    (hbody : body.length = parameters.countP (!·.indexed)) :
    ∃ values, matchParameters expected parameters indexed body = .ok values := by
  induction parameters generalizing indexed body with
  | nil => exact ⟨_, rfl⟩
  | cons parameter parameters ih =>
      rw [List.countP_cons] at hindexed hbody
      rw [matchParameters]
      cases hp : parameter.indexed with
      | true =>
          simp only [hp, if_true, Bool.not_true, Bool.false_eq_true, if_false, Nat.add_zero]
            at hindexed hbody ⊢
          cases indexed with
          | nil => simp at hindexed
          | cons value values =>
              dsimp only
              split
              · exact ⟨_, rfl⟩
              · obtain ⟨rest, hrest⟩ := ih (Nat.succ.inj hindexed) hbody
                exact ⟨_, by rw [hrest]; rfl⟩
      | false =>
          simp only [hp, if_true, Bool.not_false, Bool.false_eq_true, if_false, Nat.add_zero]
            at hindexed hbody ⊢
          cases body with
          | nil => simp at hbody
          | cons value values =>
              dsimp only
              split
              · exact ⟨_, rfl⟩
              · obtain ⟨rest, hrest⟩ := ih hindexed (Nat.succ.inj hbody)
                exact ⟨_, by rw [hrest]; rfl⟩

theorem EventMatcher.decodeIfMatches_ok (matcher : EventMatcher δ ν) (log : RpcLog δ) :
    ∃ values, matcher.decodeIfMatches log = .ok values := by
  rw [decodeIfMatches]
  split
  · exact ⟨_, rfl⟩
  · rename_i indexed body hdecode
    obtain ⟨hindexed, hbody⟩ := matcher.decoded _ _ _ hdecode
    exact matchParameters_ok _ hindexed hbody

/-- The candidates are the positions of the matching logs, in canonical order. -/
theorem matchingLogs_spec (required : PreparedReceiptEvent δ ν) (position : ℕ)
    (logs : List (RpcLog δ)) :
    ∃ positions, matchingLogs required position logs = .ok positions ∧
      positions.Pairwise (· < ·) ∧
      ∀ i, i ∈ positions ↔ ∃ k log, i = position + k ∧ logs[k]? = some log ∧ required.Matches log := by
  induction logs generalizing position with
  | nil => exact ⟨[], rfl, .nil, by simp⟩
  | cons log logs ih =>
      obtain ⟨rest, hrest, hsorted, hmem⟩ := ih (position + 1)
      -- the logs after the first one, counted from the first one
      have htail : ∀ i, i ∈ rest ↔ ∃ k l, i = position + (k + 1) ∧
          (log :: logs)[k + 1]? = some l ∧ required.Matches l := by
        intro i
        rw [hmem]
        simp only [List.getElem?_cons_succ, Nat.add_assoc, Nat.add_comm 1]
      have hskip : ¬ required.Matches log → ∀ i, i ∈ rest ↔ ∃ k l, i = position + k ∧
          (log :: logs)[k]? = some l ∧ required.Matches l := by
        intro hno i
        rw [htail]
        constructor
        · rintro ⟨k, l, h⟩
          exact ⟨k + 1, l, h⟩
        · rintro ⟨_ | k, l, hi, hl, hmatch⟩
          · obtain rfl := Option.some.inj hl
            exact absurd hmatch hno
          · exact ⟨k, l, hi, hl, hmatch⟩
      rw [matchingLogs]
      split
      · rename_i hcond
        refine ⟨rest, hrest, hsorted, hskip ?_⟩
        rintro ⟨hremoved, haddress, -⟩
        rcases hcond with h | h
        · rw [hremoved] at h
          cases h
        · cases hexpected : required.address with
          | none =>
              rw [hexpected] at h
              cases h
          | some expected =>
              rw [hexpected] at h
              exact of_decide_eq_true h (haddress expected hexpected)
      rename_i hcond
      obtain ⟨hremoved, haddress⟩ := not_or.1 hcond
      obtain ⟨values, hvalues⟩ := required.matcher.decodeIfMatches_ok log
      rw [hvalues]
      cases values with
      | none =>
          refine ⟨rest, hrest, hsorted, hskip ?_⟩
          rintro ⟨-, -, values, h⟩
          rw [hvalues] at h
          cases h
      | some values =>
          have hmatch : required.Matches log := by
            refine ⟨by simpa using hremoved, fun expected hexpected => ?_, values, hvalues⟩
            by_contra hne
            exact haddress (by rw [hexpected]; simpa using hne)
          refine ⟨position :: rest, by rw [hrest]; rfl, List.pairwise_cons.2 ⟨fun i hi => ?_, hsorted⟩,
            fun i => ?_⟩
          · obtain ⟨k, l, rfl, -⟩ := (hmem i).1 hi
            omega
          · rw [List.mem_cons, htail]
            constructor
            · rintro (rfl | ⟨k, l, h⟩)
              · exact ⟨0, log, rfl, rfl, hmatch⟩
              · exact ⟨k + 1, l, h⟩
            · rintro ⟨_ | k, l, hi, hl, hmatch'⟩
              · exact Or.inl hi
              · exact Or.inr ⟨k, l, hi, hl, hmatch'⟩

/-! ## The assignment is exact -/

/-- Every expected event has a matching log of its own. -/
structure CompleteAssignment (events : List (PreparedReceiptEvent δ ν)) (logs : List (RpcLog δ))
    (assignment : List ℕ) : Prop where
  matching : List.Forall₂ (fun required position =>
    ∃ log, logs[position]? = some log ∧ required.Matches log) events assignment
  nodup : assignment.Nodup

/-- The candidates of the events: for each the positions of its matching logs. -/
theorem candidates_spec (events : List (PreparedReceiptEvent δ ν)) (logs : List (RpcLog δ)) :
    ∃ candidates : List (List ℕ), events.mapM (matchingLogs · 0 logs) = .ok candidates ∧
      List.Forall₂ (fun required positions => positions.Pairwise (· < ·) ∧
        ∀ i, i ∈ positions ↔ ∃ log, logs[i]? = some log ∧ required.Matches log) events candidates := by
  have hall : ∀ required : PreparedReceiptEvent δ ν, ∃ positions,
      matchingLogs required 0 logs = .ok positions ∧ positions.Pairwise (· < ·) ∧
        ∀ i, i ∈ positions ↔ ∃ log, logs[i]? = some log ∧ required.Matches log := by
    intro required
    obtain ⟨positions, hok, hsorted, hmem⟩ := matchingLogs_spec required 0 logs
    refine ⟨positions, hok, hsorted, fun i => (hmem i).trans ?_⟩
    simp
  choose positions hok hspec using hall
  refine ⟨events.map positions, ?_, ?_⟩
  · have hfun : (matchingLogs · 0 logs) = fun required => pure (positions required) := funext hok
    rw [hfun, List.mapM_pure]
    rfl
  · rw [List.forall₂_map_right_iff]
    exact List.forall₂_same.2 fun required _ => hspec required

/-- An assignment of the indices of the events is an assignment of the events. -/
theorem assignment_range_iff {events : List (PreparedReceiptEvent δ ν)} {logs : List (RpcLog δ)}
    {candidates : List (List ℕ)}
    (hcand : List.Forall₂ (fun required positions => positions.Pairwise (· < ·) ∧
      ∀ i, i ∈ positions ↔ ∃ log, logs[i]? = some log ∧ required.Matches log) events candidates)
    (assignment : List ℕ) :
    Matching.Assignment (fun i => candidates.getD i []) ∅ (List.range events.length) assignment ↔
      CompleteAssignment events logs assignment := by
  have hmem : ∀ i (hi : i < events.length), ∀ position,
      Matching.Open (fun i => candidates.getD i []) ∅ i position ↔
        ∃ log, logs[position]? = some log ∧ events[i].Matches log := by
    intro i hi position
    have hi' : i < candidates.length := hcand.length_eq ▸ hi
    have hspec := (List.forall₂_iff_get.1 hcand).2 i hi hi'
    simpa [Matching.Open, List.getD_eq_getElem?_getD, hi'] using hspec.2 position
  have hall : List.Forall₂ (Matching.Open (fun i => candidates.getD i []) ∅) (List.range events.length)
      assignment ↔ List.Forall₂ (fun required position =>
        ∃ log, logs[position]? = some log ∧ required.Matches log) events assignment := by
    rw [List.forall₂_iff_get, List.forall₂_iff_get]
    constructor
    · rintro ⟨hlength, h⟩
      refine ⟨by simpa using hlength, fun i hi hi' => ?_⟩
      have hopen := h i (by simpa using hi) hi'
      rw [List.get_eq_getElem, List.getElem_range] at hopen
      exact (hmem i hi _).1 hopen
    · rintro ⟨hlength, h⟩
      refine ⟨by simpa using hlength, fun i hi hi' => ?_⟩
      have hlt : i < events.length := by simpa using hi
      rw [List.get_eq_getElem, List.getElem_range]
      exact (hmem i hlt _).2 (h i hlt hi')
  exact ⟨fun h => ⟨hall.1 h.isOpen, h.nodup⟩, fun h => ⟨hall.2 h.matching, h.nodup⟩⟩

/-- **The assignment is exact.** It fails if and only if the expected events cannot all be given
    different matching logs; otherwise it returns the lexicographically least way to do so. -/
theorem completeReceiptEventAssignment_exact (events : List (PreparedReceiptEvent δ ν))
    (logs : List (RpcLog δ)) :
    ((∃ e, completeReceiptEventAssignment events logs = .error e) ↔
      ¬ ∃ assignment, CompleteAssignment events logs assignment) ∧
    ∀ assignment, completeReceiptEventAssignment events logs = .ok assignment →
      CompleteAssignment events logs assignment ∧
        ∀ other, CompleteAssignment events logs other →
          assignment = other ∨ List.Lex (· < ·) assignment other := by
  obtain ⟨candidates, hcandidates, hspec⟩ := candidates_spec events logs
  have hpositions : ∀ i, (candidates.getD i []).Pairwise (· < ·) ∧
      ∀ position ∈ candidates.getD i [], position ∈ Finset.range logs.length := by
    intro i
    cases hi : candidates[i]? with
    | none => simp [List.getD_eq_getElem?_getD, hi]
    | some positions =>
        obtain ⟨hlt, rfl⟩ := List.getElem?_eq_some_iff.1 hi
        obtain ⟨hsorted, hmem⟩ := (List.forall₂_iff_get.1 hspec).2 i (hspec.length_eq ▸ hlt) hlt
        rw [List.getD_eq_getElem?_getD, hi]
        refine ⟨hsorted, fun position hposition => Finset.mem_range.2 ?_⟩
        obtain ⟨log, hlog, -⟩ := (hmem position).1 hposition
        exact (List.getElem?_eq_some_iff.1 hlog).1
  have hcovers : ∀ unavailable remaining, remaining.Nodup →
      (remainingEventsHaveCompleteAssignment candidates logs.length unavailable remaining = true ↔
        ∃ assignment, Matching.Assignment (fun i => candidates.getD i []) unavailable remaining
          assignment) := fun unavailable remaining hnodup =>
    Matching.coverAll_none_iff (fun i => (hpositions i).2) (by simp) hnodup
  obtain ⟨hok, hexists⟩ := Matching.leastAssignment_spec (fun i => (hpositions i).1) hcovers
    (List.nodup_range (n := events.length)) ∅
  simp only [assignment_range_iff hspec] at hok hexists
  rw [completeReceiptEventAssignment, hcandidates]
  dsimp only
  cases hleast : Matching.leastAssignment (fun i => candidates.getD i [])
      (remainingEventsHaveCompleteAssignment candidates logs.length) (List.range events.length) ∅ with
  | ok assignment =>
      refine ⟨iff_of_false (by simp) fun hno => hno ⟨assignment, (hok assignment hleast).1⟩,
        fun other h => ?_⟩
      obtain rfl := Except.ok.inj h
      exact hok assignment hleast
  | error eventIndex =>
      refine ⟨iff_of_true ⟨_, rfl⟩ fun hex => ?_, fun _ h => by cases h⟩
      obtain ⟨assignment, h⟩ := hexists hex
      rw [hleast] at h
      cases h

/-- An event `Moved(uint256 amount)`, whose amount may have to be a given one. -/
def movedEvent (id : String) (expected : List (String × ℕ)) : PreparedReceiptEvent ℕ ℕ where
  id := id
  address := none
  matcher :=
    { parameters := [⟨"amount", false⟩]
      expected := expected
      decodeLog := fun amount => some ([], [amount])
      decoded := by
        rintro data _ _ h
        obtain ⟨rfl, rfl⟩ := Prod.mk.inj (Option.some.inj h)
        exact ⟨rfl, rfl⟩ }

/-- The first event takes the first log unless only that one is left for another event. -/
example : completeReceiptEventAssignment [movedEvent "any" [], movedEvent "specific" [("amount", 7)]]
    [⟨0, false, 7⟩, ⟨0, false, 8⟩] = .ok [1, 0] := by decide

end TxGen
