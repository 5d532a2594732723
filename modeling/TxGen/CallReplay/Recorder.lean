import TxGen.CallReplay.Classification

set_option autoImplicit false
set_option linter.unusedSectionVars false

/-! # Recording a replay

`ReplayRecorder` of `bench-core`'s `call.rs`. Each record of the corpus has a reference response that
later responses to it are compared with. `slot`s are positions in the corpus. -/

namespace TxGen.CallReplay

/-! ## The recorder -/

inductive RequestStatus
  | ok
  | rpcError
  | httpError
  | transportError
  | timeout
deriving DecidableEq

/-- One replayed request's outcome. -/
structure RequestOutcome (K : Type) where
  latencyUs : ℕ
  status : RequestStatus
  /-- The response digest, when the node answered. -/
  response : Option (ResponseSummary K)

structure RecordKey where
  recordIndex : ℕ
  key : String

structure OpenLoopRow where
  offsetMs : ℕ
  recordIndex : ℕ
  method : String
  latencyUs : ℕ
  status : RequestStatus

structure ClosedLoopRow where
  recordIndex : ℕ
  method : String
  pass : ℕ
  latencyUs : ℕ
  status : RequestStatus

structure ResponseRow (K : Type) where
  recordIndex : ℕ
  method : String
  kind : ResponseKind
  digest : K
  len : ℕ

structure Nondeterministic where
  recordIndex : ℕ
  method : String

variable {K : Type} [DecidableEq K] {records : List RecordKey}

/-- The state behind the recorder's lock. A reference is the summary it was taken from. -/
structure RecorderState (K : Type) (records : List RecordKey) where
  openLoop : List OpenLoopRow := []
  closedLoop : List ClosedLoopRow := []
  references : Fin records.length → Option (ResponseSummary K) := fun _ => none
  dropped : String → ℕ := fun _ => 0
  nondeterministic : List Nondeterministic := []
  nondeterministicTotal : ℕ := 0

namespace RecorderState

/-- Compare a response against the record's reference digest. `authoritative` marks the first
    closed-loop pass, whose digest is the one written to the responses file. -/
def observe (maxNondeterministic : ℕ) (state : RecorderState K records) (slot : Fin records.length)
    (outcome : RequestOutcome K) (authoritative : Bool) : RecorderState K records :=
  match outcome.response with
  | none => state
  | some reference =>
    let replaced := fun state : RecorderState K records =>
      { state with references := Function.update state.references slot (some reference) }
    match state.references slot with
    | none => replaced state
    | some existing =>
      if existing.digest = reference.digest then state
      else
        let state := { state with
          nondeterministicTotal := state.nondeterministicTotal + 1
          nondeterministic := if state.nondeterministic.length < maxNondeterministic then
            state.nondeterministic ++ [⟨records[slot].recordIndex, records[slot].key⟩]
            else state.nondeterministic }
        if authoritative then replaced state else state

def recordOpenLoop (maxNondeterministic : ℕ) (state : RecorderState K records)
    (slot : Fin records.length) (offsetMs : ℕ) (outcome : RequestOutcome K) :
    RecorderState K records :=
  let key := records[slot]
  let state : RecorderState K records := { state with
    openLoop := state.openLoop ++
      [⟨offsetMs, key.recordIndex, key.key, outcome.latencyUs, outcome.status⟩] }
  state.observe maxNondeterministic slot outcome false

def recordClosedLoop (maxNondeterministic : ℕ) (state : RecorderState K records)
    (slot : Fin records.length) (pass : ℕ) (outcome : RequestOutcome K) : RecorderState K records :=
  let key := records[slot]
  let state : RecorderState K records := { state with
    closedLoop := state.closedLoop ++
      [⟨key.recordIndex, key.key, pass, outcome.latencyUs, outcome.status⟩] }
  state.observe maxNondeterministic slot outcome (pass = 0)

/-- An open-loop request that was never issued -/
def recordDropped (state : RecorderState K records) (slot : Fin records.length) :
    RecorderState K records :=
  let key := records[slot].key
  { state with dropped := Function.update state.dropped key (state.dropped key + 1) }

end RecorderState

/-- Rows and counters collected by a recorder. -/
structure ReplayResults (K : Type) where
  openLoop : List OpenLoopRow
  closedLoop : List ClosedLoopRow
  responses : List (ResponseRow K)
  dropped : String → ℕ
  nondeterministic : List Nondeterministic
  nondeterministicTotal : ℕ

/-- The row of a record, when it has a reference. -/
def responseRow (state : RecorderState K records) (slot : Fin records.length) :
    Option (ResponseRow K) :=
  (state.references slot).map fun reference =>
    ⟨records[slot].recordIndex, records[slot].key, reference.kind, reference.digest, reference.len⟩

/-- Take the collected rows and counters. -/
def RecorderState.finish (state : RecorderState K records) : ReplayResults K where
  openLoop := state.openLoop.mergeSort fun a b =>
    a.offsetMs < b.offsetMs || (a.offsetMs = b.offsetMs && a.recordIndex ≤ b.recordIndex)
  closedLoop := state.closedLoop.mergeSort fun a b =>
    a.recordIndex < b.recordIndex || (a.recordIndex = b.recordIndex && a.pass ≤ b.pass)
  responses := (List.finRange records.length).filterMap (responseRow state)
  dropped := state.dropped
  nondeterministic := state.nondeterministic
  nondeterministicTotal := state.nondeterministicTotal

/-! ## Runs -/

/-- What is recorded -/
inductive Recorded (K : Type) (records : List RecordKey)
  | openLoop (slot : Fin records.length) (offsetMs : ℕ) (outcome : RequestOutcome K)
  | closedLoop (slot : Fin records.length) (pass : ℕ) (outcome : RequestOutcome K)
  | dropped (slot : Fin records.length)

namespace Recorded

def slot : Recorded K records → Fin records.length
  | openLoop slot _ _ => slot
  | closedLoop slot _ _ => slot
  | dropped slot => slot

/-- The response that is recorded -/
def response : Recorded K records → Option (ResponseSummary K)
  | openLoop _ _ outcome => outcome.response
  | closedLoop _ _ outcome => outcome.response
  | dropped _ => none

/-- The first closed-loop pass -/
def isFirstPass : Recorded K records → Bool
  | closedLoop _ pass _ => pass = 0
  | _ => false

end Recorded

variable (maxNondeterministic : ℕ)

def record (state : RecorderState K records) : Recorded K records → RecorderState K records
  | .openLoop slot offsetMs outcome => state.recordOpenLoop maxNondeterministic slot offsetMs outcome
  | .closedLoop slot pass outcome => state.recordClosedLoop maxNondeterministic slot pass outcome
  | .dropped slot => state.recordDropped slot

/-- The recorder after a run -/
def recorded (run : List (Recorded K records)) : RecorderState K records :=
  run.foldl (record maxNondeterministic) {}

/-- By how much recording what belongs to the slot raises `nondeterministic_total` from a state on -/
def contributionFrom (slot : Fin records.length) :
    RecorderState K records → List (Recorded K records) → ℕ
  | _, [] => 0
  | state, r :: rest =>
    (if r.slot = slot then
      (record maxNondeterministic state r).nondeterministicTotal - state.nondeterministicTotal else 0) +
      contributionFrom slot (record maxNondeterministic state r) rest

/-- What the record at the slot contributes to `nondeterministic_total` -/
def contribution (run : List (Recorded K records)) (slot : Fin records.length) : ℕ :=
  contributionFrom maxNondeterministic slot {} run

/-- The answered response that `r` adds to the record at the slot, with whether it is of the first
    closed-loop pass -/
def answer? (slot : Fin records.length) (r : Recorded K records) : Option (Bool × ResponseSummary K) :=
  if r.slot = slot then r.response.map fun response => (r.isFirstPass, response) else none

/-- The answered responses of a record -/
def answers (slot : Fin records.length) (run : List (Recorded K records)) :
    List (Bool × ResponseSummary K) :=
  run.filterMap (answer? slot)

/-- The reference of a record: the response of the first closed-loop pass, for which an earlier
    response with the same digest may stand, or the first response if that pass was not answered. -/
def referenceOf (answers : List (Bool × ResponseSummary K)) : Option (ResponseSummary K) :=
  match answers.find? (·.1) with
  | none => answers.head?.map Prod.snd
  | some (_, first) => answers.head?.map fun earliest =>
      if earliest.2.digest = first.digest then earliest.2 else first

/-! ## One record -/

/-- The reference of a record after one more answer -/
def nextReference : Option (ResponseSummary K) → Bool × ResponseSummary K → Option (ResponseSummary K)
  | none, (_, response) => some response
  | some existing, (authoritative, response) =>
    if existing.digest ≠ response.digest ∧ authoritative then some response else some existing

/-- The answers that disagree with the reference they meet -/
def disagreements : Option (ResponseSummary K) → List (Bool × ResponseSummary K) → ℕ
  | _, [] => 0
  | reference, answer :: rest =>
    (if reference.all (·.digest = answer.2.digest) then 0 else 1) +
      disagreements (nextReference reference answer) rest

namespace RecorderState

theorem references_observe (state : RecorderState K records) (slot slot' : Fin records.length)
    (outcome : RequestOutcome K) (authoritative : Bool) :
    (state.observe maxNondeterministic slot outcome authoritative).references slot' =
      if slot = slot' then
        (outcome.response.elim (state.references slot') fun response =>
          nextReference (state.references slot') (authoritative, response))
      else state.references slot' := by
  unfold observe
  cases outcome.response with
  | none => simp
  | some response =>
      by_cases hslot : slot = slot'
      · subst hslot
        cases hreference : state.references slot with
        | none => simp [nextReference]
        | some existing =>
            by_cases hdigest : existing.digest = response.digest
            · simp [nextReference, hreference, hdigest]
            · cases authoritative <;> simp [nextReference, hreference, hdigest]
      · cases hreference : state.references slot with
        | none => simp [hslot, Ne.symm hslot]
        | some existing =>
            by_cases hdigest : existing.digest = response.digest
            · simp [hslot, hdigest]
            · cases authoritative <;> simp [hslot, Ne.symm hslot, hdigest]

theorem total_observe (state : RecorderState K records) (slot : Fin records.length)
    (outcome : RequestOutcome K) (authoritative : Bool) :
    (state.observe maxNondeterministic slot outcome authoritative).nondeterministicTotal =
      state.nondeterministicTotal + (outcome.response.elim 0 fun response =>
        if (state.references slot).all (·.digest = response.digest) then 0 else 1) := by
  unfold observe
  cases outcome.response with
  | none => simp
  | some response =>
      cases hreference : state.references slot with
      | none => simp
      | some existing =>
          by_cases hdigest : existing.digest = response.digest
          · simp [hdigest]
          · cases authoritative <;> simp [hdigest]

end RecorderState

/-- One step of the recorder, as the record at `slot` sees it -/
theorem references_record (state : RecorderState K records) (r : Recorded K records)
    (slot : Fin records.length) :
    (record maxNondeterministic state r).references slot =
      (answer? slot r).elim (state.references slot) (nextReference (state.references slot)) := by
  cases r with
  | dropped slot' =>
      simp [record, RecorderState.recordDropped, answer?, Recorded.response]
  | openLoop slot' offsetMs outcome =>
      simp only [record, RecorderState.recordOpenLoop, RecorderState.references_observe, answer?,
        Recorded.slot, Recorded.response, Recorded.isFirstPass]
      by_cases hslot : slot' = slot
      · cases outcome.response <;> simp [hslot]
      · simp [hslot]
  | closedLoop slot' pass outcome =>
      simp only [record, RecorderState.recordClosedLoop, RecorderState.references_observe, answer?,
        Recorded.slot, Recorded.response, Recorded.isFirstPass]
      by_cases hslot : slot' = slot
      · cases outcome.response <;> simp [hslot]
      · simp [hslot]

/-- Only the record that a step is about can raise the total. -/
theorem total_record (state : RecorderState K records) (r : Recorded K records) :
    (record maxNondeterministic state r).nondeterministicTotal = state.nondeterministicTotal +
      (answer? r.slot r).elim 0 fun answer =>
        if (state.references r.slot).all (·.digest = answer.2.digest) then 0 else 1 := by
  cases r with
  | dropped slot => simp [record, RecorderState.recordDropped, answer?, Recorded.response]
  | openLoop slot offsetMs outcome =>
      simp only [record, RecorderState.recordOpenLoop, RecorderState.total_observe, answer?,
        Recorded.slot, Recorded.response, if_true]
      cases outcome.response <;> rfl
  | closedLoop slot pass outcome =>
      simp only [record, RecorderState.recordClosedLoop, RecorderState.total_observe, answer?,
        Recorded.slot, Recorded.response, if_true]
      cases outcome.response <;> rfl

/-! ## A run as one record sees it -/

theorem answers_cons (slot : Fin records.length) (r : Recorded K records)
    (rest : List (Recorded K records)) :
    answers slot (r :: rest) = (answer? slot r).toList ++ answers slot rest := by
  cases h : answer? slot r with
  | none =>
      rw [answers, List.filterMap_cons_none h]
      rfl
  | some answer =>
      rw [answers, List.filterMap_cons_some h]
      rfl

theorem foldl_references (run : List (Recorded K records)) (state : RecorderState K records)
    (slot : Fin records.length) :
    (run.foldl (record maxNondeterministic) state).references slot =
      (answers slot run).foldl nextReference (state.references slot) := by
  induction run generalizing state with
  | nil => rfl
  | cons r rest ih =>
      rw [List.foldl_cons, ih, references_record, answers_cons, List.foldl_append]
      cases answer? slot r <;> rfl

theorem contributionFrom_eq (run : List (Recorded K records)) (state : RecorderState K records)
    (slot : Fin records.length) :
    contributionFrom maxNondeterministic slot state run =
      disagreements (state.references slot) (answers slot run) := by
  induction run generalizing state with
  | nil => rfl
  | cons r rest ih =>
      rw [contributionFrom, ih, references_record, total_record, Nat.add_sub_cancel_left, answers_cons]
      by_cases hslot : r.slot = slot
      · subst hslot
        cases answer? r.slot r <;> simp [disagreements]
      · simp [answer?, hslot]

/-- The total counts what every record contributes. -/
theorem total_foldl (run : List (Recorded K records)) (state : RecorderState K records) :
    (run.foldl (record maxNondeterministic) state).nondeterministicTotal =
      state.nondeterministicTotal +
        ∑ slot, contributionFrom maxNondeterministic slot state run := by
  induction run generalizing state with
  | nil => simp [contributionFrom]
  | cons r rest ih =>
      have hgrows : state.nondeterministicTotal ≤
          (record maxNondeterministic state r).nondeterministicTotal := by
        rw [total_record]
        exact Nat.le_add_right _ _
      simp only [List.foldl_cons, ih, contributionFrom, Finset.sum_add_distrib, Finset.sum_ite_eq,
        Finset.mem_univ, if_true]
      omega

/-! ## Disagreements -/

/-- As long as nothing disagrees the reference keeps its digest, so every answer has that digest. -/
theorem disagreements_eq_zero (answers : List (Bool × ResponseSummary K))
    (existing : ResponseSummary K) :
    disagreements (some existing) answers = 0 ↔
      ∀ answer ∈ answers, answer.2.digest = existing.digest := by
  induction answers with
  | nil => simp [disagreements]
  | cons answer rest ih =>
      by_cases hdigest : existing.digest = answer.2.digest
      · simp [disagreements, nextReference, hdigest, ih]
      · simp [disagreements, hdigest, Ne.symm hdigest]

theorem disagreements_none_eq_zero (answers : List (Bool × ResponseSummary K)) :
    disagreements none answers = 0 ↔
      ∀ a ∈ answers, ∀ b ∈ answers, a.2.digest = b.2.digest := by
  cases answers with
  | nil => simp [disagreements]
  | cons answer rest =>
      simp only [disagreements, Option.all_none, if_true, Nat.zero_add, nextReference,
        disagreements_eq_zero]
      constructor
      · intro h
        have hall : ∀ a ∈ answer :: rest, a.2.digest = answer.2.digest := by
          simpa using h
        intro a ha b hb
        rw [hall a ha, hall b hb]
      · intro h a ha
        exact h a (List.mem_cons_of_mem _ ha) answer List.mem_cons_self

/-- Without a further first pass the reference stays. -/
theorem foldl_nextReference_of_not_first {answers : List (Bool × ResponseSummary K)}
    (h : ∀ answer ∈ answers, answer.1 = false) (existing : ResponseSummary K) :
    answers.foldl nextReference (some existing) = some existing := by
  induction answers with
  | nil => rfl
  | cons answer rest ih =>
      have hfirst := h answer List.mem_cons_self
      rw [List.foldl_cons]
      simp only [nextReference, hfirst, Bool.false_eq_true, and_false, if_false]
      exact ih fun answer' hmem => h answer' (List.mem_cons_of_mem _ hmem)

/-- Later answers replace the reference by the one of the first pass, unless the digest is the same. -/
theorem foldl_nextReference {answers : List (Bool × ResponseSummary K)}
    (h : answers.countP (·.1) ≤ 1) (existing : ResponseSummary K) :
    answers.foldl nextReference (some existing) =
      match answers.find? (·.1) with
      | none => some existing
      | some (_, first) => some (if existing.digest = first.digest then existing else first) := by
  induction answers with
  | nil => rfl
  | cons answer rest ih =>
      obtain ⟨isFirst, response⟩ := answer
      cases isFirst with
      | false => simpa [nextReference] using ih (by simpa using h)
      | true =>
          have hrest : ∀ answer ∈ rest, answer.1 = false := by
            simpa [List.countP_eq_zero] using h
          rw [List.foldl_cons, nextReference]
          by_cases hdigest : existing.digest = response.digest
          · simp [hdigest, foldl_nextReference_of_not_first hrest]
          · simp [hdigest, foldl_nextReference_of_not_first hrest]

theorem foldl_nextReference_none {answers : List (Bool × ResponseSummary K)}
    (h : answers.countP (·.1) ≤ 1) : answers.foldl nextReference none = referenceOf answers := by
  cases answers with
  | nil => rfl
  | cons answer rest =>
      obtain ⟨isFirst, response⟩ := answer
      rw [List.foldl_cons, nextReference]
      cases isFirst with
      | false =>
          rw [foldl_nextReference (by simpa using h)]
          cases hfind : rest.find? (·.1) <;> simp [referenceOf, hfind]
      | true =>
          have hrest : ∀ answer ∈ rest, answer.1 = false := by
            simpa [List.countP_eq_zero] using h
          simp [referenceOf, foldl_nextReference_of_not_first hrest]

/-- A record is answered in the first pass as often as that pass is recorded, at most. -/
theorem countP_answers_le (run : List (Recorded K records)) (slot : Fin records.length) :
    (answers slot run).countP (·.1) ≤ run.countP fun r => r.isFirstPass && (r.slot = slot) := by
  induction run with
  | nil => simp [answers]
  | cons r rest ih =>
      rw [answers_cons, List.countP_append, List.countP_cons]
      by_cases hslot : r.slot = slot
      · cases hresponse : r.response with
        | none =>
            simp only [answer?, hslot, hresponse, Option.map_none, if_true, Option.toList_none,
              List.countP_nil]
            omega
        | some response =>
            simp only [answer?, hslot, hresponse, Option.map_some, if_true, Option.toList_some,
              List.countP_singleton, decide_true, Bool.and_true]
            omega
      · simp only [answer?, hslot, if_false, Option.toList_none, List.countP_nil]
        omega

/-- A record contributes to `nondeterministic_total` exactly if two of its answers differ in digest. The
    reference written for it is the one of the first closed-loop pass or, if that was not answered,
    the first answer, and none is written if the record was never answered. -/
theorem disagreements_detected (run : List (Recorded K records))
    (hfirst : ∀ slot, (run.countP fun r => r.isFirstPass && (r.slot = slot)) ≤ 1) :
    (recorded maxNondeterministic run).nondeterministicTotal =
        ∑ slot, contribution maxNondeterministic run slot ∧
      (∀ slot, contribution maxNondeterministic run slot ≠ 0 ↔
        ∃ a ∈ answers slot run, ∃ b ∈ answers slot run, a.2.digest ≠ b.2.digest) ∧
      (recorded maxNondeterministic run).finish.responses =
        (List.finRange records.length).filterMap (fun slot =>
          (referenceOf (answers slot run)).map fun reference =>
            ⟨records[slot].recordIndex, records[slot].key, reference.kind, reference.digest,
              reference.len⟩) ∧
      ∀ slot, referenceOf (answers slot run) = none ↔ answers slot run = [] := by
  refine ⟨?_, fun slot => ?_, ?_, fun slot => ?_⟩
  · rw [recorded, total_foldl]
    simp [contribution]
  · rw [contribution, contributionFrom_eq, Ne, disagreements_none_eq_zero]
    push Not
    rfl
  · have hreference (slot) :
        (recorded maxNondeterministic run).references slot = referenceOf (answers slot run) := by
      rw [recorded, foldl_references]
      exact foldl_nextReference_none ((countP_answers_le run slot).trans (hfirst slot))
    simp only [RecorderState.finish]
    refine List.filterMap_congr fun slot _ => ?_
    rw [responseRow, hreference]
  · cases answers slot run with
    | nil => simp [referenceOf]
    | cons answer rest =>
        unfold referenceOf
        cases List.find? (·.1) (answer :: rest) <;> simp

/-! ## One digest space -/

namespace ReplaySample

open JsonText

/-- `{"result":null}` -/
def resultNull : ObjectText :=
  ⟨[], [], [.mk [] (ResponseSample.plain "result") [] [] .null []], []⟩

/-- `{"error":null}` -/
def errorNull : ObjectText :=
  ⟨[], [], [.mk [] (ResponseSample.plain "error") [] [] .null []], []⟩

def corpus : List RecordKey := [⟨0, "eth_call"⟩, ⟨1, "eth_call"⟩]

/-- The first record, answered in the open loop and in the first closed-loop pass -/
def answeredTwice (inOpenLoop inFirstPass : ResponseSummary (List UInt8)) :
    List (Recorded (List UInt8) corpus) :=
  [.openLoop ⟨0, by decide⟩ 5 ⟨1, .rpcError, some inOpenLoop⟩,
    .closedLoop ⟨0, by decide⟩ 0 ⟨1, .ok, some inFirstPass⟩]

theorem disagreements_detected_answeredTwice :
    (∀ slot, ((answeredTwice ⟨.ok, [1], 1⟩ ⟨.ok, [2], 1⟩).countP fun r =>
        r.isFirstPass && (r.slot = slot)) ≤ 1) ∧
      (recorded 10 (answeredTwice ⟨.ok, [1], 1⟩ ⟨.ok, [2], 1⟩)).finish.responses =
        [⟨0, "eth_call", .ok, [2], 1⟩] :=
  ⟨by decide, by
    rw [(disagreements_detected 10 (answeredTwice ⟨.ok, [1], 1⟩ ⟨.ok, [2], 1⟩) (by decide)).2.2.1]
    rfl⟩

theorem digestResponse_resultNull :
    digestResponse id (fun _ => none) [resultNull.text] = .ok ⟨.ok, Value.null.text, 4⟩ := by
  rw [digestResponse_object]
  have herror : lastValue (Reads "error") resultNull.entries = none := by decide
  have hresult : lastValue (Reads "result") resultNull.entries = some Value.null.text := by decide
  rw [herror, hresult]
  rfl

theorem digestResponse_errorNull :
    digestResponse id (fun _ => none) [errorNull.text] = .ok ⟨.rpcError, Value.null.text, 4⟩ := by
  rw [digestResponse_object]
  have herror : lastValue (Reads "error") errorNull.entries = some Value.null.text := by decide
  rw [herror]
  rfl

/-- A result and an error with the same digest are not told apart, and the reference that is written is
    not the one of the first closed-loop pass. -/
theorem kinds_not_compared : ∃ inOpenLoop inFirstPass,
    digestResponse id (fun _ => none) [errorNull.text] = .ok inOpenLoop ∧
      digestResponse id (fun _ => none) [resultNull.text] = .ok inFirstPass ∧
      inOpenLoop.kind ≠ inFirstPass.kind ∧
      contribution 10 (answeredTwice inOpenLoop inFirstPass) ⟨0, by decide⟩ = 0 ∧
      (recorded 10 (answeredTwice inOpenLoop inFirstPass)).finish.responses =
        [⟨0, "eth_call", inOpenLoop.kind, inOpenLoop.digest, inOpenLoop.len⟩] :=
  ⟨_, _, digestResponse_errorNull, digestResponse_resultNull, by decide, by decide, by rfl⟩

end ReplaySample

end TxGen.CallReplay
