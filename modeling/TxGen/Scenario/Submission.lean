import TxGen.Core.Nonce
import TxGen.Scenario.Lanes

set_option autoImplicit false

/-! # Submissions of one chain

`execute_submit`, from the reservation of its nonces to the outcome of its RPC. Nonces are reserved and
given back under the prepare gate; from its lane check until the outcome is known a submission holds
the lanes of its keys. Each lock section and each reply is a step of its own, and which submission goes
next is up to the scheduler. -/

namespace TxGen

open NonceReservation

/-- What the adapter does with the tracker while it builds a request for a scenario step. Steps carry
    hints, so that unique values are only recorded. -/
inductive NonceOp
  | nextNonce (key : SchedulingKey)
  | reserveUniqueNonce (key : SchedulingKey) (value : ℕ)

def NonceOp.run (ctx : BuildContext) : NonceOp → BuildContext
  | .nextNonce key => (ctx.nextNonce key).2
  | .reserveUniqueNonce key value => ctx.reserveUniqueNonce key value

/-- A transaction whose nonces are reserved, with the keys it excludes others on: the ordered lanes and
    the scheduling keys. -/
structure MaterializedTx where
  nonceReservations : List NonceReservation
  keys : Finset SchedulingKey

def MaterializedTx.hasOrderedNonces (tx : MaterializedTx) : Bool := hasOrdered tx.nonceReservations

/-- Why nonces are given back before the submission is handed over. -/
inductive RollbackCause
  /-- One of its lanes was ambiguous before it was acquired. -/
  | ambiguousLane
  | signingFailed
  | unsafeSameInstance
  /-- The lanes are busy; try again when one is released. -/
  | busy
  /-- One of its lanes was ambiguous after it was acquired; the lanes are dropped. -/
  | disabledLane
deriving DecidableEq

/-- Where `execute_submit` is. -/
inductive SubmissionPhase
  /-- At the head of the loop of `prepare_submission`, in front of the gate. -/
  | queued
  | preparing
  | prepared (tx : MaterializedTx)
  /-- No ordered lane of it was ambiguous. -/
  | checked (tx : MaterializedTx)
  | rollingBack (tx : MaterializedTx) (cause : RollbackCause)
  /-- Waits for `notified`, its nonces given back. -/
  | parked
  /-- Has its lanes. -/
  | signing (tx : MaterializedTx)
  /-- Without ordered nonces, it signs while its lanes are busy. -/
  | signingAhead (tx : MaterializedTx)
  | waitingForLanes (tx : MaterializedTx)
  /-- In `finish_prepared_submission`. -/
  | signed (tx : MaterializedTx)
  /-- In front of the raw RPC. -/
  | ready (tx : MaterializedTx)
  | sent (tx : MaterializedTx)
  /-- It was not sent, and waits for the gate to restore its nonces. -/
  | unsent (tx : MaterializedTx)
  | restoring (tx : MaterializedTx)
  /-- About to `mark_ambiguous` its keys. -/
  | disabling (tx : MaterializedTx)
  /-- Accepted or failed; what it still holds is dropped. -/
  | ended

namespace SubmissionPhase

/-- The phases in which the gate has become useless to its holder. -/
def mayDropGate : SubmissionPhase → Bool
  | .parked | .signingAhead _ | .ready _ | .ended => true
  | .signing tx | .signed tx => !tx.hasOrderedNonces
  | _ => false

/-- Where a rollback leads, by whether every lane was restored. -/
def afterRollback (tx : MaterializedTx) : RollbackCause → Bool → SubmissionPhase
  | .busy, true => .parked
  | _, true => .ended
  | .disabledLane, false => .ended
  | _, false => .disabling tx

/-- A failure after which the nonces of the transaction are lost. -/
def afterLoss (tx : MaterializedTx) : SubmissionPhase :=
  if tx.hasOrderedNonces then .disabling tx else .ended

end SubmissionPhase

structure Submission where
  owner : SubmissionLaneOwner
  orderedPredecessors : Finset String
  /-- The keys of its guard; none when it has no guard. -/
  guard : Finset SchedulingKey := ∅
  phase : SubmissionPhase := .queued

/-- The state of a chain, with three histories that no step reads: where each lane began, and the
    ordered reservations of the transactions that were dispatched and that were accepted. -/
structure ChainRun where
  nonces : NonceTracker := {}
  /-- The submission that holds `submit_prepare_gate`. -/
  gate : Option ℕ := none
  lanes : SubmissionLaneState := {}
  submissions : List Submission := []
  base : SchedulingKey → ℕ := fun _ => 0
  dispatched : List NonceReservation := []
  accepted : List NonceReservation := []

/-- What `transaction_exists` answers after an uncertain submission. -/
inductive Lookup
  | found
  | missing
  | failed
  | timedOut
deriving DecidableEq

/-- How the raw RPC ends. -/
inductive SubmitReply
  /-- With the hash of the signed payload, or with another one. -/
  | accepted (sameHash : Bool)
  /-- Rejected by the node, or of unknown acceptance; the hash is then looked up. -/
  | failed (lookup : Lookup)
deriving DecidableEq

namespace ChainRun

inductive Label
  | executeSubmit (owner : SubmissionLaneOwner) (orderedPredecessors : Finset String)
  | lockGate (i : ℕ)
  | dropGate (i : ℕ)
  /-- The deadline passes while it waits. -/
  | timeout (i : ℕ)
  /-- `prepare_request` fetches the nonce of a lane. -/
  | fetchLaneNonce (i : ℕ) (key : SchedulingKey) (nonce : ℕ)
  /-- The preparation fails before a nonce is reserved. -/
  | prepareFailed (i : ℕ)
  /-- `build_request`; without scheduling keys when it fails in the end. -/
  | buildRequest (i : ℕ) (ops : List NonceOp) (schedulingKeys : Option (Finset SchedulingKey))
  | checkLanes (i : ℕ)
  | tryAcquire (i : ℕ)
  | sign (i : ℕ) (ok : Bool)
  | rollback (i : ℕ)
  | wake (i : ℕ)
  | finishPrepared (i : ℕ)
  /-- The submitter fails before the raw RPC starts. -/
  | beforeSend (i : ℕ)
  | dispatch (i : ℕ)
  | reply (i : ℕ) (reply : SubmitReply)
  | markAmbiguous (i : ℕ)
  | dropGuard (i : ℕ)
  /-- The scope of an instance ends. -/
  | releaseInstance (inst : ℕ)

/-- Replace the `i`-th submission. -/
def put (s : ChainRun) (i : ℕ) (x : Submission) : ChainRun :=
  { s with submissions := s.submissions.set i x }

/-- The `i`-th submission, which is `x`, goes on to a phase. -/
def goto (s : ChainRun) (i : ℕ) (x : Submission) (phase : SubmissionPhase) : ChainRun :=
  s.put i { x with phase }

def lockGate (s : ChainRun) (i : ℕ) (x : Submission) : Option ChainRun :=
  if s.gate.isSome then none
  else
    match x.phase with
    | .queued => some { s.goto i x .preparing with gate := some i }
    | .unsent tx => some { s.goto i x (.restoring tx) with gate := some i }
    | _ => none

def timeout (s : ChainRun) (i : ℕ) (x : Submission) : Option ChainRun :=
  match x.phase with
  | .queued | .parked | .waitingForLanes _ => some (s.goto i x .ended)
  | .unsent tx => some (s.goto i x (.disabling tx))
  | _ => none

def fetchLaneNonce (s : ChainRun) (key : SchedulingKey) (nonce : ℕ) : ChainRun :=
  if s.nonces.contains key then s
  else { s with nonces := s.nonces.reset key nonce, base := Function.update s.base key nonce }

/-- The rest of `prepare_materialization`, and the keys that `prepare_submission` derives. -/
def buildRequest (s : ChainRun) (i : ℕ) (x : Submission) (ops : List NonceOp)
    (schedulingKeys : Option (Finset SchedulingKey)) : ChainRun :=
  let ctx := ops.foldl NonceOp.run { nonces := s.nonces }
  match schedulingKeys with
  | none => { s.goto i x .ended with nonces := ctx.rollbackNonceReservations.2.nonces }
  | some schedulingKeys =>
    let keys := (orderedKeys ctx.nonceReservations).toFinset ∪ schedulingKeys
    -- "materialized transaction has no scheduling key"
    if keys = ∅ then { s.goto i x .ended with nonces := ctx.nonces }
    else { s.goto i x (.prepared ⟨ctx.nonceReservations, keys⟩) with nonces := ctx.nonces }

def tryAcquire (s : ChainRun) (i : ℕ) (x : Submission) : Option ChainRun :=
  match x.phase with
  | .checked tx =>
    match s.lanes.tryAcquire tx.keys x.owner x.orderedPredecessors with
    | (.acquired, lanes) => some { s.put i { x with guard := tx.keys, phase := .signing tx } with lanes }
    | (.unsafeSameInstance, _) => some (s.goto i x (.rollingBack tx .unsafeSameInstance))
    | (.busy, _) =>
      if tx.hasOrderedNonces then some (s.goto i x (.rollingBack tx .busy))
      else some (s.goto i x (.signingAhead tx))
  | .waitingForLanes tx =>
    match s.lanes.tryAcquire tx.keys x.owner x.orderedPredecessors with
    | (.acquired, lanes) => some { s.put i { x with guard := tx.keys, phase := .signed tx } with lanes }
    | (.unsafeSameInstance, _) => some (s.goto i x .ended)
    | (.busy, _) => some s
  | _ => none

/-- Transactions with ordered nonces are signed under the gate, the others after it was dropped. -/
def sign (s : ChainRun) (i : ℕ) (x : Submission) (ok : Bool) : Option ChainRun :=
  match x.phase with
  | .signing tx =>
    if tx.hasOrderedNonces then
      some (s.goto i x (if ok then .signed tx else .rollingBack tx .signingFailed))
    else if s.gate = some i then none
    else some (s.goto i x (if ok then .signed tx else .ended))
  | .signingAhead tx =>
    if s.gate = some i then none
    else some (s.goto i x (if ok then .waitingForLanes tx else .ended))
  | _ => none

def rollback (s : ChainRun) (i : ℕ) (x : Submission) : Option ChainRun :=
  match x.phase with
  | .rollingBack tx cause =>
    let (restored, nonces) := s.nonces.rewindOrdered tx.nonceReservations
    some { s.goto i x (.afterRollback tx cause restored) with nonces }
  | .restoring tx =>
    let (restored, nonces) := s.nonces.rewindOrdered tx.nonceReservations
    some { s.goto i x (if restored then .ended else .disabling tx) with nonces }
  | _ => none

def finishPrepared (s : ChainRun) (i : ℕ) (x : Submission) : Option ChainRun :=
  match x.phase with
  | .signed tx =>
    if s.lanes.hasAmbiguousOrderedLane tx.hasOrderedNonces x.guard then
      some { s.put i { x with guard := ∅, phase := .rollingBack tx .disabledLane } with
        lanes := s.lanes.dropGuard ⟨x.guard, x.owner⟩ }
    else some (s.goto i x (.ready tx))
  | _ => none

def reply (s : ChainRun) (i : ℕ) (x : Submission) (reply : SubmitReply) : Option ChainRun :=
  match x.phase with
  | .sent tx =>
    match reply with
    | .accepted true | .failed .found =>
      some { s.goto i x .ended with accepted := s.accepted ++ tx.nonceReservations }
    | .accepted false | .failed _ => some (s.goto i x (.afterLoss tx))
  | _ => none

/-- A step of the `i`-th submission, which is `x`. -/
def advance (s : ChainRun) (x : Submission) : Label → Option ChainRun
  | .lockGate i => s.lockGate i x
  | .dropGate i => if s.gate = some i ∧ x.phase.mayDropGate then some { s with gate := none } else none
  | .timeout i => s.timeout i x
  | .fetchLaneNonce _ key nonce =>
    match x.phase with
    | .preparing => some (s.fetchLaneNonce key nonce)
    | _ => none
  | .prepareFailed i =>
    match x.phase with
    | .preparing => some (s.goto i x .ended)
    | _ => none
  | .buildRequest i ops schedulingKeys =>
    match x.phase with
    | .preparing => some (s.buildRequest i x ops schedulingKeys)
    | _ => none
  | .checkLanes i =>
    match x.phase with
    | .prepared tx =>
      if s.lanes.hasAmbiguousOrderedLane tx.hasOrderedNonces tx.keys then
        some (s.goto i x (.rollingBack tx .ambiguousLane))
      else some (s.goto i x (.checked tx))
    | _ => none
  | .tryAcquire i => s.tryAcquire i x
  | .sign i ok => s.sign i x ok
  | .rollback i => s.rollback i x
  | .wake i =>
    match x.phase with
    | .parked => if s.gate = some i then none else some (s.goto i x .queued)
    | _ => none
  | .finishPrepared i => s.finishPrepared i x
  | .beforeSend i =>
    match x.phase with
    | .ready tx =>
      if s.gate = some i then none
      else some (s.goto i x (if tx.hasOrderedNonces then .unsent tx else .ended))
    | _ => none
  | .dispatch i =>
    match x.phase with
    | .ready tx =>
      if s.gate = some i then none
      else some { s.goto i x (.sent tx) with dispatched := s.dispatched ++ tx.nonceReservations }
    | _ => none
  | .reply i reply => s.reply i x reply
  | .markAmbiguous i =>
    match x.phase with
    | .disabling tx => some { s.goto i x .ended with lanes := s.lanes.markAmbiguous tx.keys }
    | _ => none
  | .dropGuard i =>
    match x.phase with
    | .ended => some { s.put i { x with guard := ∅ } with
        lanes := s.lanes.dropGuard ⟨x.guard, x.owner⟩ }
    | _ => none
  | .executeSubmit .. | .releaseInstance _ => none

/-- The submission that a label is about. -/
def Label.submission : Label → Option ℕ
  | .executeSubmit .. | .releaseInstance _ => none
  | .lockGate i | .dropGate i | .timeout i | .fetchLaneNonce i .. | .prepareFailed i
  | .buildRequest i .. | .checkLanes i | .tryAcquire i | .sign i _ | .rollback i | .wake i
  | .finishPrepared i | .beforeSend i | .dispatch i | .reply i _ | .markAmbiguous i
  | .dropGuard i => some i

def step (s : ChainRun) (label : Label) : Option ChainRun :=
  match label with
  | .executeSubmit owner orderedPredecessors =>
    some { s with submissions := s.submissions ++ [{ owner, orderedPredecessors }] }
  | .releaseInstance inst => some { s with lanes := s.lanes.releaseInstance inst }
  | label =>
    label.submission.bind fun i => s.submissions[i]?.bind fun x => s.advance x label

end ChainRun

/-- One chain, with the nonces that the run starts from. -/
def chainSystem (initial : NonceTracker) : System ChainRun ChainRun.Label where
  init := { nonces := initial, base := initial.current }
  step := ChainRun.step

end TxGen
