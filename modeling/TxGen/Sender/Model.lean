import TxGen.Core.Setup
import TxGen.Lib.KeyedLocks
import TxGen.Lib.System

set_option autoImplicit false

/-! # The transaction sender

`Sender` queues transactions, dispatches those whose scheduling keys and setup dependencies allow it,
and learns from its workers over one completion channel when keys become free again. The model is a
labelled system over three kinds of step:

* the owner of the sender calls `send`, `sendSetup` or `flush`;
* the main task takes its next internal step (`Control` is its program counter: a step ends at every
  point where a worker can act in between: each `try_recv`, each `recv`, the permit test);
* a worker task takes a step of `submit_tx`, puts its next message on the channel, or dies.

Rate limiting, authentication, signing and the network are in the labels. -/

namespace TxGen

/-! ## Messages, transactions, workers -/

/-- Worker notifications for scheduling keys and setup prerequisites. -/
inductive Completion
  | release (keys : List SchedulingKey)
  | setupFinished (id : Option String) (success : Bool)
  | pendingFinished (result : Except String Unit)

/-- A transaction to be sent. -/
structure PendingTx where
  dependsOn : List String
  queueId : ℕ
  phase : TxPhase
  id : Option String
  lateSign : Option LateSignSpec
  sender : Option Address
  submissionKeys : List SchedulingKey
  inclusionKeys : List SchedulingKey
deriving DecidableEq, Repr

def PendingTx.schedulingKeys (p : PendingTx) : List SchedulingKey :=
  p.submissionKeys ++ p.inclusionKeys

/-- Where a worker stands in `submit_tx`; every stage but `done` ends at an await. -/
inductive Stage
  /-- waiting for the starting head of the receipt tracker -/
  | prepare
  /-- materializing the raw bytes -/
  | sign
  /-- registering the hash with the receipt tracker -/
  | register
  /-- the raw RPC is in flight -/
  | rpc
  /-- accepted, waiting for inclusion -/
  | observe
  /-- the response was lost; all keys are released, the pending slot is still watched -/
  | observeUncertain
  | done
deriving DecidableEq, Repr

/-- A worker task. `outbox` are the messages it has decided to send and not sent yet, in order;
    `lost` is bookkeeping: the keys a panic or cancellation took with it. -/
structure Worker where
  tx : PendingTx
  trackPending : Bool
  stage : Stage
  permit : Bool
  outbox : List Completion
  /-- `SetupCompletion::success` -/
  success : Bool
  lost : List SchedulingKey

/-- How waiting for inclusion ended; `included none` carries no receipt, `included (some status)`
    the status of the receipt. -/
inductive Inclusion
  | included (status : Option Bool)
  | expired
deriving DecidableEq, Repr

/-- How the raw RPC ended. `lost` is a failure after which the transaction may still have been
    accepted (`submission_may_have_been_accepted`). -/
inductive RpcResult
  | accepted
  | rejected
  | lost
deriving DecidableEq, Repr

/-- What the environment does to a worker. -/
inductive WorkerEvent
  | prepared (result : Except String Unit)
  | signed (ok : Bool)
  | registered (result : Except String Unit)
  | submitted (result : RpcResult)
  | observed (result : Except String Inclusion)
  /-- the task panics or is cancelled -/
  | crash

/-- `release_keys` sends nothing for an empty list. -/
def releaseMessage (keys : List SchedulingKey) : List Completion :=
  if keys.isEmpty then [] else [.release keys]

namespace Worker

/-- Inclusion is not observed for a workload transaction without inclusion keys and pending cap. -/
def observes (w : Worker) : Bool :=
  !(w.tx.inclusionKeys.isEmpty && w.tx.phase != .setup && !w.trackPending)

/-- The task `dispatch` spawns, at its first await. -/
def spawn (tx : PendingTx) (trackPending : Bool) : Worker :=
  let w : Worker := { tx, trackPending, stage := .sign, permit := true, outbox := [],
                      success := false, lost := [] }
  if w.observes then { w with stage := .prepare } else w

/-- The messages of the completion guards: `SetupCompletion` is dropped when `submit_tx` returns,
    `PendingCompletion` reports after it. -/
def guards (w : Worker) (result : Except String Unit) : List Completion :=
  (if w.tx.phase = .setup then [.setupFinished w.tx.id w.success] else []) ++
    (if w.trackPending then [.pendingFinished result] else [])

/-- `submit_tx` returns `result` after releasing `keys`. -/
def exit (w : Worker) (keys : List SchedulingKey) (result : Except String Unit) : Worker :=
  { w with
    stage := .done
    permit := false
    outbox := releaseMessage keys ++ w.guards result }

/-- The keys the task still has to release at its stage. -/
def owned (w : Worker) : List SchedulingKey :=
  match w.stage with
  | .prepare | .sign | .register | .rpc => w.tx.schedulingKeys
  | .observe => w.tx.inclusionKeys
  | .observeUncertain | .done => []

/-- Keys of the release messages in a list of messages. -/
def messageKeys : List Completion → List SchedulingKey
  | [] => []
  | .release keys :: rest => keys ++ messageKeys rest
  | .setupFinished _ _ :: rest => messageKeys rest
  | .pendingFinished _ :: rest => messageKeys rest

/-- The task is over and has sent everything it will ever send. -/
def finished (w : Worker) : Bool := decide (w.stage = .done) && w.outbox.isEmpty

/-- The result reported by a `PendingCompletion` that is dropped without being finished. -/
def stopped : Except String Unit :=
  .error "submission worker stopped before resolving inclusion"

/-- One step of `submit_tx`. `lateSigner`: a late signer is registered. -/
def advance (lateSigner : Bool) (w : Worker) : WorkerEvent → Option Worker
  | .crash =>
    -- unwinding drops the permit and the guards; no `Release` is sent
    if w.stage = .done then none
    else some { w with
      stage := .done
      permit := false
      outbox := w.guards stopped
      lost := w.lost ++ messageKeys w.outbox ++ w.owned }
  | .prepared result =>
    if w.stage = .prepare ∧ w.outbox = [] then
      match result with
      | .ok () => some { w with stage := .sign }
      | .error e => some (w.exit w.tx.schedulingKeys (.error e))
    else none
  | .signed ok =>
    if w.stage = .sign ∧ w.outbox = [] then
      if w.tx.lateSign.isNone || (lateSigner && ok) then
        some { w with stage := if w.observes then .register else .rpc }
      -- no transaction can be pending: the slot is released normally
      else some (w.exit w.tx.schedulingKeys (.ok ()))
    else none
  | .registered result =>
    if w.stage = .register ∧ w.outbox = [] then
      match result with
      | .ok () => some { w with stage := .rpc }
      | .error e => some (w.exit w.tx.schedulingKeys (.error e))
    else none
  | .submitted result =>
    if w.stage = .rpc ∧ w.outbox = [] then
      match result with
      | .accepted =>
        if w.observes then
          some { w with stage := .observe, permit := false,
                        outbox := releaseMessage w.tx.submissionKeys }
        else some (w.exit w.tx.submissionKeys (.ok ()))
      | .lost =>
        if w.trackPending then
          some { w with stage := .observeUncertain, permit := false,
                        outbox := releaseMessage w.tx.schedulingKeys }
        else some (w.exit w.tx.schedulingKeys (.ok ()))
      | .rejected => some (w.exit w.tx.schedulingKeys (.ok ()))
    else none
  | .observed result =>
    if w.outbox = [] then
      match w.stage with
      | .observe =>
        match result with
        | .ok (.included (some true)) =>
          some ({ w with success := true }.exit w.tx.inclusionKeys (.ok ()))
        | .ok _ => some (w.exit w.tx.inclusionKeys (.ok ()))
        | .error e => some (w.exit w.tx.inclusionKeys (.error e))
      | .observeUncertain =>
        match result with
        | .ok _ => some (w.exit [] (.ok ()))
        | .error e => some (w.exit [] (.error e))
      | _ => none
    else none

end Worker

/-! ## Errors -/

/-- What is remembered of the first failed setup transaction. -/
inductive SetupFailure
  | finished (id : Option String)
  | authentication (id : Option String)
deriving DecidableEq, Repr

/-- `id.as_deref().unwrap_or("<unnamed>")` -/
def displayId (id : Option String) : String := id.getD "<unnamed>"

def SetupFailure.message : SetupFailure → String
  | .finished id => s!"setup transaction '{displayId id}' failed; cancelling queued setup"
  | .authentication id =>
    s!"setup transaction '{displayId id}' failed authentication; cancelling queued setup"

/-- Errors of `send` and `flush`. -/
inductive SendError
  | pendingTracking (error : String)
  | setupFailed (failure : SetupFailure)
  | authentication (id : Option String)
  | missingLateSigner (format : String)
  | noSchedulingKey
  | missingSetupId
  | duplicateSetup (id : String)
  | unknownDependency (id dependency : String)
  | dependsOnWorkload
deriving DecidableEq, Repr

def SendError.message : SendError → String
  | .pendingTracking error => s!"pending transaction tracking failed: {error}"
  | .setupFailed failure => failure.message
  | .authentication id => s!"failed to authenticate transaction {displayId id}"
  | .missingLateSigner format =>
    s!"transaction has `late_sign` envelope (format `{format}`) but sender has no late signer registered"
  | .noSchedulingKey => "transactions must have at least one submission or inclusion key"
  | .missingSetupId => "setup transaction requires a nonempty id"
  | .duplicateSetup id => s!"duplicate setup transaction id '{id}'"
  | .unknownDependency id dependency =>
    s!"setup transaction '{id}' depends on unknown or unqueued transaction '{dependency}'; use send_setup for forward dependencies"
  | .dependsOnWorkload => "depends_on is only supported for setup transactions"

/-! ## The sender -/

/-- `SenderConfig`, checked by `validate`, and the optional collaborators of the sender. -/
structure Config where
  maxConcurrent : ℕ
  maxConcurrent_pos : 0 < maxConcurrent
  /-- Twice the burst capacity of the rate limiter, 0 without one. -/
  burstBuffer : ℕ := 0
  rateLimiter : Bool := false
  maxPending : Option ℕ := none
  maxPending_pos : ∀ limit ∈ maxPending, 0 < limit := by simp
  requestAuth : Bool := false
  lateSigner : Bool := false

def pendingBacklogFactor : ℕ := 4

/-- `max_buffered_transactions` -/
def Config.maxBuffered (cfg : Config) : ℕ :=
  max (max (cfg.maxConcurrent * pendingBacklogFactor) 1) cfg.burstBuffer

/-- A transaction that `send` put into the queue: the number of the call, the transaction passed to
    it, and the queue entry. -/
structure Accepted where
  call : ℕ
  source : GeneratedTx
  entry : PendingTx

/-- Bookkeeping that nothing reads: everything ever queued, in order, and every key whose release was
    handled, with the queue id of its transaction. -/
structure Log where
  accepted : List Accepted := []
  released : List (ℕ × SchedulingKey) := []

/-- The fields of `Sender` its logic reads. A message in `completions` is tagged with the queue id of
    the worker that sent it; `workers` are all tasks ever spawned, in order of dispatch. -/
structure Sender where
  pending : List PendingTx := []
  activeKeys : Finset SchedulingKey := ∅
  completions : List (ℕ × Completion) := []
  knownSetup : Finset String := ∅
  completedSetup : Finset String := ∅
  inFlightSetup : ℕ := 0
  inFlightPending : ℕ := 0
  setupFailure : Option SetupFailure := none
  pendingFailure : Option String := none
  nextQueueId : ℕ := 0
  deferredError : Option SendError := none
  workers : List Worker := []
  log : Log := {}

namespace Sender

def releaseKeys (s : Sender) (keys : List SchedulingKey) : Sender :=
  { s with activeKeys := s.activeKeys \ keys.toFinset }

/-- `handle_completion`, for a message sent by worker `q`. -/
def handleCompletion (s : Sender) (q : ℕ) : Completion → Sender
  | .release keys =>
    { s.releaseKeys keys with
      log := { s.log with released := s.log.released ++ keys.map (q, ·) } }
  | .pendingFinished result =>
    { s with
      inFlightPending := s.inFlightPending - 1
      pendingFailure := match result with
        | .error error => s.pendingFailure.or (some error)
        | .ok () => s.pendingFailure }
  | .setupFinished id success =>
    if success then
      { s with
        inFlightSetup := s.inFlightSetup - 1
        -- the source unwraps the id: a setup transaction has one
        completedSetup := match id with
          | some id => insert id s.completedSetup
          | none => s.completedSetup }
    else
      { s with
        inFlightSetup := s.inFlightSetup - 1
        setupFailure := s.setupFailure.or (some (.finished id)) }

/-- Handle the oldest message of the channel, if there is one. -/
def receive (s : Sender) : Option Sender :=
  match s.completions with
  | [] => none
  | (q, m) :: rest => some ({ s with completions := rest }.handleCompletion q m)

/-- All dependencies of `p` finished successfully. -/
def dependenciesMet (s : Sender) (p : PendingTx) : Bool :=
  p.dependsOn.all (· ∈ s.completedSetup)

def nextReadyIndex (s : Sender) : Option ℕ :=
  KeyedLocks.firstReady PendingTx.schedulingKeys s.dependenciesMet s.activeKeys s.pending

def activateKeys (s : Sender) (p : PendingTx) : Sender :=
  { s with activeKeys := s.activeKeys ∪ p.schedulingKeys.toFinset }

/-- Semaphore permits held by workers. -/
def permitsHeld (s : Sender) : ℕ := s.workers.countP Worker.permit

def clearPending (s : Sender) : Sender := { s with pending := [] }

def dispatch (cfg : Config) (s : Sender) (p : PendingTx) : Sender :=
  { s with
    inFlightPending := s.inFlightPending + if cfg.maxPending.isSome then 1 else 0
    inFlightSetup := s.inFlightSetup + if p.phase = .setup then 1 else 0
    workers := s.workers ++ [Worker.spawn p cfg.maxPending.isSome] }

/-- `pending.remove(index)` -/
def removePending (s : Sender) (index : ℕ) : Sender :=
  { s with pending := s.pending.eraseIdx index }

/-- The entry at `index` failed authentication: it leaves the queue, and a setup transaction leaves
    its failure behind. -/
def failAuthentication (s : Sender) (index : ℕ) (p : PendingTx) : Sender :=
  if p.phase = .setup then
    { s.removePending index with setupFailure := some (.authentication p.id) }
  else s.removePending index

/-- What the environment decides while the main task runs: whether the rate limiter asks for a delay,
    and for which logical senders the request authentication answers with headers. -/
structure Choice where
  delayed : Bool := false
  auth : Option Address → Bool := fun _ => true

/-- How one turn of the pump loop ends: another turn, `Ok(())`, or a `DispatchPreparationError`. -/
inductive Pumped
  | again
  | ok
  | err (queueId : Option ℕ) (error : SendError)

/-- The body of the pump loop after `drain_completions`. -/
def pumpTurn (cfg : Config) (s : Sender) (choice : Choice) : Sender × Pumped :=
  match s.pendingFailure with
  | some error => (s, .err none (.pendingTracking error))
  | none =>
  match s.setupFailure with
  | some failure => (s, .err none (.setupFailed failure))
  | none =>
  if cfg.maxPending.any (· ≤ s.inFlightPending) then (s, .ok) else
  match s.nextReadyIndex with
  | none => (s, .ok)
  | some index =>
  if cfg.maxConcurrent ≤ s.permitsHeld then (s, .ok) else
  if cfg.rateLimiter && choice.delayed then (s, .again) else
  match s.pending[index]? with
  | none => (s, .ok) -- `expect("pending index exists")`
  | some p =>
    if !cfg.requestAuth || choice.auth p.sender then
      (((s.removePending index).activateKeys p).dispatch cfg p, .again)
    else
      (s.failAuthentication index p, .err (some p.queueId) (.authentication p.id))

/-- The queue entry `send` builds. -/
def entryOf (queueId : ℕ) (tx : GeneratedTx) (submissionKeys inclusionKeys : List SchedulingKey) :
    PendingTx :=
  { dependsOn := tx.dependsOn, queueId, phase := tx.phase, id := tx.id, lateSign := tx.lateSign,
    sender := tx.sender, submissionKeys, inclusionKeys }

/-- Append `entry` to the queue on behalf of call number `call`. -/
def pushPending (s : Sender) (call : ℕ) (tx : GeneratedTx) (entry : PendingTx) : Sender :=
  { s with
    pending := s.pending ++ [entry]
    log := { s.log with accepted := s.log.accepted ++ [⟨call, tx, entry⟩] } }

/-- `send` from taking the queue id to the push: the checks, in their order, and the queue id of the
    new entry. -/
def enqueue (cfg : Config) (s : Sender) (call : ℕ) (tx : GeneratedTx) :
    Sender × Except SendError ℕ :=
  let queueId := s.nextQueueId
  let s := { s with nextQueueId := queueId + 1 }
  if tx.lateSign.isSome && !cfg.lateSigner then
    (s, .error (.missingLateSigner ((tx.lateSign.map LateSignSpec.format).getD "")))
  else
  match normalizeKeySets tx.submissionKeys tx.inclusionKeys with
  | none => (s, .error .noSchedulingKey)
  | some (submissionKeys, inclusionKeys) =>
    let entry := entryOf queueId tx submissionKeys inclusionKeys
    match tx.phase with
    | .setup =>
      match tx.nonemptyId with
      | none => (s, .error .missingSetupId)
      | some name =>
        if name ∈ s.knownSetup then (s, .error (.duplicateSetup name)) else
        match tx.dependsOn.find? (· ∉ s.knownSetup) with
        | some dependency => (s, .error (.unknownDependency name dependency))
        | none =>
          ({ s with knownSetup := insert name s.knownSetup }.pushPending call tx entry, .ok queueId)
    | .workload =>
      if !tx.dependsOn.isEmpty then (s, .error .dependsOnWorkload)
      else (s.pushPending call tx entry, .ok queueId)

end Sender

/-! ## The main task -/

/-- Who called `pump`, with what the caller does next. -/
inductive Frame
  /-- `wait_for_buffer_capacity`, in `send(tx)` -/
  | capacity (tx : GeneratedTx)
  /-- `send`, after queuing its own transaction as `queueId` -/
  | send (queueId : ℕ)
  | flush

/-- Program counter of the main task. -/
inductive Control
  /-- between calls, or between two transactions of one `send_setup` -/
  | idle
  /-- in `drain_completions` of the pump loop -/
  | draining (frame : Frame)
  /-- in the pump loop, after an empty `try_recv` -/
  | deciding (frame : Frame)
  /-- `recv` in `wait_for_buffer_capacity` -/
  | awaitCapacity (tx : GeneratedTx)
  /-- `recv` in `flush` -/
  | awaitFlush (firstError : Option SendError)
  /-- `join_next` in `flush` -/
  | joining (firstError : Option SendError)

/-- Bookkeeping over calls: how many `send` and `flush` calls were started, the transactions passed to
    `send`, what each call returned, and the failures `pump` raised, with the call that ran it. -/
structure Calls where
  started : ℕ := 0
  sends : List (ℕ × GeneratedTx) := []
  outcomes : List (ℕ × Except SendError Unit) := []
  raised : List (ℕ × SendError) := []

/-- The sender, its main task, and the rest of the setup batch being sent. -/
structure State where
  sender : Sender := {}
  control : Control := .idle
  batch : List GeneratedTx := []
  calls : Calls := {}

namespace State

/-- The current call returns. An error ends the whole `send_setup`. -/
def finish (st : State) (result : Except SendError Unit) : State :=
  { st with
    control := .idle
    batch := match result with
      | .ok () => st.batch
      | .error _ => []
    calls := { st.calls with outcomes := st.calls.outcomes ++ [(st.calls.started, result)] } }

/-- `send` once there is room in the buffer. -/
def afterCapacity (cfg : Config) (st : State) (tx : GeneratedTx) : State :=
  match st.sender.enqueue cfg st.calls.started tx with
  | (s, .ok queueId) => { st with sender := s, control := .draining (.send queueId) }
  | (s, .error e) => { st with sender := s }.finish (.error e)

/-- The loop test of `wait_for_buffer_capacity`. -/
def capacityLoop (cfg : Config) (st : State) (tx : GeneratedTx) : State :=
  if cfg.maxBuffered ≤ st.sender.pending.length then { st with control := .draining (.capacity tx) }
  else st.afterCapacity cfg tx

/-- A call starts: `send` of the transaction in `txs`, or `flush`. -/
def startCall (st : State) (txs : List GeneratedTx) : State :=
  { st with calls := { st.calls with
      started := st.calls.started + 1
      sends := st.calls.sends ++ txs.map (st.calls.started + 1, ·) } }

/-- `send` up to its first `pump` or queue push. -/
def startSend (cfg : Config) (st : State) (tx : GeneratedTx) : State :=
  match (st.startCall [tx]).sender.deferredError with
  | some e =>
    { st.startCall [tx] with sender := { st.sender with deferredError := none, pending := [] } }.finish
      (.error e)
  | none => (st.startCall [tx]).capacityLoop cfg tx

/-- The loop test of `flush`. -/
def flushLoop (st : State) (firstError : Option SendError) : State :=
  if !st.sender.pending.isEmpty || decide (st.sender.activeKeys ≠ ∅) ||
      decide (0 < st.sender.inFlightSetup) || decide (0 < st.sender.inFlightPending) then
    { st with control := .awaitFlush firstError }
  else { st with control := .joining firstError }

/-- `flush` up to its first `pump` or loop test. -/
def startFlush (st : State) : State :=
  match (st.startCall []).sender.deferredError with
  | some e =>
    { st.startCall [] with sender := { st.sender with deferredError := none, pending := [] } }.flushLoop
      (some e)
  | none => { st.startCall [] with control := .draining .flush }

/-- `send_setup` validates the whole batch before it sends anything. -/
def startSetup (st : State) (txs : List GeneratedTx) : State :=
  match setupSubmissionOrder txs with
  | .error _ => st
  | .ok order =>
    if txs.any fun tx => tx.id.any (· ∈ st.sender.knownSetup) then st
    else { st with batch := order.filterMap fun index => txs[index]? }

/-- `pump` returned `Ok(())` to its caller. -/
def pumpOk (cfg : Config) (st : State) : Frame → State
  | .capacity tx =>
    if st.sender.pending.length < cfg.maxBuffered then st.afterCapacity cfg tx
    else { st with control := .awaitCapacity tx }
  | .send _ => st.finish (.ok ())
  | .flush => st.flushLoop none

/-- `pump` returned an error to its caller. -/
def pumpErr (st : State) (queueId : Option ℕ) (error : SendError) : Frame → State
  | .capacity _ => { st with sender := st.sender.clearPending }.finish (.error error)
  | .send current =>
    let currentIsPending := st.sender.pending.any fun p => p.queueId == current
    let st := { st with sender := st.sender.clearPending }
    if queueId = some current || currentIsPending then st.finish (.error error)
    -- the caller's transaction is on the wire: an error would invite an unsafe retry
    else { st with sender := { st.sender with deferredError := some error } }.finish (.ok ())
  | .flush => { st with sender := st.sender.clearPending }.flushLoop (some error)

/-- `pump` raised `error` in the current call. -/
def recordRaised (st : State) (error : SendError) : State :=
  { st with calls := { st.calls with raised := st.calls.raised ++ [(st.calls.started, error)] } }

/-- One turn of the pump loop after its drain. -/
def decide (cfg : Config) (st : State) (frame : Frame) (choice : Sender.Choice) : State :=
  match st.sender.pumpTurn cfg choice with
  | (s, .again) => { st with sender := s, control := .draining frame }
  | (s, .ok) => { st with sender := s }.pumpOk cfg frame
  | (s, .err queueId error) =>
    ({ st with sender := s }.recordRaised error).pumpErr queueId error frame

/-- What `flush` returns once everything has ended. -/
def flushResult : Option SendError → Except SendError Unit
  | some e => .error e
  | none => .ok ()

/-- The next internal step of the main task. -/
def mainStep (cfg : Config) (st : State) (choice : Sender.Choice) : Option State :=
  match st.control with
  | .idle =>
    match st.batch with
    | [] => none
    | tx :: rest => some ({ st with batch := rest }.startSend cfg tx)
  | .draining frame =>
    match st.sender.receive with
    | some s => some { st with sender := s }
    | none => some { st with control := .deciding frame }
  | .deciding frame => some (st.decide cfg frame choice)
  | .awaitCapacity tx =>
    st.sender.receive.map fun s => { st with sender := s }.capacityLoop cfg tx
  | .awaitFlush firstError =>
    st.sender.receive.map fun s =>
      match firstError with
      | none => { st with sender := s, control := .draining .flush }
      | some e => { st with sender := s }.flushLoop (some e)
  | .joining firstError =>
    if st.sender.workers.all Worker.finished then
      some (st.finish (flushResult firstError))
    else none

end State

/-! ## The system -/

/-- A step of the owner, the main task or a worker. Workers are named by their place in the order of
    dispatch. -/
inductive Label
  | send (tx : GeneratedTx)
  | sendSetup (txs : List GeneratedTx)
  | flush
  | main (choice : Sender.Choice := {})
  | worker (index : ℕ) (event : WorkerEvent)
  /-- worker `index` puts its next message on the channel -/
  | emit (index : ℕ)

namespace Sender

/-- A worker takes a step of `submit_tx`. -/
def advanceWorker (cfg : Config) (s : Sender) (index : ℕ) (event : WorkerEvent) : Option Sender :=
  s.workers[index]?.bind fun w =>
    (w.advance cfg.lateSigner event).map fun w' => { s with workers := s.workers.set index w' }

/-- A worker puts its next message on the channel. -/
def emit (s : Sender) (index : ℕ) : Option Sender :=
  s.workers[index]?.bind fun w =>
    match w.outbox with
    | [] => none
    | m :: rest => some { s with
        workers := s.workers.set index { w with outbox := rest }
        completions := s.completions ++ [(w.tx.queueId, m)] }

end Sender

/-- A call may start only between calls. -/
def State.ready (st : State) : Bool :=
  match st.control with
  | .idle => st.batch.isEmpty
  | _ => false

/-- One step of the whole system. -/
def senderStep (cfg : Config) (st : State) : Label → Option State
  | .send tx => if st.ready then some (st.startSend cfg tx) else none
  | .sendSetup txs => if st.ready then some (st.startSetup txs) else none
  | .flush => if st.ready then some st.startFlush else none
  | .main choice => st.mainStep cfg choice
  | .worker index event => (st.sender.advanceWorker cfg index event).map ({ st with sender := · })
  | .emit index => (st.sender.emit index).map ({ st with sender := · })

/-- A new sender with configuration `cfg`, and everything that can happen to it. -/
def senderSystem (cfg : Config) : System State Label where
  init := {}
  step := senderStep cfg

end TxGen
