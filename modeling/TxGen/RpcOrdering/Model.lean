import TxGen.Core.GeneratedTx
import TxGen.Lib.KeyedLocks
import TxGen.Lib.System

set_option autoImplicit false

/-! # Ordered RPC admission

`RpcOrdering` lets concurrent callers submit transactions that share a scheduling key one after the
other. A caller enqueues a ticket and awaits `acquire`, which registers with the notifier, tries to
take the ticket out of the queue, and otherwise parks until it is notified. An admitted ticket gives
its keys back in up to three pieces: explicitly after the submission, through the inclusion release
it hands out, and when it is dropped.

Every section under the mutex is one step, and so is every `notify_waiters` call after it: other
tasks act in between. Ticket numbers are counted without the wrap-around of the `u64` counter, which
no run reaches. -/

namespace TxGen

/-- A queued ticket. -/
structure RpcPendingOrder where
  id : ℕ
  submissionKeys : List SchedulingKey
  inclusionKeys : List SchedulingKey
deriving DecidableEq

def RpcPendingOrder.schedulingKeys (order : RpcPendingOrder) : List SchedulingKey :=
  order.submissionKeys ++ order.inclusionKeys

/-- Where `acquire` stands. -/
inductive WaitStage
  /-- At the top of the loop, or not polled yet. -/
  | fresh
  /-- Registered with the notifier; `try_acquire` is next. -/
  | registered (notified : Bool)
  /-- `try_acquire` has failed; the task sleeps until it is notified. -/
  | parked (notified : Bool)
deriving DecidableEq

/-- `notify_waiters` is heard by the tasks that have registered. -/
def WaitStage.notify : WaitStage → WaitStage
  | .fresh => .fresh
  | .registered _ => .registered true
  | .parked _ => .parked true

/-- An `RpcOrderTicket` that is not acquired. -/
structure RpcOrderTicket where
  id : ℕ
  submissionKeys : List SchedulingKey
  inclusionKeys : List SchedulingKey
  stage : WaitStage := .fresh
deriving DecidableEq

/-- The queue entry of a ticket. -/
def RpcOrderTicket.order (ticket : RpcOrderTicket) : RpcPendingOrder where
  id := ticket.id
  submissionKeys := ticket.submissionKeys
  inclusionKeys := ticket.inclusionKeys

/-- How far an acquired ticket is dropped: `drop` releases its two key sets one after the other. -/
inductive PermitStage
  | held
  | dropping
  | dropped
deriving DecidableEq

/-- An `RpcOrderTicket` that is acquired, with the inclusion release it has handed out. -/
structure RpcPermit where
  id : ℕ
  /-- All keys it was admitted with. -/
  admitted : List SchedulingKey
  submissionKeys : List SchedulingKey
  inclusionKeys : List SchedulingKey
  /-- The keys of its `RpcInclusionRelease`, until that is dropped. -/
  inclusionRelease : List SchedulingKey := []
  stage : PermitStage := .held
deriving DecidableEq

/-- The keys it has not given back. -/
def RpcPermit.heldKeys (p : RpcPermit) : List SchedulingKey :=
  p.submissionKeys ++ p.inclusionKeys ++ p.inclusionRelease

/-- What has happened to the queue and the active keys. -/
inductive OrderEvent
  | enqueued (order : RpcPendingOrder)
  | admitted (id : ℕ)
  | released (id : ℕ) (keys : List SchedulingKey)
  | cancelled (id : ℕ)
deriving DecidableEq

/-- The shared state, the tickets and permits that refer to it, and the history. -/
structure RpcOrdering where
  nextId : ℕ := 0
  pending : List RpcPendingOrder := []
  activeKeys : Finset SchedulingKey := ∅
  /-- Tickets that wait, in the order of `enqueue`. -/
  waiters : List RpcOrderTicket := []
  /-- Tickets that were admitted, in the order of admission. -/
  permits : List RpcPermit := []
  /-- Calls that have left the mutex and not yet called `notify_waiters`. -/
  notifiesDue : ℕ := 0
  events : List OrderEvent := []

namespace RpcOrdering

/-- The first queued ticket that shares no key with the active ones or with a ticket before it. -/
def nextReadyOrderIndex (pending : List RpcPendingOrder) (activeKeys : Finset SchedulingKey) :
    Option ℕ :=
  KeyedLocks.firstReady RpcPendingOrder.schedulingKeys (fun _ => true) activeKeys pending

/-- `enqueue`; keys that cannot be normalized are refused. -/
def enqueue (s : RpcOrdering) (submissionKeys inclusionKeys : List SchedulingKey) : RpcOrdering :=
  match normalizeKeySets submissionKeys inclusionKeys with
  | none => s
  | some (submissionKeys, inclusionKeys) =>
    let ticket : RpcOrderTicket := { id := s.nextId, submissionKeys, inclusionKeys }
    { s with
      nextId := s.nextId + 1
      pending := s.pending ++ [ticket.order]
      waiters := s.waiters ++ [ticket]
      notifiesDue := s.notifiesDue + 1
      events := s.events ++ [.enqueued ticket.order] }

/-- `notify_waiters` -/
def notifyWaiters (s : RpcOrdering) : RpcOrdering :=
  { s with
    waiters := s.waiters.map fun w => { w with stage := w.stage.notify }
    notifiesDue := s.notifiesDue - 1 }

def setStage (s : RpcOrdering) (i : ℕ) (ticket : RpcOrderTicket) (stage : WaitStage) : RpcOrdering :=
  { s with waiters := s.waiters.set i { ticket with stage } }

/-- Take the queue entry `order` at `index`; the ticket at place `i` becomes a permit. -/
def admitTicket (s : RpcOrdering) (i : ℕ) (ticket : RpcOrderTicket) (index : ℕ)
    (order : RpcPendingOrder) : RpcOrdering :=
  let permit : RpcPermit := {
    id := ticket.id
    admitted := ticket.submissionKeys ++ ticket.inclusionKeys
    submissionKeys := ticket.submissionKeys
    inclusionKeys := ticket.inclusionKeys }
  { s with
    pending := s.pending.eraseIdx index
    activeKeys := s.activeKeys ∪ order.schedulingKeys.toFinset
    waiters := s.waiters.eraseIdx i
    permits := s.permits ++ [permit]
    events := s.events ++ [.admitted ticket.id] }

/-- `try_acquire` of the ticket at place `i` and what `acquire` makes of its answer. -/
def tryAcquire (s : RpcOrdering) (i : ℕ) (ticket : RpcOrderTicket) (notified : Bool) :
    RpcOrdering :=
  let fail := s.setStage i ticket (.parked notified)
  match nextReadyOrderIndex s.pending s.activeKeys with
  | none => fail
  | some index =>
    match s.pending[index]? with
    | none => fail
    | some order => if order.id ≠ ticket.id then fail else s.admitTicket i ticket index order

/-- `cancel_pending`, by the drop of a ticket that is not acquired. -/
def cancel (s : RpcOrdering) (i : ℕ) (ticket : RpcOrderTicket) : RpcOrdering :=
  { s with
    pending := s.pending.eraseP fun order => order.id = ticket.id
    waiters := s.waiters.eraseIdx i
    notifiesDue := s.notifiesDue + 1
    events := s.events ++ [.cancelled ticket.id] }

/-- `release`, by permit `id`. -/
def release (s : RpcOrdering) (id : ℕ) (keys : List SchedulingKey) : RpcOrdering :=
  { s with
    activeKeys := s.activeKeys \ keys.toFinset
    notifiesDue := s.notifiesDue + 1
    events := s.events ++ [.released id keys] }

/-- What gives keys of an acquired ticket back. -/
inductive PermitAction
  | releaseSubmissionKeys
  /-- `drop`, its first release -/
  | drop
  /-- `drop`, its second release -/
  | dropRest
  /-- the drop of the inclusion release -/
  | dropInclusion
deriving DecidableEq

/-- The keys an action releases and what is left of the permit. -/
def PermitAction.apply (p : RpcPermit) :
    PermitAction → Option (List SchedulingKey × RpcPermit)
  | .releaseSubmissionKeys =>
    if p.stage = .held then some (p.submissionKeys, { p with submissionKeys := [] }) else none
  | .drop =>
    if p.stage = .held then
      some (p.submissionKeys, { p with submissionKeys := [], stage := .dropping })
    else none
  | .dropRest =>
    if p.stage = .dropping then
      some (p.inclusionKeys, { p with inclusionKeys := [], stage := .dropped })
    else none
  | .dropInclusion =>
    if p.inclusionRelease ≠ [] then some (p.inclusionRelease, { p with inclusionRelease := [] })
    else none

/-- `take_inclusion_keys`: without inclusion keys there is no release to hand out. -/
def takeInclusionKeys (p : RpcPermit) : RpcPermit :=
  if p.inclusionKeys.isEmpty then p
  else { p with inclusionKeys := [], inclusionRelease := p.inclusionKeys }

/-- Who acts next. -/
inductive Label
  | enqueue (submissionKeys inclusionKeys : List SchedulingKey)
  | notify
  | register (i : ℕ)
  | tryAcquire (i : ℕ)
  | wake (i : ℕ)
  | cancel (i : ℕ)
  | act (i : ℕ) (action : PermitAction)
  | takeInclusionKeys (i : ℕ)
deriving DecidableEq

def step (s : RpcOrdering) : Label → Option RpcOrdering
  | .enqueue submissionKeys inclusionKeys => some (s.enqueue submissionKeys inclusionKeys)
  | .notify => if s.notifiesDue = 0 then none else some s.notifyWaiters
  | .register i =>
    match s.waiters[i]? with
    | some ticket =>
      if ticket.stage = .fresh then some (s.setStage i ticket (.registered false)) else none
    | none => none
  | .tryAcquire i =>
    match s.waiters[i]? with
    | some ticket =>
      match ticket.stage with
      | .registered notified => some (s.tryAcquire i ticket notified)
      | _ => none
    | none => none
  | .wake i =>
    match s.waiters[i]? with
    | some ticket =>
      if ticket.stage = .parked true then some (s.setStage i ticket .fresh) else none
    | none => none
  | .cancel i =>
    match s.waiters[i]? with
    | some ticket =>
      match ticket.stage with
      | .registered _ => none
      | _ => some (s.cancel i ticket)
    | none => none
  | .act i action =>
    match s.permits[i]? with
    | some p =>
      match action.apply p with
      | some (keys, p') => some { s.release p.id keys with permits := s.permits.set i p' }
      | none => none
    | none => none
  | .takeInclusionKeys i =>
    match s.permits[i]? with
    | some p =>
      if p.stage = .held then some { s with permits := s.permits.set i (takeInclusionKeys p) }
      else none
    | none => none

end RpcOrdering

/-- Ordered RPC admission under any interleaving of its callers. -/
def rpcOrderingSystem : System RpcOrdering RpcOrdering.Label where
  init := {}
  step := RpcOrdering.step

end TxGen
