import TxGen.Sender.Model

set_option autoImplicit false

/-! # What a step can do to the sender

`Sender.Step` lists the primitive changes of a sender and `Move` the steps of the whole system, each
with the facts the code has checked when it makes it. That these are all the steps is said once
(`senderStep_move`, `senderStep_steps`): the invariants of the sender are proved against `Sender.Step`,
those of the main task against `Move`, and neither unfolds the main task. -/

namespace TxGen

namespace Sender

/-- `s'` is `s` after queuing `tx` on behalf of call `call`, with everything `send` has checked. -/
def Enqueued (s : Sender) (call : ℕ) (tx : GeneratedTx) (s' : Sender) : Prop :=
  ∃ sub inc known,
    normalizeKeySets tx.submissionKeys tx.inclusionKeys = some (sub, inc) ∧
    s' = { s with nextQueueId := s.nextQueueId + 1, knownSetup := known }.pushPending call tx
      (entryOf s.nextQueueId tx sub inc) ∧
    ((tx.phase = .workload ∧ tx.dependsOn = [] ∧ known = s.knownSetup) ∨
      ∃ name, tx.phase = .setup ∧ tx.id = some name ∧ name ∉ s.knownSetup ∧
        (∀ d ∈ tx.dependsOn, d ∈ s.knownSetup) ∧ known = insert name s.knownSetup)

/-- The primitive changes of a sender. -/
inductive Step (cfg : Config) : Sender → Sender → Prop
  | handle {s : Sender} {q : ℕ} {m : Completion} {rest : List (ℕ × Completion)}
      (h : s.completions = (q, m) :: rest) :
      Step cfg s ({ s with completions := rest }.handleCompletion q m)
  | skipId {s : Sender} : Step cfg s { s with nextQueueId := s.nextQueueId + 1 }
  | enqueue {s s' : Sender} {call : ℕ} {tx : GeneratedTx} (h : s.Enqueued call tx s') :
      Step cfg s s'
  | clear {s : Sender} : Step cfg s s.clearPending
  | defer {s : Sender} (e : Option SendError) : Step cfg s { s with deferredError := e }
  | dispatch {s : Sender} {index : ℕ} {p : PendingTx} (pendingOk : s.pendingFailure = none)
      (setupOk : s.setupFailure = none) (hready : s.nextReadyIndex = some index)
      (hp : s.pending[index]? = some p) :
      Step cfg s (((s.removePending index).activateKeys p).dispatch cfg p)
  | failAuthentication {s : Sender} {index : ℕ} {p : PendingTx} (pendingOk : s.pendingFailure = none)
      (setupOk : s.setupFailure = none) (hready : s.nextReadyIndex = some index)
      (hp : s.pending[index]? = some p) : Step cfg s (s.failAuthentication index p)
  | advance {s : Sender} {index : ℕ} {w w' : Worker} {event : WorkerEvent}
      (hw : s.workers[index]? = some w) (h : w.advance cfg.lateSigner event = some w') :
      Step cfg s { s with workers := s.workers.set index w' }
  | emit {s : Sender} {index : ℕ} {w : Worker} {m : Completion} {rest : List Completion}
      (hw : s.workers[index]? = some w) (h : w.outbox = m :: rest) :
      Step cfg s { s with
        workers := s.workers.set index { w with outbox := rest }
        completions := s.completions ++ [(w.tx.queueId, m)] }

/-- Finitely many primitive changes. -/
abbrev Steps (cfg : Config) : Sender → Sender → Prop := Relation.ReflTransGen (Step cfg)

/-! ## One spec lemma for each function of the main task -/

theorem nonemptyId_some {tx : GeneratedTx} {name : String} (h : tx.nonemptyId = some name) :
    tx.id = some name := by
  simp only [GeneratedTx.nonemptyId, Option.filter_eq_some_iff] at h
  exact h.1

theorem enqueue_ok {cfg : Config} {s s' : Sender} {call q : ℕ} {tx : GeneratedTx}
    (h : s.enqueue cfg call tx = (s', .ok q)) :
    q = s.nextQueueId ∧ s.Enqueued call tx s' := by
  simp only [enqueue] at h
  split at h
  · cases h
  split at h
  · cases h
  rename_i sub inc hnorm
  split at h
  · rename_i hphase
    split at h
    · cases h
    rename_i name hname
    split at h
    · cases h
    rename_i hnew
    split at h
    · cases h
    rename_i hdeps
    cases h
    refine ⟨rfl, sub, inc, _, hnorm, rfl, Or.inr ⟨name, hphase, nonemptyId_some hname, hnew, ?_,
      rfl⟩⟩
    intro d hd
    have := List.find?_eq_none.1 hdeps d hd
    simpa using this
  · rename_i hphase
    split at h
    · cases h
    rename_i hdeps
    cases h
    refine ⟨rfl, sub, inc, s.knownSetup, hnorm, rfl, Or.inl ⟨hphase, ?_, rfl⟩⟩
    simpa using hdeps

theorem enqueue_error {cfg : Config} {s s' : Sender} {call : ℕ} {tx : GeneratedTx} {e : SendError}
    (h : s.enqueue cfg call tx = (s', .error e)) :
    s' = { s with nextQueueId := s.nextQueueId + 1 } := by
  simp only [enqueue] at h
  split at h
  · cases h; rfl
  split at h
  · cases h; rfl
  split at h
  · split at h
    · cases h; rfl
    split at h
    · cases h; rfl
    split at h
    · cases h; rfl
    · cases h
  · split at h
    · cases h; rfl
    · cases h

theorem receive_some {s s' : Sender} (h : s.receive = some s') :
    ∃ q m rest, s.completions = (q, m) :: rest ∧
      s' = { s with completions := rest }.handleCompletion q m := by
  simp only [receive] at h
  split at h
  · cases h
  · rename_i q m rest hc
    exact ⟨q, m, rest, hc, by simpa using h.symm⟩

theorem receive_none {s : Sender} (h : s.receive = none) : s.completions = [] := by
  simp only [receive] at h
  split at h
  · assumption
  · cases h

theorem advanceWorker_some {cfg : Config} {s s' : Sender} {index : ℕ} {event : WorkerEvent}
    (h : s.advanceWorker cfg index event = some s') :
    ∃ w w', s.workers[index]? = some w ∧ w.advance cfg.lateSigner event = some w' ∧
      s' = { s with workers := s.workers.set index w' } := by
  simp only [advanceWorker, Option.bind_eq_some_iff, Option.map_eq_some_iff] at h
  obtain ⟨w, hw, w', hadv, rfl⟩ := h
  exact ⟨w, w', hw, hadv, rfl⟩

theorem emit_some {s s' : Sender} {index : ℕ} (h : s.emit index = some s') :
    ∃ w m rest, s.workers[index]? = some w ∧ w.outbox = m :: rest ∧
      s' = { s with
        workers := s.workers.set index { w with outbox := rest }
        completions := s.completions ++ [(w.tx.queueId, m)] } := by
  simp only [emit, Option.bind_eq_some_iff] at h
  obtain ⟨w, hw, h⟩ := h
  split at h
  · cases h
  · rename_i m rest hout
    exact ⟨w, m, rest, hw, hout, by simpa using h.symm⟩

/-- The pump dispatches the entry `p` at `index`: everything it checks. -/
structure Dispatches (cfg : Config) (s : Sender) (choice : Choice) (index : ℕ) (p : PendingTx) :
    Prop where
  pendingOk : s.pendingFailure = none
  setupOk : s.setupFailure = none
  belowCap : cfg.maxPending.any (· ≤ s.inFlightPending) = false
  ready : s.nextReadyIndex = some index
  permit : s.permitsHeld < cfg.maxConcurrent
  undelayed : (cfg.rateLimiter && choice.delayed) = false
  entry : s.pending[index]? = some p
  authenticated : (!cfg.requestAuth || choice.auth p.sender) = true

theorem pumpTurn_dispatches {cfg : Config} {s : Sender} {choice : Choice} {index : ℕ}
    {p : PendingTx} (h : s.Dispatches cfg choice index p) :
    s.pumpTurn cfg choice =
      (((s.removePending index).activateKeys p).dispatch cfg p, .again) := by
  rw [pumpTurn, h.pendingOk, h.setupOk]
  simp only [h.belowCap, h.ready, h.entry, if_neg h.permit.not_ge, h.undelayed, h.authenticated,
    Bool.false_eq_true, if_false, if_true]

/-- How a turn of the pump loop ends, with the change it makes. -/
inductive Turn (cfg : Config) (choice : Choice) (s : Sender) : Sender → Pumped → Prop
  | failed (error : SendError) (h : s.pendingFailure ≠ none ∨ s.setupFailure ≠ none) :
      Turn cfg choice s s (.err none error)
  | stopped (pendingOk : s.pendingFailure = none) (setupOk : s.setupFailure = none)
      (h : (∃ limit ∈ cfg.maxPending, limit ≤ s.inFlightPending) ∨ s.nextReadyIndex = none ∨
        cfg.maxConcurrent ≤ s.permitsHeld) : Turn cfg choice s s .ok
  | delayed : Turn cfg choice s s .again
  | dispatched {index : ℕ} {p : PendingTx} (h : s.Dispatches cfg choice index p) :
      Turn cfg choice s (((s.removePending index).activateKeys p).dispatch cfg p) .again
  | unauthenticated {index : ℕ} {p : PendingTx} (pendingOk : s.pendingFailure = none)
      (setupOk : s.setupFailure = none) (hready : s.nextReadyIndex = some index)
      (hp : s.pending[index]? = some p) :
      Turn cfg choice s (s.failAuthentication index p)
        (.err (some p.queueId) (.authentication p.id))

theorem pumpTurn_turn {cfg : Config} {s s' : Sender} {choice : Choice} {r : Pumped}
    (h : s.pumpTurn cfg choice = (s', r)) : Turn cfg choice s s' r := by
  simp only [pumpTurn] at h
  split at h
  · rename_i error hf
    cases h
    exact .failed _ (Or.inl (by simp [hf]))
  rename_i hpf
  split at h
  · rename_i failure hf
    cases h
    exact .failed _ (Or.inr (by simp [hf]))
  rename_i hsf
  split at h
  · rename_i hcap
    cases h
    exact .stopped hpf hsf (Or.inl (by simpa [Option.any_eq_true] using hcap))
  rename_i hcap
  split at h
  · rename_i hnone
    cases h
    exact .stopped hpf hsf (Or.inr (Or.inl hnone))
  rename_i index hready
  split at h
  · rename_i hpermits
    cases h
    exact .stopped hpf hsf (Or.inr (Or.inr hpermits))
  rename_i hpermits
  split at h
  · cases h; exact .delayed
  rename_i hdelay
  split at h
  · rename_i hmissing
    obtain ⟨a, ha, -⟩ := KeyedLocks.firstReady_some _ _ hready
    rw [hmissing] at ha
    cases ha
  rename_i p hp
  split at h
  · rename_i hauth
    cases h
    exact .dispatched ⟨hpf, hsf, Bool.eq_false_iff.2 hcap, hready, not_le.1 hpermits,
      Bool.eq_false_iff.2 hdelay, hp, hauth⟩
  · cases h
    exact .unauthenticated hpf hsf hready hp

/-- The turn that ends `pump` normally changes nothing, and tells why nothing can be dispatched. -/
theorem Turn.stopped_why {cfg : Config} {choice : Choice} {s s' : Sender}
    (h : Turn cfg choice s s' .ok) :
    s' = s ∧ s.pendingFailure = none ∧ s.setupFailure = none ∧
      ((∃ limit ∈ cfg.maxPending, limit ≤ s.inFlightPending) ∨ s.nextReadyIndex = none ∨
        cfg.maxConcurrent ≤ s.permitsHeld) := by
  cases h with
  | stopped hpf hsf hwhy => exact ⟨rfl, hpf, hsf, hwhy⟩

end Sender

/-! ## The moves of the system -/

open Sender

/-- `l` starts `send(tx)` in `st` and leaves `rest` of the setup batch. -/
inductive Starts (st : State) (tx : GeneratedTx) : Label → List GeneratedTx → Prop
  | call (h : st.ready = true) : Starts st tx (.send tx) st.batch
  | batch {choice : Choice} {rest : List GeneratedTx} (idle : st.control = .idle)
      (h : st.batch = tx :: rest) : Starts st tx (.main choice) rest

theorem idle_of_ready {st : State} (h : st.ready = true) : st.control = .idle := by
  unfold State.ready at h
  split at h
  · assumption
  · cases h

theorem Starts.idle {st : State} {tx : GeneratedTx} {l : Label} {rest : List GeneratedTx}
    (h : Starts st tx l rest) : st.control = .idle := by
  cases h with
  | call hready => exact idle_of_ready hready
  | batch hidle _ => exact hidle

/-- How `send(tx)` goes on after the loop test of `wait_for_buffer_capacity`. -/
inductive Entered (cfg : Config) (st : State) (tx : GeneratedTx) : State → Prop
  | full (h : cfg.maxBuffered ≤ st.sender.pending.length) :
      Entered cfg st tx { st with control := .draining (.capacity tx) }
  | queued {s : Sender} (h : st.sender.enqueue cfg st.calls.started tx =
      (s, .ok st.sender.nextQueueId)) :
      Entered cfg st tx
        { st with sender := s, control := .draining (.send st.sender.nextQueueId) }
  | refused (e : SendError) :
      Entered cfg st tx
        ({ st with sender := { st.sender with nextQueueId := st.sender.nextQueueId + 1 } }.finish
          (.error e))

/-- Something `flush` waits for. -/
def Sender.Busy (s : Sender) : Prop :=
  s.pending ≠ [] ∨ s.activeKeys ≠ ∅ ∨ 0 < s.inFlightSetup ∨ 0 < s.inFlightPending

/-- How `flush` goes on after its loop test. -/
inductive Flushed (st : State) (firstError : Option SendError) : State → Prop
  | waiting (h : st.sender.Busy) : Flushed st firstError { st with control := .awaitFlush firstError }
  | joining (h : ¬ st.sender.Busy) : Flushed st firstError { st with control := .joining firstError }

/-- The sender after `take_deferred_error` and clearing the queue. -/
def Sender.takeDeferred (s : Sender) : Sender := { s with deferredError := none, pending := [] }

/-- The steps of the system, each with everything the code has checked. -/
inductive Move (cfg : Config) (st : State) : Label → State → Prop
  | sendDeferred {l : Label} {tx : GeneratedTx} {rest : List GeneratedTx} {e : SendError}
      (starts : Starts st tx l rest) (h : st.sender.deferredError = some e) :
      Move cfg st l
        ({ st.startCall [tx] with batch := rest, sender := st.sender.takeDeferred }.finish (.error e))
  | send {l : Label} {tx : GeneratedTx} {rest : List GeneratedTx} {st' : State}
      (starts : Starts st tx l rest) (h : st.sender.deferredError = none)
      (entered : Entered cfg { st.startCall [tx] with batch := rest } tx st') : Move cfg st l st'
  | flushDeferred {e : SendError} {st' : State} (ready : st.ready = true)
      (h : st.sender.deferredError = some e)
      (flushed : Flushed { st.startCall [] with sender := st.sender.takeDeferred } (some e) st') :
      Move cfg st .flush st'
  | flush (ready : st.ready = true) (h : st.sender.deferredError = none) :
      Move cfg st .flush { st.startCall [] with control := .draining .flush }
  | setup {txs : List GeneratedTx} (ready : st.ready = true) :
      Move cfg st (.sendSetup txs) (st.startSetup txs)
  | received {choice : Choice} {frame : Frame} {s : Sender} (at_ : st.control = .draining frame)
      (h : st.sender.receive = some s) : Move cfg st (.main choice) { st with sender := s }
  | drained {choice : Choice} {frame : Frame} (at_ : st.control = .draining frame)
      (h : st.sender.completions = []) :
      Move cfg st (.main choice) { st with control := .deciding frame }
  | delayed {choice : Choice} {frame : Frame} (at_ : st.control = .deciding frame) :
      Move cfg st (.main choice) { st with control := .draining frame }
  | dispatched {choice : Choice} {frame : Frame} {index : ℕ} {p : PendingTx}
      (at_ : st.control = .deciding frame) (h : st.sender.Dispatches cfg choice index p) :
      Move cfg st (.main choice)
        { st with
          sender := ((st.sender.removePending index).activateKeys p).dispatch cfg p
          control := .draining frame }
  | failed {choice : Choice} {frame : Frame} {s : Sender} {queueId : Option ℕ} {e : SendError}
      (at_ : st.control = .deciding frame) (turn : Turn cfg choice st.sender s (.err queueId e)) :
      Move cfg st (.main choice)
        (({ st with sender := s }.recordRaised e).pumpErr queueId e frame)
  | capacityEntered {choice : Choice} {tx : GeneratedTx} {st' : State}
      (at_ : st.control = .deciding (.capacity tx)) (turn : Turn cfg choice st.sender st.sender .ok)
      (entered : Entered cfg st tx st') : Move cfg st (.main choice) st'
  | capacityAwaits {choice : Choice} {tx : GeneratedTx}
      (at_ : st.control = .deciding (.capacity tx)) (turn : Turn cfg choice st.sender st.sender .ok)
      (h : cfg.maxBuffered ≤ st.sender.pending.length) :
      Move cfg st (.main choice) { st with control := .awaitCapacity tx }
  | sent {choice : Choice} {queueId : ℕ} (at_ : st.control = .deciding (.send queueId))
      (turn : Turn cfg choice st.sender st.sender .ok) : Move cfg st (.main choice) (st.finish (.ok ()))
  | flushed {choice : Choice} {st' : State} (at_ : st.control = .deciding .flush)
      (turn : Turn cfg choice st.sender st.sender .ok) (flushed : Flushed st none st') :
      Move cfg st (.main choice) st'
  | capacityReceived {choice : Choice} {tx : GeneratedTx} {s : Sender} {st' : State}
      (at_ : st.control = .awaitCapacity tx) (h : st.sender.receive = some s)
      (entered : Entered cfg { st with sender := s } tx st') : Move cfg st (.main choice) st'
  | flushReceived {choice : Choice} {s : Sender} (at_ : st.control = .awaitFlush none)
      (h : st.sender.receive = some s) :
      Move cfg st (.main choice) { st with sender := s, control := .draining .flush }
  | failedFlushReceived {choice : Choice} {e : SendError} {s : Sender} {st' : State}
      (at_ : st.control = .awaitFlush (some e)) (h : st.sender.receive = some s)
      (flushed : Flushed { st with sender := s } (some e) st') : Move cfg st (.main choice) st'
  | joined {choice : Choice} {firstError : Option SendError}
      (at_ : st.control = .joining firstError) (h : st.sender.workers.all Worker.finished = true) :
      Move cfg st (.main choice) (st.finish (State.flushResult firstError))
  | advance {index : ℕ} {w w' : Worker} {event : WorkerEvent}
      (hw : st.sender.workers[index]? = some w) (h : w.advance cfg.lateSigner event = some w') :
      Move cfg st (.worker index event)
        { st with sender := { st.sender with workers := st.sender.workers.set index w' } }
  | emit {index : ℕ} {w : Worker} {m : Completion} {rest : List Completion}
      (hw : st.sender.workers[index]? = some w) (h : w.outbox = m :: rest) :
      Move cfg st (.emit index)
        { st with sender := { st.sender with
            workers := st.sender.workers.set index { w with outbox := rest }
            completions := st.sender.completions ++ [(w.tx.queueId, m)] } }

namespace State

variable {cfg : Config}

theorem afterCapacity_entered (st : State) (tx : GeneratedTx) :
    Entered cfg st tx (st.afterCapacity cfg tx) := by
  unfold afterCapacity
  split
  · rename_i s q h
    obtain rfl := (enqueue_ok h).1
    exact .queued h
  · rename_i s e h
    obtain rfl := enqueue_error h
    exact .refused e

theorem capacityLoop_entered (st : State) (tx : GeneratedTx) :
    Entered cfg st tx (st.capacityLoop cfg tx) := by
  unfold capacityLoop
  split
  · rename_i h
    exact .full h
  · exact st.afterCapacity_entered tx

theorem flushLoop_flushed (st : State) (firstError : Option SendError) :
    Flushed st firstError (st.flushLoop firstError) := by
  have hiff : (!st.sender.pending.isEmpty || Decidable.decide (st.sender.activeKeys ≠ ∅) ||
      Decidable.decide (0 < st.sender.inFlightSetup) ||
      Decidable.decide (0 < st.sender.inFlightPending)) = true ↔ st.sender.Busy := by
    simp only [Sender.Busy, Bool.or_eq_true, Bool.not_eq_true', decide_eq_true_eq,
      List.isEmpty_eq_false_iff, or_assoc]
  unfold flushLoop
  split
  · rename_i h
    exact .waiting (hiff.1 h)
  · rename_i h
    exact .joining (mt hiff.2 h)

theorem startSend_move {st : State} {tx : GeneratedTx} {l : Label} {rest : List GeneratedTx}
    (starts : Starts st tx l rest) : Move cfg st l (startSend cfg { st with batch := rest } tx) := by
  unfold startSend
  split
  · rename_i e h
    exact .sendDeferred starts h
  · rename_i h
    exact .send starts h (capacityLoop_entered _ tx)

theorem startFlush_move {st : State} (ready : st.ready = true) : Move cfg st .flush st.startFlush := by
  unfold startFlush
  split
  · rename_i e h
    exact .flushDeferred ready h (flushLoop_flushed _ _)
  · rename_i h
    exact .flush ready h

theorem pumpOk_move {st : State} {frame : Frame} {choice : Choice}
    (at_ : st.control = .deciding frame) (turn : Turn cfg choice st.sender st.sender .ok) :
    Move cfg st (.main choice) (st.pumpOk cfg frame) := by
  cases frame with
  | capacity tx =>
      unfold pumpOk
      simp only
      split
      · exact .capacityEntered at_ turn (st.afterCapacity_entered tx)
      · rename_i h
        exact .capacityAwaits at_ turn (not_lt.1 h)
  | send q => exact .sent at_ turn
  | flush => exact .flushed at_ turn (st.flushLoop_flushed none)

theorem decide_move {st : State} {frame : Frame} {choice : Choice}
    (at_ : st.control = .deciding frame) :
    Move cfg st (.main choice) (st.decide cfg frame choice) := by
  unfold decide
  split
  · rename_i s h
    cases pumpTurn_turn h with
    | delayed => exact .delayed at_
    | dispatched hd => exact .dispatched at_ hd
  · rename_i s h
    have hturn := pumpTurn_turn h
    cases hturn with
    | stopped hpf hsf hwhy => exact pumpOk_move at_ (.stopped hpf hsf hwhy)
  · rename_i s q error h
    exact .failed at_ (pumpTurn_turn h)

theorem mainStep_move {st st' : State} {choice : Choice} (h : st.mainStep cfg choice = some st') :
    Move cfg st (.main choice) st' := by
  unfold mainStep at h
  split at h
  · rename_i hidle
    split at h
    · cases h
    · rename_i tx rest hbatch
      cases h
      exact startSend_move (.batch hidle hbatch)
  · rename_i frame hat
    split at h
    · rename_i s hr
      cases h
      exact .received hat hr
    · rename_i hr
      cases h
      exact .drained hat (receive_none hr)
  · rename_i frame hat
    cases h
    exact decide_move hat
  · rename_i tx hat
    obtain ⟨s, hr, rfl⟩ := Option.map_eq_some_iff.1 h
    exact .capacityReceived hat hr (capacityLoop_entered _ tx)
  · rename_i firstError hat
    obtain ⟨s, hr, rfl⟩ := Option.map_eq_some_iff.1 h
    split
    · exact .flushReceived hat hr
    · exact .failedFlushReceived hat hr (flushLoop_flushed _ _)
  · rename_i firstError hat
    split at h
    · rename_i hall
      cases h
      exact .joined hat hall
    · cases h

end State

open State in
/-- **Every step of the system is one of the moves.** -/
theorem senderStep_move {cfg : Config} {st st' : State} {l : Label}
    (h : senderStep cfg st l = some st') : Move cfg st l st' := by
  cases l with
  | send tx =>
      simp only [senderStep] at h
      split at h
      · rename_i hready
        cases h
        exact startSend_move (.call hready)
      · cases h
  | sendSetup txs =>
      simp only [senderStep] at h
      split at h
      · rename_i hready
        cases h
        exact .setup hready
      · cases h
  | flush =>
      simp only [senderStep] at h
      split at h
      · rename_i hready
        cases h
        exact startFlush_move hready
      · cases h
  | main choice => exact mainStep_move h
  | worker index event =>
      obtain ⟨s, hs, rfl⟩ := Option.map_eq_some_iff.1 h
      obtain ⟨w, w', hw, hadv, rfl⟩ := advanceWorker_some hs
      exact .advance hw hadv
  | emit index =>
      obtain ⟨s, hs, rfl⟩ := Option.map_eq_some_iff.1 h
      obtain ⟨w, m, rest, hw, hout, rfl⟩ := emit_some hs
      exact .emit hw hout

/-! ## Moves as primitive changes of the sender -/

section Primitive

variable {cfg : Config} {st st' : State}

theorem Sender.Turn.steps {choice : Choice} {s s' : Sender} {r : Pumped}
    (h : Turn cfg choice s s' r) : Steps cfg s s' := by
  cases h with
  | failed error h => exact .refl
  | stopped _ _ _ => exact .refl
  | delayed => exact .refl
  | dispatched h => exact .single (.dispatch h.pendingOk h.setupOk h.ready h.entry)
  | unauthenticated hpf hsf hready hp => exact .single (.failAuthentication hpf hsf hready hp)

theorem Entered.steps {tx : GeneratedTx} (h : Entered cfg st tx st') :
    Steps cfg st.sender st'.sender := by
  cases h with
  | full _ => exact .refl
  | queued h => exact .single (.enqueue (enqueue_ok h).2)
  | refused e => exact .single .skipId

theorem Flushed.sender {e : Option SendError} (h : Flushed st e st') : st'.sender = st.sender := by
  cases h <;> rfl

theorem takeDeferred_steps (s : Sender) : Steps cfg s s.takeDeferred :=
  (Relation.ReflTransGen.single Step.clear).tail (Step.defer none)

theorem startSetup_sender (st : State) (txs : List GeneratedTx) :
    (st.startSetup txs).sender = st.sender := by
  unfold State.startSetup
  split
  · rfl
  split <;> rfl

@[simp] theorem flushLoop_sender (st : State) (e : Option SendError) :
    (st.flushLoop e).sender = st.sender := by
  unfold State.flushLoop
  split <;> rfl

theorem pumpErr_steps (st : State) (queueId : Option ℕ) (error : SendError) (frame : Frame) :
    Steps cfg st.sender (st.pumpErr queueId error frame).sender := by
  cases frame with
  | capacity tx => exact .single .clear
  | send current =>
      simp only [State.pumpErr]
      split
      · exact .single .clear
      · exact (Relation.ReflTransGen.single Step.clear).tail (Step.defer (some error))
  | flush =>
      simp only [State.pumpErr, flushLoop_sender]
      exact .single .clear

theorem receive_steps {s s' : Sender} (h : s.receive = some s') : Steps cfg s s' := by
  obtain ⟨q, m, rest, hc, rfl⟩ := receive_some h
  exact .single (.handle hc)

theorem receive_workers {s s' : Sender} (h : s.receive = some s') : s'.workers = s.workers := by
  obtain ⟨q, m, rest, -, rfl⟩ := receive_some h
  cases m with
  | release keys => rfl
  | setupFinished id success => cases success <;> rfl
  | pendingFinished r => rfl

theorem Entered.workers {tx : GeneratedTx} (h : Entered cfg st tx st') :
    st'.sender.workers = st.sender.workers := by
  cases h with
  | full _ => rfl
  | queued h =>
      obtain ⟨sub, inc, known, -, rfl, -⟩ := (enqueue_ok h).2
      rfl
  | refused e => rfl

theorem pumpErr_workers (st : State) (queueId : Option ℕ) (error : SendError) (frame : Frame) :
    (st.pumpErr queueId error frame).sender.workers = st.sender.workers := by
  cases frame with
  | capacity tx => rfl
  | send current =>
      simp only [State.pumpErr]
      split <;> rfl
  | flush => simp only [State.pumpErr, flushLoop_sender]; rfl

theorem Sender.Turn.err_workers {choice : Choice} {s s' : Sender} {q : Option ℕ} {e : SendError}
    (h : Turn cfg choice s s' (.err q e)) : s'.workers = s.workers := by
  cases h with
  | failed _ _ => rfl
  | unauthenticated _ _ _ _ =>
      unfold failAuthentication
      split <;> rfl

/-- The step is taken by a worker. -/
def Label.byWorker : Label → Bool
  | .worker _ _ | .emit _ => true
  | _ => false

theorem Starts.byWorker {tx : GeneratedTx} {l : Label} {rest : List GeneratedTx}
    (h : Starts st tx l rest) : l.byWorker = false := by
  cases h <;> rfl

/-- What a step labelled `l` does to the workers. -/
inductive WorkersChange (cfg : Config) (st : State) (l : Label) : List Worker → Prop
  | same (hl : l.byWorker = false) : WorkersChange cfg st l st.sender.workers
  | spawned {choice : Choice} {frame : Frame} {index : ℕ} {p : PendingTx} (hl : l = .main choice)
      (at_ : st.control = .deciding frame) (h : st.sender.Dispatches cfg choice index p) :
      WorkersChange cfg st l (st.sender.workers ++ [Worker.spawn p cfg.maxPending.isSome])
  | advanced {index : ℕ} {w w' : Worker} {event : WorkerEvent} (hl : l = .worker index event)
      (hw : st.sender.workers[index]? = some w) (h : w.advance cfg.lateSigner event = some w') :
      WorkersChange cfg st l (st.sender.workers.set index w')
  | emitted {index : ℕ} {w : Worker} {m : Completion} {rest : List Completion}
      (hl : l = .emit index) (hw : st.sender.workers[index]? = some w) (h : w.outbox = m :: rest) :
      WorkersChange cfg st l (st.sender.workers.set index { w with outbox := rest })

theorem WorkersChange.of_eq {l : Label} {ws : List Worker} (hl : l.byWorker = false)
    (h : ws = st.sender.workers) : WorkersChange cfg st l ws := h ▸ .same hl

theorem Move.workers {l : Label} (h : Move cfg st l st') :
    WorkersChange cfg st l st'.sender.workers := by
  cases h with
  | sendDeferred starts _ => exact .same starts.byWorker
  | send starts _ entered => exact .of_eq starts.byWorker entered.workers
  | flushDeferred _ _ flushed => exact .of_eq rfl (by rw [flushed.sender]; rfl)
  | flush _ _ => exact .same rfl
  | setup _ => exact .of_eq rfl (by rw [startSetup_sender])
  | received _ h => exact .of_eq rfl (receive_workers h)
  | drained _ _ => exact .same rfl
  | delayed _ => exact .same rfl
  | dispatched hat h => exact .spawned rfl hat h
  | failed _ turn => exact .of_eq rfl ((pumpErr_workers _ _ _ _).trans turn.err_workers)
  | capacityEntered _ _ entered => exact .of_eq rfl entered.workers
  | capacityAwaits _ _ _ => exact .same rfl
  | sent _ _ => exact .same rfl
  | flushed _ _ flushed => exact .of_eq rfl (by rw [flushed.sender])
  | capacityReceived _ h entered => exact .of_eq rfl (entered.workers.trans (receive_workers h))
  | flushReceived _ h => exact .of_eq rfl (receive_workers h)
  | failedFlushReceived _ h flushed =>
      exact .of_eq rfl (by rw [flushed.sender]; exact receive_workers h)
  | joined _ _ => exact .same rfl
  | advance hw h => exact .advanced rfl hw h
  | emit hw h => exact .emitted rfl hw h

theorem Move.steps {l : Label} (h : Move cfg st l st') : Steps cfg st.sender st'.sender := by
  cases h with
  | sendDeferred _ _ => exact takeDeferred_steps st.sender
  | send _ _ entered => exact entered.steps
  | flushDeferred _ _ flushed => exact flushed.sender ▸ takeDeferred_steps st.sender
  | flush _ _ => exact .refl
  | setup _ => exact startSetup_sender st _ ▸ .refl
  | received _ h => exact receive_steps h
  | drained _ _ => exact .refl
  | delayed _ => exact .refl
  | dispatched _ h => exact .single (.dispatch h.pendingOk h.setupOk h.ready h.entry)
  | @failed _ _ s _ e _ turn =>
      exact turn.steps.trans (pumpErr_steps ({ st with sender := s }.recordRaised e) _ _ _)
  | capacityEntered _ _ entered => exact entered.steps
  | capacityAwaits _ _ _ => exact .refl
  | sent _ _ => exact .refl
  | flushed _ _ flushed => exact flushed.sender ▸ .refl
  | capacityReceived _ h entered => exact (receive_steps h).trans entered.steps
  | flushReceived _ h => exact receive_steps h
  | failedFlushReceived _ h flushed => exact flushed.sender ▸ receive_steps h
  | joined _ _ => exact .refl
  | advance hw h => exact .single (.advance hw h)
  | emit hw h => exact .single (.emit hw h)

end Primitive

/-- **Every step of the system is a sequence of primitive changes of the sender.** -/
theorem senderStep_steps {cfg : Config} {st st' : State} {l : Label}
    (h : senderStep cfg st l = some st') : Sender.Steps cfg st.sender st'.sender :=
  (senderStep_move h).steps

/-- A property every primitive change preserves holds of the sender in every reachable state. -/
theorem sender_invariant {cfg : Config} {I : Sender → Prop} (hinit : I {})
    (hstep : ∀ s s', I s → Sender.Step cfg s s' → I s') {st : State}
    (h : (senderSystem cfg).Reachable st) : I st.sender := by
  refine h.invariant (I := fun st => I st.sender) hinit fun st l st' hI hst => ?_
  have hsteps := senderStep_steps hst
  generalize st'.sender = s' at hsteps
  induction hsteps with
  | refl => exact hI
  | tail _ hs ih => exact hstep _ _ ih hs

end TxGen
