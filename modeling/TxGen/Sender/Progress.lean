import TxGen.Sender.Reports

set_option autoImplicit false

/-! # Progress of the sender

A queued setup transaction waits for the ids in its `depends_on`. As long as each of them belongs to a
transaction that was dispatched or is queued ahead, the head of the queue is either ready or blocked by
something in flight, and neither `flush` nor `wait_for_buffer_capacity` waits in vain.

`send` only checks that the ids are in `known_setup`, and clearing the queue after an error leaves them
there. An id whose transaction was dropped that way is `Cancelled`: it will never complete, and a
transaction accepted with a dependency on it stays in the queue forever. -/

namespace TxGen

namespace Sender

/-! ## Dependencies of queued transactions -/

/-- The setup transaction with id `d` was dispatched. -/
def DispatchedId (s : Sender) (d : String) : Prop :=
  ∃ w ∈ s.workers, w.tx.phase = .setup ∧ w.tx.id = some d

/-- The setup transaction with id `d` is one of the first `i` in the queue. -/
def QueuedAhead (s : Sender) (i : ℕ) (d : String) : Prop :=
  ∃ j < i, ∃ p, s.pending[j]? = some p ∧ p.phase = .setup ∧ p.id = some d

/-- The sender knows the id, but dropped its transaction undispatched. -/
def Cancelled (s : Sender) (d : String) : Prop :=
  d ∈ s.knownSetup ∧ ¬ s.DispatchedId d ∧ ¬ s.QueuedAhead s.pending.length d

/-- What each queued transaction depends on was dispatched or is queued ahead of it. -/
def DependInv (s : Sender) : Prop :=
  ∀ i p, s.pending[i]? = some p → ∀ d ∈ p.dependsOn, s.DispatchedId d ∨ s.QueuedAhead i d

/-- `s'` has the queue, the known ids and the transactions in flight of `s`. -/
structure SameQueue (s s' : Sender) : Prop where
  pending : s'.pending = s.pending
  known : s'.knownSetup = s.knownSetup
  deferred : s'.deferredError = s.deferredError
  failure : s'.setupFailure = none → s.setupFailure = none
  workers : ∀ w ∈ s.workers, ∃ w' ∈ s'.workers, w'.tx = w.tx

theorem SameQueue.dispatchedId {s s' : Sender} (h : s.SameQueue s') {d : String}
    (hd : s.DispatchedId d) : s'.DispatchedId d := by
  obtain ⟨w, hw, hphase, hid⟩ := hd
  obtain ⟨w', hw', htx⟩ := h.workers w hw
  exact ⟨w', hw', htx ▸ hphase, htx ▸ hid⟩

theorem SameQueue.queuedAhead {s s' : Sender} (h : s.SameQueue s') {i : ℕ} {d : String} :
    s'.QueuedAhead i d ↔ s.QueuedAhead i d := by
  unfold QueuedAhead
  rw [h.pending]

theorem SameQueue.cancelled {s s' : Sender} (h : s.SameQueue s') {d : String}
    (hd : s'.Cancelled d) : s.Cancelled d := by
  refine ⟨h.known ▸ hd.1, fun hs => hd.2.1 (h.dispatchedId hs), fun hq => hd.2.2 ?_⟩
  rw [h.pending, h.queuedAhead]
  exact hq

theorem SameQueue.dependInv {s s' : Sender} (h : s.SameQueue s') (hd : s.DependInv) :
    s'.DependInv := by
  intro i p hp d hdep
  rw [h.pending] at hp
  exact (hd i p hp d hdep).imp h.dispatchedId h.queuedAhead.2

theorem sameQueue_handle (s : Sender) (q : ℕ) (m : Completion) (rest : List (ℕ × Completion)) :
    s.SameQueue ({ s with completions := rest }.handleCompletion q m) := by
  have hsame : ∀ w ∈ s.workers, ∃ w' ∈ s.workers, w'.tx = w.tx := fun w hw => ⟨w, hw, rfl⟩
  cases m with
  | release keys => exact ⟨rfl, rfl, rfl, fun h => h, hsame⟩
  | setupFinished id success =>
      cases success with
      | true => exact ⟨rfl, rfl, rfl, fun h => h, hsame⟩
      | false => exact ⟨rfl, rfl, rfl, fun h => (Option.or_eq_none_iff.1 h).1, hsame⟩
  | pendingFinished r => exact ⟨rfl, rfl, rfl, fun h => h, hsame⟩

theorem sameQueue_receive {s s' : Sender} (h : s.receive = some s') : s.SameQueue s' := by
  obtain ⟨q, m, rest, -, rfl⟩ := receive_some h
  exact s.sameQueue_handle q m rest

/-- A worker is replaced by one with the same transaction, with any change of the channel. -/
theorem sameQueue_setWorker {s : Sender} {index : ℕ} {w w' : Worker}
    (hw : s.workers[index]? = some w) (htx : w'.tx = w.tx) (cs : List (ℕ × Completion)) :
    s.SameQueue { s with workers := s.workers.set index w', completions := cs } := by
  obtain ⟨hi, rfl⟩ := List.getElem?_eq_some_iff.1 hw
  refine ⟨rfl, rfl, rfl, fun h => h, fun v hv => ?_⟩
  obtain ⟨j, hj⟩ := List.mem_iff_getElem?.1 hv
  by_cases hij : index = j
  · subst hij
    obtain rfl := Option.some.inj (hw.symm.trans hj)
    exact ⟨w', List.mem_set hi w', htx⟩
  · exact ⟨v, List.mem_of_getElem? ((List.getElem?_set_ne hij).trans hj), rfl⟩

/-! ## Acceptance -/

/-- `send(tx)` would queue the transaction. -/
def Accepts (cfg : Config) (s : Sender) (tx : GeneratedTx) : Prop :=
  ∃ q, (s.enqueue cfg 0 tx).2 = .ok q

/-- Acceptance depends on the transaction and the known ids. -/
theorem accepts_of_enqueue {cfg : Config} {s s₀ s' : Sender} {call q : ℕ} {tx : GeneratedTx}
    (h : s.enqueue cfg call tx = (s', .ok q)) (known : s₀.knownSetup = s.knownSetup) :
    s₀.Accepts cfg tx := by
  refine ⟨s₀.nextQueueId, ?_⟩
  simp only [enqueue] at h ⊢
  simp only [known]
  split at h
  · cases h
  rename_i hlate
  rw [if_neg hlate]
  split at h
  · cases h
  split at h
  · split at h
    · cases h
    split at h
    · cases h
    rename_i hnew
    rw [if_neg hnew]
    split at h
    · cases h
    rename_i hdeps
    split
    · rename_i d hd
      exact absurd (List.find?_some hd) (List.find?_eq_none.1 hdeps d (List.mem_of_find?_eq_some hd))
    · rfl
  · split at h
    · cases h
    rename_i hdeps
    rw [if_neg hdeps]

/-! ## What queuing and dispatching do to dependencies -/

theorem Enqueued.dispatchedId {s s' : Sender} {call : ℕ} {tx : GeneratedTx}
    (he : s.Enqueued call tx s') {d : String} : s'.DispatchedId d ↔ s.DispatchedId d := by
  obtain ⟨sub, inc, known, -, rfl, -⟩ := he
  exact Iff.rfl

theorem Enqueued.queuedAhead {s s' : Sender} {call : ℕ} {tx : GeneratedTx}
    (he : s.Enqueued call tx s') {i : ℕ} {d : String} (hi : i ≤ s.pending.length)
    (hd : s.QueuedAhead i d) : s'.QueuedAhead i d := by
  obtain ⟨sub, inc, known, -, rfl, -⟩ := he
  obtain ⟨j, hj, p, hp, hrest⟩ := hd
  exact ⟨j, hj, p, (List.getElem?_append_left (hj.trans_le hi)).trans hp, hrest⟩

theorem Enqueued.pending {s s' : Sender} {call : ℕ} {tx : GeneratedTx}
    (he : s.Enqueued call tx s') : ∃ p : PendingTx, s'.pending = s.pending ++ [p] ∧
      p.dependsOn = tx.dependsOn ∧ p.phase = tx.phase ∧ p.id = tx.id := by
  obtain ⟨sub, inc, known, -, rfl, -⟩ := he
  exact ⟨_, rfl, rfl, rfl, rfl⟩

theorem Enqueued.cancelled {s s' : Sender} {call : ℕ} {tx : GeneratedTx}
    (he : s.Enqueued call tx s') {d : String} (hd : s'.Cancelled d) : s.Cancelled d := by
  obtain ⟨hknown, hdisp, hqueued⟩ := hd
  obtain ⟨p, hpend, -, hphase, hid⟩ := he.pending
  refine ⟨?_, fun h => hdisp (he.dispatchedId.2 h), fun ⟨j, hj, q, hq, hrest⟩ => hqueued ?_⟩
  · obtain ⟨sub, inc, known, -, rfl, ⟨-, -, rfl⟩ | ⟨name, hsetup, hname, -, -, rfl⟩⟩ := he
    · exact hknown
    · refine (Finset.mem_insert.1 hknown).resolve_left ?_
      rintro rfl
      exact hqueued ⟨s.pending.length, by simp [pushPending], _, List.getElem?_concat_length,
        hsetup, hname⟩
  · rw [hpend]
    exact ⟨j, hj.trans_le (by simp), q, hpend ▸ (List.getElem?_append_left hj).trans hq, hrest⟩

theorem Enqueued.dependInv {s s' : Sender} {call : ℕ} {tx : GeneratedTx}
    (he : s.Enqueued call tx s') (h : s.DependInv) (hdeps : ∀ d ∈ tx.dependsOn, ¬ s.Cancelled d) :
    s'.DependInv := by
  obtain ⟨p₀, hpend, hdep₀, -, -⟩ := he.pending
  intro i p hp d hd
  rw [hpend] at hp
  rcases List.getElem?_concat_cases hp with hp | ⟨rfl, rfl⟩
  · have hi := (List.getElem?_eq_some_iff.1 hp).1
    exact (h i p hp d hd).imp he.dispatchedId.2 (he.queuedAhead hi.le)
  · rw [hdep₀] at hd
    -- the new transaction is queued last, and none of its dependencies was dropped
    obtain ⟨sub, inc, known, -, rfl, ⟨-, hnone, -⟩ | ⟨name, -, -, -, hknown, -⟩⟩ := he
    · rw [hnone] at hd
      cases hd
    · have hlive := hdeps d hd
      simp only [Cancelled, hknown d hd, true_and, not_and, not_not] at hlive
      by_cases hdisp : s.DispatchedId d
      · exact Or.inl hdisp
      · obtain ⟨j, hj, q, hq, hrest⟩ := hlive hdisp
        exact Or.inr ⟨j, hj, q, (List.getElem?_append_left hj).trans hq, hrest⟩

/-- Where the entries of the queue go when `p` is dispatched from place `index`. -/
theorem queuedAhead_dispatch (cfg : Config) {s : Sender} {index : ℕ} {p : PendingTx}
    (hp : s.pending[index]? = some p) {i : ℕ} {d : String} (hd : s.QueuedAhead i d) :
    (((s.removePending index).activateKeys p).dispatch cfg p).DispatchedId d ∨
      (((s.removePending index).activateKeys p).dispatch cfg p).QueuedAhead
        (if i ≤ index then i else i - 1) d := by
  obtain ⟨j, hj, q, hq, hphase, hid⟩ := hd
  rcases Nat.lt_trichotomy j index with hlt | rfl | hgt
  · refine Or.inr ⟨j, by split <;> omega, q, ?_, hphase, hid⟩
    exact (List.getElem?_eraseIdx_of_lt hlt).trans hq
  · obtain rfl := Option.some.inj (hp.symm.trans hq)
    refine Or.inl ⟨Worker.spawn p cfg.maxPending.isSome,
      List.mem_append_right _ (List.mem_singleton_self _), ?_, ?_⟩
    · rw [Worker.spawn_tx]; exact hphase
    · rw [Worker.spawn_tx]; exact hid
  · refine Or.inr ⟨j - 1, by split <;> omega, q, ?_, hphase, hid⟩
    refine (List.getElem?_eraseIdx_of_ge (by omega)).trans ?_
    rwa [Nat.sub_add_cancel (by omega)]

theorem dispatchedId_dispatch {cfg : Config} {s : Sender} (index : ℕ) (p : PendingTx) {d : String}
    (hd : s.DispatchedId d) :
    (((s.removePending index).activateKeys p).dispatch cfg p).DispatchedId d := by
  obtain ⟨w, hw, hrest⟩ := hd
  exact ⟨w, List.mem_append_left _ hw, hrest⟩

theorem DependInv.dispatch {cfg : Config} {s : Sender} {index : ℕ} {p : PendingTx}
    (hp : s.pending[index]? = some p) (h : s.DependInv) :
    (((s.removePending index).activateKeys p).dispatch cfg p).DependInv := by
  intro i r hr d hd
  have hr' : s.pending[if i < index then i else i + 1]? = some r := by
    rw [← hr]
    exact (List.getElem?_eraseIdx ..).symm ▸ by split <;> rfl
  rcases h _ r hr' d hd with hdisp | hqueued
  · exact Or.inl (dispatchedId_dispatch index p hdisp)
  · refine (queuedAhead_dispatch cfg hp hqueued).imp_right ?_
    rintro ⟨j, hj, hrest⟩
    refine ⟨j, ?_, hrest⟩
    split at hj <;> split at hj <;> omega

theorem Cancelled.of_dispatch {cfg : Config} {s : Sender} {index : ℕ} {p : PendingTx}
    (hp : s.pending[index]? = some p) {d : String}
    (hd : (((s.removePending index).activateKeys p).dispatch cfg p).Cancelled d) :
    s.Cancelled d := by
  obtain ⟨hknown, hdisp, hqueued⟩ := hd
  refine ⟨hknown, fun h => hdisp (dispatchedId_dispatch index p h), fun h => ?_⟩
  rcases queuedAhead_dispatch cfg hp h with h | ⟨j, hj, q, hq, hrest⟩
  · exact hdisp h
  · exact hqueued ⟨j, (List.getElem?_eq_some_iff.1 hq).1, q, hq, hrest⟩

/-! ## A queue that is not ready waits for something in flight -/

/-- A setup worker that runs or owes its report is counted. -/
theorem ReportInv.inFlightSetup_pos {s : Sender} (h : s.ReportInv) {w : Worker}
    (hw : w ∈ s.workers) (hphase : w.tx.phase = .setup) (hlive : w.stage ≠ .done ∨ s.Owes w) :
    0 < s.inFlightSetup := by
  have hsum : w.tokens .setup ≤ (s.workers.map (Worker.tokens .setup)).sum :=
    List.le_sum_of_mem (List.mem_map_of_mem hw)
  rw [h.setup, unhandled]
  rcases hlive with hrun | ⟨m, hm, hrep⟩ | ⟨c, hc, -, hrep⟩
  · have : 1 ≤ w.tokens .setup := by
      simp only [Worker.tokens, Worker.guarded, hphase, hrun, ne_eq, not_false_eq_true,
        decide_true, and_self, if_true]
      omega
    omega
  · have : 0 < w.outbox.countP (Completion.reports .setup) := List.countP_pos_iff.2 ⟨m, hm, hrep⟩
    have : 1 ≤ w.tokens .setup := by
      rw [Worker.tokens]
      omega
    omega
  · have : 0 < s.completions.countP fun c => c.2.reports .setup :=
      List.countP_pos_iff.2 ⟨c, hc, hrep⟩
    omega

/-- A worker's setup transaction is in flight: its report has not been handled. -/
def InFlight (s : Sender) (d : String) : Prop :=
  0 < s.inFlightSetup ∧ ∃ w ∈ s.workers, w.tx.phase = .setup ∧ w.tx.id = some d ∧
    (w.stage ≠ .done ∨ s.Owes w)

/-- As long as no setup failure is recorded, a dispatched setup transaction has completed or is in
    flight. -/
theorem Inv.completed_or_inFlight {s : Sender} (h : s.Inv) (hf : s.setupFailure = none) {d : String}
    (hd : s.DispatchedId d) : d ∈ s.completedSetup ∨ s.InFlight d := by
  obtain ⟨w, hw, hphase, hid⟩ := hd
  by_cases hrun : w.stage = .done
  · rcases h.setup.outcome w hw hrun hphase with howes | hset
    · exact Or.inr ⟨h.reports.inFlightSetup_pos hw hphase (Or.inr howes), w, hw, hphase, hid,
        Or.inr howes⟩
    · unfold Settled at hset
      split at hset
      · obtain ⟨name, hname, hid'⟩ := hset
        obtain rfl := Option.some.inj (hid.symm.trans hid')
        exact Or.inl hname
      · exact absurd hf hset
  · exact Or.inr ⟨h.reports.inFlightSetup_pos hw hphase (Or.inl hrun), w, hw, hphase, hid,
      Or.inl hrun⟩

/-- Something whose end a worker reports. -/
def Expects (s : Sender) : Prop :=
  s.activeKeys ≠ ∅ ∨ 0 < s.inFlightSetup ∨ 0 < s.inFlightPending

/-- The head of the queue is ready, or something is in flight. -/
theorem Inv.expects_of_not_ready {s : Sender} (h : s.Inv) (hdep : s.DependInv)
    (hf : s.setupFailure = none) (hpend : s.pending ≠ []) (hnone : s.nextReadyIndex = none) :
    s.Expects := by
  obtain ⟨p, rest, hcons⟩ := List.exists_cons_of_ne_nil hpend
  have hp : s.pending[0]? = some p := by rw [hcons]; rfl
  rcases KeyedLocks.firstReady_none _ _ hnone hp with hmet | ⟨k, -, hk | ⟨c, hc, -⟩⟩
  · have hmet' : ∃ d ∈ p.dependsOn, d ∉ s.completedSetup := by
      simpa [dependenciesMet] using hmet
    obtain ⟨d, hd, hnot⟩ := hmet'
    rcases hdep 0 p hp d hd with hdisp | ⟨j, hj, -⟩
    · exact Or.inr (Or.inl ((h.completed_or_inFlight hf hdisp).resolve_left hnot).1)
    · exact absurd hj (Nat.not_lt_zero j)
  · exact Or.inl (Finset.ne_empty_of_mem hk)
  · simp at hc

/-- The pump stops short of an empty queue only when something is in flight. -/
theorem Inv.expects_of_stopped {cfg : Config} {choice : Choice} {s : Sender} (h : s.Inv)
    (hdep : s.setupFailure = none → s.DependInv) (turn : Turn cfg choice s s .ok)
    (hpend : s.pending ≠ []) : s.Expects := by
  obtain ⟨-, -, hsf, ⟨limit, hlimit, hle⟩ | hnone | hpermits⟩ := turn.stopped_why
  · exact Or.inr (Or.inr ((cfg.maxPending_pos limit hlimit).trans_le hle))
  · exact h.expects_of_not_ready (hdep hsf) hsf hpend hnone
  · -- a worker that holds a permit still owns the keys of its transaction
    obtain ⟨w, hw, hpermit⟩ := List.countP_pos_iff.1 (cfg.maxConcurrent_pos.trans_le hpermits)
    have howned := (h.reports.workers w hw).permit_owned hpermit
    obtain ⟨a, ha, heq⟩ := h.accepted.worker_mem w hw
    obtain ⟨k, hk⟩ := List.exists_mem_of_ne_nil _ (heq ▸ h.accepted.nonempty a ha)
    refine Or.inl (Finset.ne_empty_of_mem ((h.keys.mem_activeKeys k).2 ⟨w, hw, ?_⟩))
    simp only [outstanding, Worker.keysLeft, howned, List.append_assoc]
    exact List.mem_append_left _ hk

/-- What is expected comes from a worker or is in the channel, unless a worker took keys with it. -/
theorem Inv.comes_of_expects {s : Sender} (h : s.Inv) (hlost : ∀ w ∈ s.workers, w.lost = [])
    (he : s.Expects) : s.completions ≠ [] ∨ ∃ w ∈ s.workers, w.finished = false := by
  by_contra hno
  simp only [not_or, not_not, not_exists, not_and, Bool.not_eq_false] at hno
  obtain ⟨hsetup, hpending, hkeys⟩ := h.quiescent hno
  rcases he with hactive | hs | hp
  · obtain ⟨k, hk⟩ := Finset.nonempty_iff_ne_empty.2 hactive
    obtain ⟨w, hw, hin⟩ := (hkeys k).1 hk
    rw [hlost w hw] at hin
    cases hin
  · omega
  · omega

end Sender

/-! ## The main task -/

open Sender

/-- The main task is in `flush`. -/
def Control.inFlush : Control → Bool
  | .draining .flush | .deciding .flush | .awaitFlush _ | .joining _ => true
  | _ => false

/-- The transaction `wait_for_buffer_capacity` is called for. -/
def Control.entering : Control → Option GeneratedTx
  | .draining (.capacity tx) | .deciding (.capacity tx) | .awaitCapacity tx => some tx
  | _ => none

/-- The main task waits for a message. -/
def Control.awaits : Control → Bool
  | .awaitCapacity _ | .awaitFlush _ => true
  | _ => false

structure ProgressInv (cfg : Config) (st : State) : Prop where
  queue : st.sender.setupFailure = none → st.sender.DependInv
  /-- no transaction of the batch depends on a dropped one, unless the batch is about to end -/
  batch : st.sender.setupFailure = none → st.sender.deferredError = none →
    ∀ tx ∈ st.batch, ∀ d ∈ tx.dependsOn, ¬ st.sender.Cancelled d
  entering : ∀ tx, st.control.entering = some tx → st.sender.setupFailure = none →
    st.sender.Accepts cfg tx → ∀ d ∈ tx.dependsOn, ¬ st.sender.Cancelled d
  flush : st.control.inFlush = true → st.batch = []
  failedFlush : ∀ e, st.control = .awaitFlush (some e) → st.sender.pending = []
  awaits : st.control.awaits = true → st.sender.Expects

/-- `send(tx)` is called for a setup transaction that will be queued although one of its dependencies
    was dropped. -/
def RevivesCancelled (cfg : Config) (st : State) : Label → Prop
  | .send tx => st.sender.setupFailure = none ∧ st.sender.deferredError = none ∧
      st.sender.Accepts cfg tx ∧ ∃ d ∈ tx.dependsOn, st.sender.Cancelled d
  | _ => False

section Preservation

variable {cfg : Config} {st st' : State}

theorem dependInv_of_empty {s : Sender} (h : s.pending = []) : s.DependInv := by
  intro i p hp
  rw [h] at hp
  cases hp

/-- Where the main task neither enters the queue nor waits nor flushes, only the queue counts. -/
theorem ProgressInv.plain (queue : st.sender.setupFailure = none → st.sender.DependInv)
    (batch : st.sender.setupFailure = none → st.sender.deferredError = none →
      ∀ tx ∈ st.batch, ∀ d ∈ tx.dependsOn, ¬ st.sender.Cancelled d)
    (entering : st.control.entering = none) (flush : st.control.inFlush = false)
    (awaits : st.control.awaits = false) : ProgressInv cfg st where
  queue := queue
  batch := batch
  entering := fun tx hc => by rw [entering] at hc; cases hc
  flush := fun hc => by rw [flush] at hc; cases hc
  failedFlush := fun e hc => by rw [hc] at awaits; cases awaits
  awaits := fun hc => by rw [awaits] at hc; cases hc

theorem ProgressInv.finish (h : ProgressInv cfg st) (r : Except SendError Unit) :
    ProgressInv cfg (st.finish r) := by
  refine .plain h.queue (fun hsf hde tx htx => ?_) rfl rfl rfl
  cases r with
  | ok _ => exact h.batch hsf hde tx htx
  | error e => cases htx

/-- The call ends with an error: the rest of the batch goes with it. -/
theorem ProgressInv.finish_error (st : State) (e : SendError)
    (queue : st.sender.setupFailure = none → st.sender.DependInv) :
    ProgressInv cfg (st.finish (.error e)) :=
  .plain queue (fun _ _ _ htx => by cases htx) rfl rfl rfl

/-- The sender changes without touching the queue, at the same control. -/
theorem ProgressInv.sameQueue (h : ProgressInv cfg st) {s : Sender} (hs : st.sender.SameQueue s)
    (awaits : st.control.awaits = true → s.Expects) :
    ProgressInv cfg { st with sender := s } where
  queue := fun hsf => hs.dependInv (h.queue (hs.failure hsf))
  batch := fun hsf hde tx htx d hd hc =>
    h.batch (hs.failure hsf) (hs.deferred ▸ hde) tx htx d hd (hs.cancelled hc)
  entering := by
    intro tx hc hsf ⟨q, hq⟩ d hd hcanc
    refine h.entering tx hc (hs.failure hsf) ?_ d hd (hs.cancelled hcanc)
    exact accepts_of_enqueue (Prod.ext rfl hq) hs.known.symm
  flush := h.flush
  failedFlush := fun e hc => hs.pending.trans (h.failedFlush e hc)
  awaits := awaits

/-- The control moves inside the pump loop. -/
theorem ProgressInv.control (h : ProgressInv cfg st) {c : Control}
    (entering : ∀ tx, c.entering = some tx → st.control.entering = some tx)
    (flush : c.inFlush = true → st.control.inFlush = true) (failed : ∀ e, c ≠ .awaitFlush (some e))
    (awaits : c.awaits = true → st.sender.Expects) : ProgressInv cfg { st with control := c } where
  queue := h.queue
  batch := h.batch
  entering := fun tx hc => h.entering tx (entering tx hc)
  flush := fun hc => h.flush (flush hc)
  failedFlush := fun e hc => absurd hc (failed e)
  awaits := awaits

theorem ProgressInv.entered (st : State) (queue : st.sender.setupFailure = none → st.sender.DependInv)
    (batch : st.sender.setupFailure = none → st.sender.deferredError = none →
      ∀ tx ∈ st.batch, ∀ d ∈ tx.dependsOn, ¬ st.sender.Cancelled d) {tx : GeneratedTx}
    (hdeps : st.sender.setupFailure = none → st.sender.Accepts cfg tx →
      ∀ d ∈ tx.dependsOn, ¬ st.sender.Cancelled d)
    (h : Entered cfg st tx st') : ProgressInv cfg st' := by
  cases h with
  | full hfull =>
      refine ⟨queue, batch, fun tx' hc => ?_, fun hc => (nomatch hc), fun _ hc => (nomatch hc),
        fun hc => (nomatch hc)⟩
      obtain rfl : tx = tx' := Option.some.inj hc
      exact hdeps
  | @queued s hq =>
      have he := (enqueue_ok hq).2
      have haccept := accepts_of_enqueue hq rfl
      have hsf : s.setupFailure = st.sender.setupFailure ∧
          s.deferredError = st.sender.deferredError := by
        obtain ⟨sub, inc, known, -, rfl, -⟩ := he
        exact ⟨rfl, rfl⟩
      refine .plain (fun hf => ?_) (fun hf hd tx' htx d hdep hc => ?_) rfl rfl rfl
      · rw [hsf.1] at hf
        exact he.dependInv (queue hf) (hdeps hf haccept)
      · rw [hsf.1] at hf
        rw [hsf.2] at hd
        exact batch hf hd tx' htx d hdep (he.cancelled hc)
  | refused e => exact ProgressInv.finish_error _ e queue

theorem ProgressInv.flushed (st : State) (queue : st.sender.setupFailure = none → st.sender.DependInv)
    (hbatch : st.batch = []) {firstError : Option SendError}
    (failed : firstError ≠ none → st.sender.pending = [])
    (hexp : st.sender.pending ≠ [] → st.sender.Expects)
    (h : Flushed st firstError st') : ProgressInv cfg st' := by
  have hb : ∀ {P : GeneratedTx → Prop}, ∀ tx ∈ st.batch, P tx := by
    rw [hbatch]
    exact fun tx htx => absurd htx List.not_mem_nil
  cases h with
  | waiting hbusy =>
      refine ⟨queue, fun _ _ => hb, fun _ hc => (nomatch hc), fun _ => hbatch, fun e hc => ?_,
        fun _ => ?_⟩
      · obtain rfl : firstError = some e := by simpa using hc
        exact failed (Option.some_ne_none e)
      · rcases hbusy with hpend | hbusy
        · exact hexp hpend
        · exact hbusy
  | joining hidle =>
      exact ⟨queue, fun _ _ => hb, fun _ hc => (nomatch hc), fun _ => hbatch,
        fun _ hc => (nomatch hc), fun hc => (nomatch hc)⟩

/-- Every error path clears the queue. -/
theorem ProgressInv.pumpErr (st : State) (hflush : st.control.inFlush = true → st.batch = [])
    {queueId : Option ℕ} {e : SendError} {frame : Frame} (hat : st.control = .deciding frame) :
    ProgressInv cfg (st.pumpErr queueId e frame) := by
  cases frame with
  | capacity tx => exact ProgressInv.finish_error _ e fun _ => dependInv_of_empty rfl
  | send current =>
      simp only [State.pumpErr]
      split
      · exact ProgressInv.finish_error _ e fun _ => dependInv_of_empty rfl
      · exact .plain (fun _ => dependInv_of_empty rfl) (by rintro _ ⟨⟩) rfl rfl rfl
  | flush =>
      refine ProgressInv.flushed _ (fun _ => dependInv_of_empty rfl) ?_ (fun _ => rfl)
        (fun hne => absurd rfl hne) (State.flushLoop_flushed _ _)
      exact hflush (by rw [hat]; rfl)

theorem batch_of_ready (st : State) (h : st.ready = true) : st.batch = [] := by
  unfold State.ready at h
  split at h
  · exact List.isEmpty_iff.1 h
  · cases h

/-- `send_setup` takes only batches whose dependencies are inside the batch, and none of whose ids is
    known: nothing in it depends on a dropped transaction. -/
theorem ProgressInv.startSetup (h : ProgressInv cfg st) (ready : st.ready = true)
    (txs : List GeneratedTx) : ProgressInv cfg (st.startSetup txs) := by
  unfold State.startSetup
  split
  · exact h
  rename_i order horder
  split
  · exact h
  rename_i hnew
  have hidle := idle_of_ready ready
  refine .plain h.queue (fun _ _ tx htx d hd hc => ?_) (by rw [hidle]; rfl) (by rw [hidle]; rfl)
    (by rw [hidle]; rfl)
  obtain ⟨index, -, hget⟩ := List.mem_filterMap.1 htx
  obtain ⟨dep, hdep, hid⟩ :=
    setupSubmissionOrder_closed horder tx (List.mem_of_getElem? hget) d hd
  refine hnew (List.any_eq_true.2 ⟨dep, hdep, ?_⟩)
  rw [nonemptyId_some hid]
  simpa using hc.1

theorem ProgressInv.dispatched (h : ProgressInv cfg st) {frame : Frame}
    (hat : st.control = .deciding frame) {index : ℕ} {p : PendingTx}
    (hp : st.sender.pending[index]? = some p) :
    ProgressInv cfg { st with
      sender := ((st.sender.removePending index).activateKeys p).dispatch cfg p
      control := .draining frame } where
  queue := fun hsf => (h.queue hsf).dispatch hp
  batch := fun hsf hde tx htx d hd hc => h.batch hsf hde tx htx d hd (hc.of_dispatch hp)
  entering := by
    intro tx hc hsf ⟨q, hq⟩ d hd hcanc
    have hentering : st.control.entering = some tx := by
      rw [hat]
      cases frame <;> exact hc
    exact h.entering tx hentering hsf (accepts_of_enqueue (Prod.ext rfl hq) rfl) d hd
      (hcanc.of_dispatch hp)
  flush := fun hc => h.flush (by rw [hat]; cases frame <;> exact hc)
  failedFlush := fun _ hc => (nomatch hc)
  awaits := fun hc => (nomatch hc)

/-- Every step keeps the invariant, except queuing a transaction that depends on a dropped one. -/
theorem ProgressInv.move (h : ProgressInv cfg st) (hinv : st.sender.Inv) {l : Label}
    (hok : ¬ RevivesCancelled cfg st l) (hm : Move cfg st l st') : ProgressInv cfg st' := by
  cases hm with
  | @sendDeferred l tx rest e starts hde =>
      exact ProgressInv.finish_error { st.startCall [tx] with batch := rest, sender := st.sender.takeDeferred } e
        fun _ => dependInv_of_empty rfl
  | @send l tx rest st' starts hde entered =>
      refine ProgressInv.entered { st.startCall [tx] with batch := rest } h.queue ?_ ?_ entered
      · cases starts with
        | call _ => exact h.batch
        | batch _ hbatch =>
            exact fun hsf hd tx' htx => h.batch hsf hd tx' (hbatch ▸ List.mem_cons_of_mem _ htx)
      · intro hsf haccept d hd hc
        cases starts with
        | call _ => exact hok ⟨hsf, hde, haccept, d, hd, hc⟩
        | batch _ hbatch => exact h.batch hsf hde tx (hbatch ▸ List.mem_cons_self) d hd hc
  | @flushDeferred e st' ready hde flushed =>
      exact ProgressInv.flushed { st.startCall [] with sender := st.sender.takeDeferred }
        (fun _ => dependInv_of_empty rfl) (batch_of_ready st ready) (fun _ => rfl)
        (fun hne => absurd rfl hne) flushed
  | flush ready hde =>
      exact ⟨h.queue, h.batch, fun _ hc => (nomatch hc), fun _ => batch_of_ready st ready,
        fun _ hc => (nomatch hc), fun hc => (nomatch hc)⟩
  | setup ready => exact h.startSetup ready _
  | received hat hr =>
      exact h.sameQueue (sameQueue_receive hr) fun hc => by rw [hat] at hc; cases hc
  | @drained _ frame hat hr =>
      exact h.control (fun tx hc => by rw [hat]; cases frame <;> exact hc)
        (fun hc => by rw [hat]; cases frame <;> exact hc) (fun _ hc => (nomatch hc))
        (fun hc => (nomatch hc))
  | @delayed _ frame hat =>
      exact h.control (fun tx hc => by rw [hat]; cases frame <;> exact hc)
        (fun hc => by rw [hat]; cases frame <;> exact hc) (fun _ hc => (nomatch hc))
        (fun hc => (nomatch hc))
  | dispatched hat hd => exact h.dispatched hat hd.entry
  | @failed _ frame s queueId e hat turn =>
      exact ProgressInv.pumpErr ({ st with sender := s }.recordRaised e) h.flush hat
  | @capacityEntered _ tx st' hat turn entered =>
      exact ProgressInv.entered st h.queue h.batch (h.entering tx (by rw [hat]; rfl)) entered
  | @capacityAwaits _ tx hat turn hfull =>
      refine h.control (fun tx' hc => by rw [hat]; exact hc) (fun hc => (nomatch hc))
        (fun _ hc => (nomatch hc)) fun _ => hinv.expects_of_stopped h.queue turn ?_
      rintro hnil
      have : 1 ≤ cfg.maxBuffered := le_max_of_le_left (le_max_right _ _)
      rw [hnil, List.length_nil] at hfull
      omega
  | sent hat turn => exact h.finish _
  | flushed hat turn flushed =>
      exact ProgressInv.flushed st h.queue (h.flush (by rw [hat]; rfl)) (fun hne => absurd rfl hne)
        (hinv.expects_of_stopped h.queue turn) flushed
  | @capacityReceived _ tx s st' hat hr entered =>
      have h' := (h.control (c := .draining (.capacity tx)) (fun _ hc => by rw [hat]; exact hc)
        (fun hc => (nomatch hc)) (fun _ hc => (nomatch hc)) (fun hc => (nomatch hc))).sameQueue
        (sameQueue_receive hr) (fun hc => (nomatch hc))
      exact ProgressInv.entered { st with sender := s } h'.queue h'.batch (h'.entering tx rfl)
        entered
  | @flushReceived _ s hat hr =>
      exact (h.control (c := .draining .flush) (fun _ hc => (nomatch hc))
        (fun _ => by rw [hat]; rfl) (fun _ hc => (nomatch hc)) (fun hc => (nomatch hc))).sameQueue
        (sameQueue_receive hr) (fun hc => (nomatch hc))
  | @failedFlushReceived _ e s st' hat hr flushed =>
      have hs := sameQueue_receive hr
      have hpend : s.pending = [] := hs.pending.trans (h.failedFlush e hat)
      exact ProgressInv.flushed { st with sender := s } (fun _ => dependInv_of_empty hpend)
        (h.flush (by rw [hat]; rfl)) (fun _ => hpend) (fun hne => absurd hpend hne) flushed
  | joined hat _ => exact h.finish _
  | advance hw hadv =>
      exact h.sameQueue (sameQueue_setWorker hw (Worker.advance_cases hadv).tx _) h.awaits
  | emit hw hout =>
      refine h.sameQueue (sameQueue_setWorker hw ?_ _) h.awaits
      rfl

end Preservation

/-- What waiting means for the sender: it never waits in vain. -/
structure NeverStuck (st : State) : Prop where
  /-- A queue of which nothing is ready waits for something in flight. -/
  expects : st.sender.pending ≠ [] → st.sender.pendingFailure = none →
    st.sender.setupFailure = none → st.sender.nextReadyIndex = none → st.sender.Expects
  /-- `wait_for_buffer_capacity` and `flush` wait for a message that is there or can still come,
      unless a worker died with keys in hand. -/
  comes : st.control.awaits = true → (∀ w ∈ st.sender.workers, w.lost = []) →
    st.sender.completions ≠ [] ∨ ∃ w ∈ st.sender.workers, w.finished = false
  /-- What a queued transaction depends on completed, is in flight, or is queued ahead of it. -/
  dependencies : st.sender.setupFailure = none → ∀ i p, st.sender.pending[i]? = some p →
    ∀ d ∈ p.dependsOn,
      d ∈ st.sender.completedSetup ∨ st.sender.InFlight d ∨ st.sender.QueuedAhead i d

theorem progressInv_init (cfg : Config) : ProgressInv cfg {} :=
  .plain (fun _ => dependInv_of_empty rfl) (fun _ _ _ htx => absurd htx List.not_mem_nil) rfl rfl rfl

theorem progressInv_run {cfg : Config} {st : State} {ls : List Label}
    (h : (senderSystem cfg).Run (fun st l => ¬ RevivesCancelled cfg st l) {} ls st) :
    ProgressInv cfg st ∧ st.sender.Inv := by
  refine h.invariant (I := fun st => ProgressInv cfg st ∧ st.sender.Inv)
    (fun st l st' hok hI hst => ?_) ⟨progressInv_init cfg, Sender.inv_init⟩
  have hm := senderStep_move hst
  exact ⟨hI.1.move hI.2 hok hm, hI.2.steps hm.steps⟩

namespace Sample

/-- The main task runs alone for `n` steps and authentication fails in the last one. -/
def turnsUnauthenticated (n : ℕ) : List Label :=
  turns (n - 1) ++ [.main { auth := fun _ => false }]

/-- A workload transaction holds key 1, setup transaction `a` waits for the key, and a second workload
    transaction fails authentication: the queue is cleared and `a` is dropped. After the first
    transaction has ended, setup transaction `b`, which depends on `a`, is sent and queued. -/
def reviving : List Label :=
  [.send (workload [key 1])] ++ turns 4 ++ [.send (setup "a" [] [key 1])] ++ turns 2 ++
    [.send (workload [key 2])] ++ turnsUnauthenticated 2 ++
    [.worker 0 (.signed true), .worker 0 (.submitted .accepted), .emit 0] ++
    [.send (setup "b" ["a"] [key 3])] ++ turns 3 ++ [.flush] ++ turns 2

end Sample

end TxGen
