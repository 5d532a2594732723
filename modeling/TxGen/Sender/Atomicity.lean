import TxGen.Sender.History

set_option autoImplicit false

/-! # What `send` promises its caller

An error from `send` means that the transaction is not and will never be on the wire; success means
that it is there or in the queue, and if it is dropped from the queue, a failure that `pump` raised in
a later call tells the caller. No raised failure is lost: when the call that ran `pump` cannot return
it, because its own transaction went out, the next call does.

The bookkeeping of calls (`Calls`) is related to the queue, the workers and the place of the main task
inside a call, seen as one of four phases. -/

namespace TxGen

open Sender

/-- Where the main task is inside a call. -/
inductive Phase
  | idle
  /-- `send(tx)`, before its transaction is queued -/
  | entering (tx : GeneratedTx)
  /-- `send`, after queuing its transaction as `queueId` -/
  | sending (queueId : ℕ)
  /-- `flush`, without an error so far -/
  | flushing
  /-- the call is going to return `error` -/
  | failing (error : SendError)

def Frame.phase : Frame → Phase
  | .capacity tx => .entering tx
  | .send queueId => .sending queueId
  | .flush => .flushing

def Control.phase : Control → Phase
  | .idle => .idle
  | .draining frame | .deciding frame => frame.phase
  | .awaitCapacity tx => .entering tx
  | .awaitFlush none | .joining none => .flushing
  | .awaitFlush (some e) | .joining (some e) => .failing e

/-- The first call that has not returned. -/
def Phase.open (started : ℕ) : Phase → ℕ
  | .idle => started + 1
  | _ => started

/-- The first call that has not queued its transaction. -/
def Phase.unqueued (started : ℕ) : Phase → ℕ
  | .entering _ | .flushing => started
  | _ => started + 1

/-- What has become of an accepted transaction. -/
def Accounted (s : Sender) (c : Calls) (ph : Phase) (a : Accepted) : Prop :=
  s.DispatchedTx a.entry ∨ a.entry ∈ s.pending ∨ (∃ e, (a.call, .error e) ∈ c.outcomes) ∨
    (∃ k e, a.call < k ∧ (k, e) ∈ c.raised) ∨ (a.call = c.started ∧ ∃ e, ph = .failing e)

/-- The failure `e` raised in call `k` was returned by that call or the next one, or will be: it is
    deferred, or it is what the current call returns. -/
def Reported (s : Sender) (c : Calls) (ph : Phase) (k : ℕ) (e : SendError) : Prop :=
  (k, .error e) ∈ c.outcomes ∨ (k + 1, .error e) ∈ c.outcomes ∨
    (s.deferredError = some e ∧ k = c.started) ∨
    (ph = .failing e ∧ (k = c.started ∨ k + 1 = c.started))

structure AtomInv (s : Sender) (c : Calls) (ph : Phase) : Prop where
  outcomes_lt : ∀ o ∈ c.outcomes, o.1 < ph.open c.started
  outcomes_sorted : c.outcomes.Pairwise fun o o' => o.1 < o'.1
  calls_lt : ∀ a ∈ s.log.accepted, a.call < ph.unqueued c.started
  calls_sorted : s.log.accepted.Pairwise fun a b => a.call < b.call
  current : ∀ q, ph = .sending q → ∃ a ∈ s.log.accepted, a.call = c.started ∧ a.entry.queueId = q
  failing : ∀ e, ph = .failing e → ∀ a ∈ s.log.accepted, a.call = c.started →
    a.entry ∉ s.pending ∧ ¬ s.DispatchedTx a.entry
  /-- a deferred error waits between two calls, with an empty queue -/
  deferred : s.deferredError ≠ none → ph = .idle ∧ s.pending = []
  sends_le : ∀ x ∈ c.sends, x.1 ≤ c.started
  sends : ∀ x ∈ c.sends, (∃ a ∈ s.log.accepted, a.call = x.1 ∧ a.source = x.2) ∨
    (∃ e, (x.1, .error e) ∈ c.outcomes) ∨
    (x.1 = c.started ∧ (ph = .entering x.2 ∨ ∃ e, ph = .failing e))
  accounted : ∀ a ∈ s.log.accepted, Accounted s c ph a
  refused : ∀ a ∈ s.log.accepted, ∀ e, (a.call, .error e) ∈ c.outcomes →
    a.entry ∉ s.pending ∧ ¬ s.DispatchedTx a.entry
  reported : ∀ x ∈ c.raised, Reported s c ph x.1 x.2

/-! ## Steps inside a call -/

/-- Between `s` and `s'` accepted transactions stay queued or go to a worker, and no error is deferred
    or taken. -/
structure Sender.Carries (s s' : Sender) : Prop where
  accepted : s'.log.accepted = s.log.accepted
  deferred : s'.deferredError = s.deferredError
  pending : ∀ p ∈ s'.pending, p ∈ s.pending
  kept : ∀ p ∈ s.pending, p ∈ s'.pending ∨ s'.DispatchedTx p
  dispatched : ∀ p, s.DispatchedTx p → s'.DispatchedTx p
  fresh : ∀ p, s'.DispatchedTx p → s.DispatchedTx p ∨ p ∈ s.pending

theorem AtomInv.carries {s s' : Sender} {c : Calls} {ph : Phase} (h : AtomInv s c ph)
    (hc : s.Carries s') : AtomInv s' c ph where
  outcomes_lt := h.outcomes_lt
  outcomes_sorted := h.outcomes_sorted
  calls_lt := hc.accepted ▸ h.calls_lt
  calls_sorted := hc.accepted ▸ h.calls_sorted
  current := hc.accepted ▸ h.current
  failing := by
    rw [hc.accepted]
    intro e hph a ha hcall
    obtain ⟨hpend, hdisp⟩ := h.failing e hph a ha hcall
    exact ⟨fun hp => hpend (hc.pending _ hp), fun hd => (hc.fresh _ hd).elim hdisp hpend⟩
  deferred := by
    intro hd
    obtain ⟨hidle, hempty⟩ := h.deferred (hc.deferred ▸ hd)
    refine ⟨hidle, List.eq_nil_iff_forall_not_mem.2 fun p hp => ?_⟩
    exact absurd (hempty ▸ hc.pending p hp) List.not_mem_nil
  sends_le := h.sends_le
  sends := hc.accepted ▸ h.sends
  accounted := by
    rw [hc.accepted]
    intro a ha
    rcases h.accounted a ha with hd | hp | hrest
    · exact Or.inl (hc.dispatched _ hd)
    · rcases hc.kept _ hp with hp | hd
      · exact Or.inr (Or.inl hp)
      · exact Or.inl hd
    · exact Or.inr (Or.inr hrest)
  refused := by
    rw [hc.accepted]
    intro a ha e he
    obtain ⟨hpend, hdisp⟩ := h.refused a ha e he
    exact ⟨fun hp => hpend (hc.pending _ hp), fun hd => (hc.fresh _ hd).elim hdisp hpend⟩
  reported := by
    intro x hx
    unfold Reported
    rw [hc.deferred]
    exact h.reported x hx

theorem Sender.Carries.of_same {s s' : Sender} (accepted : s'.log.accepted = s.log.accepted)
    (deferred : s'.deferredError = s.deferredError) (pending : s'.pending = s.pending)
    (workers : s'.workers.map Worker.tx = s.workers.map Worker.tx) : s.Carries s' := by
  have hd : ∀ p, s'.DispatchedTx p ↔ s.DispatchedTx p := by
    intro p
    unfold DispatchedTx
    rw [← List.mem_map, ← List.mem_map, workers]
  exact ⟨accepted, deferred, fun p hp => pending ▸ hp, fun p hp => Or.inl (pending ▸ hp),
    fun p => (hd p).2, fun p hp => Or.inl ((hd p).1 hp)⟩

theorem carries_receive {s s' : Sender} (h : s.receive = some s') : s.Carries s' := by
  obtain ⟨q, m, rest, -, rfl⟩ := receive_some h
  cases m with
  | release keys => exact .of_same rfl rfl rfl rfl
  | setupFinished id success => cases success <;> exact .of_same rfl rfl rfl rfl
  | pendingFinished r => exact .of_same rfl rfl rfl rfl

theorem carries_setWorker {s : Sender} {index : ℕ} {w w' : Worker}
    (hw : s.workers[index]? = some w) (htx : w'.tx = w.tx) (cs : List (ℕ × Completion)) :
    s.Carries { s with workers := s.workers.set index w', completions := cs } :=
  .of_same rfl rfl rfl (List.map_set_of_eq Worker.tx hw htx)

theorem carries_dispatch {cfg : Config} {s : Sender} {index : ℕ} {p : PendingTx}
    (hp : s.pending[index]? = some p) :
    s.Carries (((s.removePending index).activateKeys p).dispatch cfg p) := by
  have hnew : (((s.removePending index).activateKeys p).dispatch cfg p).DispatchedTx p :=
    ⟨_, List.mem_append_right _ (List.mem_singleton_self _), Worker.spawn_tx p _⟩
  refine ⟨rfl, rfl, fun q hq => (List.eraseIdx_sublist _ _).subset hq, fun q hq => ?_,
    fun q ⟨w, hw, htx⟩ => ⟨w, List.mem_append_left _ hw, htx⟩, ?_⟩
  · obtain ⟨j, hj⟩ := List.mem_iff_getElem?.1 hq
    by_cases hij : j = index
    · subst hij
      obtain rfl := Option.some.inj (hj.symm.trans hp)
      exact Or.inr hnew
    · refine Or.inl (List.mem_eraseIdx_iff_getElem?.2 ⟨j, hij, hj⟩)
  · rintro q ⟨w, hw, rfl⟩
    rcases List.mem_append.1 hw with hw | hw
    · exact Or.inl ⟨w, hw, rfl⟩
    · obtain rfl := List.mem_singleton.1 hw
      rw [Worker.spawn_tx]
      exact Or.inr (List.mem_of_getElem? hp)

/-! ## Starting a call -/

/-- The bookkeeping of a call that starts. -/
def Calls.start (c : Calls) (txs : List GeneratedTx) : Calls :=
  { c with started := c.started + 1, sends := c.sends ++ txs.map (c.started + 1, ·) }

section Start

variable {s : Sender} {c : Calls} (txs : List GeneratedTx)

theorem AtomInv.sends_le_start (h : AtomInv s c .idle) :
    ∀ x ∈ (c.start txs).sends, x.1 ≤ (c.start txs).started := by
  intro x hx
  rcases List.mem_append.1 hx with hx | hx
  · exact (h.sends_le x hx).trans (Nat.le_succ _)
  · obtain ⟨tx, -, rfl⟩ := List.mem_map.1 hx
    exact le_rfl

theorem AtomInv.sends_start (h : AtomInv s c .idle) {ph : Phase}
    (hph : ∀ tx ∈ txs, ph = .entering tx ∨ ∃ e, ph = .failing e) :
    ∀ x ∈ (c.start txs).sends, (∃ a ∈ s.log.accepted, a.call = x.1 ∧ a.source = x.2) ∨
      (∃ e, (x.1, .error e) ∈ c.outcomes) ∨
      (x.1 = (c.start txs).started ∧ (ph = .entering x.2 ∨ ∃ e, ph = .failing e)) := by
  intro x hx
  rcases List.mem_append.1 hx with hx | hx
  · rcases h.sends x hx with ha | he | ⟨-, hidle | ⟨e, hidle⟩⟩
    · exact Or.inl ha
    · exact Or.inr (Or.inl he)
    · cases hidle
    · cases hidle
  · obtain ⟨tx, htx, rfl⟩ := List.mem_map.1 hx
    exact Or.inr (Or.inr ⟨rfl, hph tx htx⟩)

theorem AtomInv.accounted_start (h : AtomInv s c .idle) (ph : Phase) :
    ∀ a ∈ s.log.accepted, Accounted s (c.start txs) ph a := by
  intro a ha
  rcases h.accounted a ha with hd | hp | he | hr | ⟨-, e, hidle⟩
  · exact Or.inl hd
  · exact Or.inr (Or.inl hp)
  · exact Or.inr (Or.inr (Or.inl he))
  · exact Or.inr (Or.inr (Or.inr (Or.inl hr)))
  · cases hidle

/-- A call starts and no error is deferred. -/
theorem AtomInv.start (h : AtomInv s c .idle) (hd : s.deferredError = none) {ph : Phase}
    (hph : (∃ tx, ph = .entering tx ∧ txs = [tx]) ∨ ph = .flushing ∧ txs = []) :
    AtomInv s (c.start txs) ph := by
  have hopen : ph.open (c.start txs).started = c.started + 1 := by
    rcases hph with ⟨tx, rfl, -⟩ | ⟨rfl, -⟩ <;> rfl
  have hunqueued : ph.unqueued (c.start txs).started = c.started + 1 := by
    rcases hph with ⟨tx, rfl, -⟩ | ⟨rfl, -⟩ <;> rfl
  refine ⟨hopen ▸ h.outcomes_lt, h.outcomes_sorted, hunqueued ▸ h.calls_lt, h.calls_sorted,
    fun q hq => ?_, fun e he => ?_, fun hn => absurd hd hn, h.sends_le_start txs,
    h.sends_start txs fun tx htx => ?_, h.accounted_start txs ph, h.refused, fun x hx => ?_⟩
  · rcases hph with ⟨tx, rfl, -⟩ | ⟨rfl, -⟩ <;> cases hq
  · rcases hph with ⟨tx, rfl, -⟩ | ⟨rfl, -⟩ <;> cases he
  · rcases hph with ⟨tx', rfl, rfl⟩ | ⟨-, rfl⟩
    · exact Or.inl (List.mem_singleton.1 htx ▸ rfl)
    · exact absurd htx List.not_mem_nil
  · rcases h.reported x hx with ho | ho | ⟨hde, -⟩ | ⟨hidle, -⟩
    · exact Or.inl ho
    · exact Or.inr (Or.inl ho)
    · rw [hd] at hde
      cases hde
    · cases hidle

/-- A call starts and takes the deferred error. -/
theorem AtomInv.startDeferred (h : AtomInv s c .idle) {e : SendError}
    (hd : s.deferredError = some e) : AtomInv s.takeDeferred (c.start txs) (.failing e) := by
  have hempty := (h.deferred (hd ▸ Option.some_ne_none e)).2
  have hnew : ∀ a ∈ s.log.accepted, a.call ≠ c.started + 1 := fun a ha =>
    (h.calls_lt a ha).ne
  refine ⟨h.outcomes_lt, h.outcomes_sorted, fun a ha => (h.calls_lt a ha).trans (Nat.lt_succ_self _),
    h.calls_sorted, fun q hq => ?_, fun e' _ a ha hcall => absurd hcall (hnew a ha),
    fun hn => absurd rfl hn, h.sends_le_start txs, h.sends_start txs fun _ _ => Or.inr ⟨e, rfl⟩,
    fun a ha => ?_, fun a ha e' he => ?_, fun x hx => ?_⟩
  · cases hq
  · rcases h.accounted_start txs (.failing e) a ha with hdisp | hp | hrest
    · exact Or.inl hdisp
    · exact absurd (hempty ▸ hp) List.not_mem_nil
    · exact Or.inr (Or.inr hrest)
  · exact ⟨List.not_mem_nil, (h.refused a ha e' he).2⟩
  · rcases h.reported x hx with ho | ho | ⟨hde, hk⟩ | ⟨hidle, -⟩
    · exact Or.inl ho
    · exact Or.inr (Or.inl ho)
    · obtain rfl := Option.some.inj (hd.symm.trans hde)
      exact Or.inr (Or.inr (Or.inr ⟨rfl, Or.inr (congrArg (· + 1) hk)⟩))
    · cases hidle

end Start

/-! ## Queuing -/

section Inside

variable {s s' : Sender} {c : Calls} {ph : Phase}

theorem AtomInv.queue {tx : GeneratedTx} (h : AtomInv s c (.entering tx)) (hacc : s.AcceptedInv)
    (he : s.Enqueued c.started tx s') : AtomInv s' c (.sending s.nextQueueId) := by
  obtain ⟨sub, inc, known, -, rfl, -⟩ := he
  have hpend : ∀ {p}, p ∈ s.pending → p ∈ s.pending ++ [entryOf s.nextQueueId tx sub inc] :=
    fun hp => List.mem_append_left _ hp
  have hnew : ∀ a ∈ s.log.accepted, a.call < c.started := h.calls_lt
  refine ⟨h.outcomes_lt, h.outcomes_sorted, fun a ha => ?_, ?_, fun q hq => ?_,
    fun e hf => ?_, fun hn => ?_, h.sends_le, fun x hx => ?_, fun a ha => ?_, fun a ha e he => ?_,
    fun x hx => ?_⟩
  · rcases List.mem_append.1 ha with ha | ha
    · exact (hnew a ha).trans (Nat.lt_succ_self _)
    · obtain rfl := List.mem_singleton.1 ha
      exact Nat.lt_succ_self _
  · refine List.pairwise_append.2 ⟨h.calls_sorted, List.pairwise_singleton _ _, fun a ha b hb => ?_⟩
    obtain rfl := List.mem_singleton.1 hb
    exact hnew a ha
  · obtain rfl : s.nextQueueId = q := by injection hq
    exact ⟨_, List.mem_append_right _ (List.mem_singleton_self _), rfl, rfl⟩
  · cases hf
  · obtain ⟨hidle, -⟩ := h.deferred hn
    cases hidle
  · rcases h.sends x hx with ⟨a, ha, hax⟩ | he | ⟨hstart, htx | ⟨e, hf⟩⟩
    · exact Or.inl ⟨a, List.mem_append_left _ ha, hax⟩
    · exact Or.inr (Or.inl he)
    · refine Or.inl ⟨_, List.mem_append_right _ (List.mem_singleton_self _), hstart.symm, ?_⟩
      injection htx
    · cases hf
  · rcases List.mem_append.1 ha with ha | ha
    · rcases h.accounted a ha with hd | hp | he | hr | ⟨-, e, hf⟩
      · exact Or.inl hd
      · exact Or.inr (Or.inl (hpend hp))
      · exact Or.inr (Or.inr (Or.inl he))
      · exact Or.inr (Or.inr (Or.inr (Or.inl hr)))
      · cases hf
    · obtain rfl := List.mem_singleton.1 ha
      exact Or.inr (Or.inl (List.mem_append_right _ (List.mem_singleton_self _)))
  · rcases List.mem_append.1 ha with ha | ha
    · obtain ⟨hpend', hdisp⟩ := h.refused a ha e he
      refine ⟨fun hp => ?_, hdisp⟩
      rcases List.mem_append.1 hp with hp | hp
      · exact hpend' hp
      · have := hacc.lt_next a ha
        rw [List.mem_singleton.1 hp] at this
        exact absurd this (lt_irrefl _)
    · obtain rfl := List.mem_singleton.1 ha
      exact absurd (h.outcomes_lt _ he) (lt_irrefl _)
  · rcases h.reported x hx with ho | ho | hd | ⟨hf, -⟩
    · exact Or.inl ho
    · exact Or.inr (Or.inl ho)
    · exact Or.inr (Or.inr (Or.inl hd))
    · cases hf

/-! ## Errors and returns -/

/-- `send` refuses its transaction before queuing it. -/
theorem AtomInv.refuse {tx : GeneratedTx} (h : AtomInv s c (.entering tx)) (e : SendError) :
    AtomInv s c (.failing e) := by
  refine ⟨h.outcomes_lt, h.outcomes_sorted, fun a ha => (h.calls_lt a ha).trans (Nat.lt_succ_self _),
    h.calls_sorted, fun q hq => ?_, fun _ _ a ha hcall => absurd hcall (h.calls_lt a ha).ne,
    fun hn => ?_, h.sends_le, fun x hx => ?_, fun a ha => ?_, h.refused, fun x hx => ?_⟩
  · cases hq
  · cases (h.deferred hn).1
  · rcases h.sends x hx with ha | he | ⟨hstart, -⟩
    · exact Or.inl ha
    · exact Or.inr (Or.inl he)
    · exact Or.inr (Or.inr ⟨hstart, Or.inr ⟨e, rfl⟩⟩)
  · rcases h.accounted a ha with hd | hp | he | hr | ⟨-, e', hf⟩
    · exact Or.inl hd
    · exact Or.inr (Or.inl hp)
    · exact Or.inr (Or.inr (Or.inl he))
    · exact Or.inr (Or.inr (Or.inr (Or.inl hr)))
    · cases hf
  · rcases h.reported x hx with ho | ho | hd | ⟨hf, -⟩
    · exact Or.inl ho
    · exact Or.inr (Or.inl ho)
    · exact Or.inr (Or.inr (Or.inl hd))
    · cases hf

/-- `pump` is running. -/
def Phase.pumping : Phase → Bool
  | .entering _ | .sending _ | .flushing => true
  | _ => false

/-- Inside `pump` nothing is deferred, no call after the current one has left a trace, and the
    current one has not returned. -/
theorem AtomInv.pumping (h : AtomInv s c ph) (hph : ph.pumping = true) :
    s.deferredError = none ∧ (∀ o ∈ c.outcomes, o.1 < c.started) ∧
      (∀ a ∈ s.log.accepted, a.call < c.started + 1) ∧ ∀ e, ph ≠ .failing e := by
  refine ⟨?_, ?_, ?_, ?_⟩
  · by_contra hn
    rw [(h.deferred hn).1] at hph
    cases hph
  · cases ph with
    | idle => cases hph
    | failing e => cases hph
    | _ => exact h.outcomes_lt
  · intro a ha
    refine (h.calls_lt a ha).trans_le ?_
    cases ph with
    | entering tx => exact Nat.le_succ _
    | flushing => exact Nat.le_succ _
    | _ => exact le_rfl
  · rintro e rfl
    cases hph

/-- What is left of the bookkeeping of failures when `pump` raises another one. -/
theorem AtomInv.reported_pumping (h : AtomInv s c ph) (hph : ph.pumping = true) :
    ∀ x ∈ c.raised, (x.1, .error x.2) ∈ c.outcomes ∨ (x.1 + 1, .error x.2) ∈ c.outcomes := by
  obtain ⟨hd, -, -, hf⟩ := h.pumping hph
  intro x hx
  rcases h.reported x hx with ho | ho | ⟨hde, -⟩ | ⟨hf', -⟩
  · exact Or.inl ho
  · exact Or.inr ho
  · rw [hd] at hde
    cases hde
  · exact absurd hf' (hf _)

/-- The queue is cleared and nothing else changes that the bookkeeping looks at. -/
structure Sender.Cleared (s s' : Sender) : Prop where
  accepted : s'.log.accepted = s.log.accepted
  pending : s'.pending = []
  workers : s'.workers = s.workers

theorem Sender.Cleared.dispatched (h : s.Cleared s') (p : PendingTx) :
    s'.DispatchedTx p ↔ s.DispatchedTx p := by
  unfold DispatchedTx
  rw [h.workers]

/-- `pump` raises a failure and the call is going to return it: everything queued is dropped, and the
    transaction of the call itself, if it was queued, is not on the wire. -/
theorem AtomInv.fail (h : AtomInv s c ph) (hph : ph.pumping = true) (hc : s.Cleared s')
    (hde : s'.deferredError = s.deferredError) (e : SendError)
    (hcur : ∀ a ∈ s.log.accepted, a.call = c.started → ¬ s.DispatchedTx a.entry) :
    AtomInv s' { c with raised := c.raised ++ [(c.started, e)] } (.failing e) := by
  obtain ⟨hd, ho, ha, hf⟩ := h.pumping hph
  rw [hd] at hde
  refine ⟨ho, h.outcomes_sorted, hc.accepted ▸ ha, hc.accepted ▸ h.calls_sorted,
    fun q hq => ?_, fun _ _ a hin hcall => ?_, fun hn => absurd hde hn, h.sends_le,
    fun x hx => ?_, fun a hin => ?_, fun a hin e' he => ?_, fun x hx => ?_⟩
  · cases hq
  · rw [hc.accepted] at hin
    rw [hc.pending, hc.dispatched]
    exact ⟨List.not_mem_nil, hcur a hin hcall⟩
  · rw [hc.accepted]
    rcases h.sends x hx with hx | hx | ⟨hstart, -⟩
    · exact Or.inl hx
    · exact Or.inr (Or.inl hx)
    · exact Or.inr (Or.inr ⟨hstart, Or.inr ⟨e, rfl⟩⟩)
  · rw [hc.accepted] at hin
    rcases Nat.lt_or_eq_of_le (Nat.lt_succ_iff.1 (ha a hin)) with hlt | heq
    · exact Or.inr (Or.inr (Or.inr (Or.inl ⟨_, e, hlt,
        List.mem_append_right _ (List.mem_singleton_self _)⟩)))
    · exact Or.inr (Or.inr (Or.inr (Or.inr ⟨heq, e, rfl⟩)))
  · rw [hc.accepted] at hin
    rw [hc.pending, hc.dispatched]
    exact ⟨List.not_mem_nil, (h.refused a hin e' he).2⟩
  · rcases List.mem_append.1 hx with hx | hx
    · exact (h.reported_pumping hph x hx).elim Or.inl fun ho => Or.inr (Or.inl ho)
    · obtain rfl := List.mem_singleton.1 hx
      exact Or.inr (Or.inr (Or.inr ⟨rfl, Or.inl rfl⟩))

/-- The outcome of the current call is the last one. -/
theorem AtomInv.outcomes_append (h : ∀ o ∈ c.outcomes, o.1 < c.started)
    (hsorted : c.outcomes.Pairwise fun o o' => o.1 < o'.1) (r : Except SendError Unit) :
    (∀ o ∈ c.outcomes ++ [(c.started, r)], o.1 < c.started + 1) ∧
      (c.outcomes ++ [(c.started, r)]).Pairwise fun o o' => o.1 < o'.1 := by
  constructor
  · intro o ho
    rcases List.mem_append.1 ho with ho | ho
    · exact (h o ho).trans (Nat.lt_succ_self _)
    · obtain rfl := List.mem_singleton.1 ho
      exact Nat.lt_succ_self _
  · refine List.pairwise_append.2 ⟨hsorted, List.pairwise_singleton _ _, fun o ho o' ho' => ?_⟩
    obtain rfl := List.mem_singleton.1 ho'
    exact h o ho

theorem mem_outcomes_ok {o : List (ℕ × Except SendError Unit)} {k n : ℕ} {e : SendError}
    (h : (k, .error e) ∈ o ++ [(n, .ok ())]) : (k, .error e) ∈ o := by
  simpa using h

/-- `pump` raises a failure, but the transaction of the call is on the wire: the failure is deferred
    and the call returns `Ok`. -/
theorem AtomInv.defer {q : ℕ} (h : AtomInv s c (.sending q)) (hc : s.Cleared s') {e : SendError}
    (hde : s'.deferredError = some e)
    (hcur : ∀ a ∈ s.log.accepted, a.call = c.started → s.DispatchedTx a.entry) :
    AtomInv s' { c with
      raised := c.raised ++ [(c.started, e)]
      outcomes := c.outcomes ++ [(c.started, .ok ())] } .idle := by
  obtain ⟨-, ho, ha, -⟩ := h.pumping rfl
  obtain ⟨hlt, hsorted⟩ := AtomInv.outcomes_append ho h.outcomes_sorted (.ok ())
  have hold : ∀ {k r}, (k, r) ∈ c.outcomes → (k, r) ∈ c.outcomes ++ [(c.started, .ok ())] :=
    fun hin => List.mem_append_left _ hin
  refine ⟨hlt, hsorted, hc.accepted ▸ ha, hc.accepted ▸ h.calls_sorted, fun q hq => ?_,
    fun _ hf => ?_, fun _ => ⟨rfl, hc.pending⟩, h.sends_le, fun x hx => ?_, fun a hin => ?_,
    fun a hin e' he => ?_, fun x hx => ?_⟩
  · cases hq
  · cases hf
  · rw [hc.accepted]
    rcases h.sends x hx with hx | ⟨e', he⟩ | ⟨-, hph | ⟨e', hph⟩⟩
    · exact Or.inl hx
    · exact Or.inr (Or.inl ⟨e', hold he⟩)
    · cases hph
    · cases hph
  · rw [hc.accepted] at hin
    rcases Nat.lt_or_eq_of_le (Nat.lt_succ_iff.1 (ha a hin)) with hlt | heq
    · exact Or.inr (Or.inr (Or.inr (Or.inl ⟨_, e, hlt,
        List.mem_append_right _ (List.mem_singleton_self _)⟩)))
    · exact Or.inl ((hc.dispatched _).2 (hcur a hin heq))
  · rw [hc.accepted] at hin
    rw [hc.pending, hc.dispatched]
    exact ⟨List.not_mem_nil, (h.refused a hin e' (mem_outcomes_ok he)).2⟩
  · rcases List.mem_append.1 hx with hx | hx
    · exact (h.reported_pumping rfl x hx).elim (fun ho => Or.inl (hold ho))
        fun ho => Or.inr (Or.inl (hold ho))
    · obtain rfl := List.mem_singleton.1 hx
      exact Or.inr (Or.inr (Or.inl ⟨hde, rfl⟩))

/-- The call returns without a failure. -/
theorem AtomInv.finishOk (h : AtomInv s c ph) (hph : ph = .flushing ∨ ∃ q, ph = .sending q) :
    AtomInv s { c with outcomes := c.outcomes ++ [(c.started, .ok ())] } .idle := by
  have hpump : ph.pumping = true := by rcases hph with rfl | ⟨q, rfl⟩ <;> rfl
  obtain ⟨hd, ho, ha, hf⟩ := h.pumping hpump
  obtain ⟨hlt, hsorted⟩ := AtomInv.outcomes_append ho h.outcomes_sorted (.ok ())
  have hold : ∀ {k r}, (k, r) ∈ c.outcomes → (k, r) ∈ c.outcomes ++ [(c.started, .ok ())] :=
    fun hin => List.mem_append_left _ hin
  refine ⟨hlt, hsorted, ha, h.calls_sorted, fun q hq => ?_, fun _ hf => ?_,
    fun hn => absurd hd hn, h.sends_le, fun x hx => ?_, fun a hin => ?_,
    fun a hin e' he => h.refused a hin e' (mem_outcomes_ok he), fun x hx => ?_⟩
  · cases hq
  · cases hf
  · rcases h.sends x hx with hx | ⟨e', he⟩ | ⟨-, htx | ⟨e', hfail⟩⟩
    · exact Or.inl hx
    · exact Or.inr (Or.inl ⟨e', hold he⟩)
    · rcases hph with rfl | ⟨q, rfl⟩ <;> cases htx
    · exact absurd hfail (hf e')
  · rcases h.accounted a hin with hdisp | hp | ⟨e', he⟩ | hr | ⟨-, e', hfail⟩
    · exact Or.inl hdisp
    · exact Or.inr (Or.inl hp)
    · exact Or.inr (Or.inr (Or.inl ⟨e', hold he⟩))
    · exact Or.inr (Or.inr (Or.inr (Or.inl hr)))
    · exact absurd hfail (hf e')
  · exact (h.reported_pumping hpump x hx).elim (fun ho => Or.inl (hold ho))
      fun ho => Or.inr (Or.inl (hold ho))

/-- The call returns its failure. -/
theorem AtomInv.finishError {e : SendError} (h : AtomInv s c (.failing e)) :
    AtomInv s { c with outcomes := c.outcomes ++ [(c.started, .error e)] } .idle := by
  obtain ⟨hlt, hsorted⟩ := AtomInv.outcomes_append h.outcomes_lt h.outcomes_sorted (.error e)
  have hnew : (c.started, .error e) ∈ c.outcomes ++ [(c.started, .error e)] :=
    List.mem_append_right _ (List.mem_singleton_self _)
  have hold : ∀ {k r}, (k, r) ∈ c.outcomes → (k, r) ∈ c.outcomes ++ [(c.started, .error e)] :=
    fun hin => List.mem_append_left _ hin
  have hd : s.deferredError = none := by
    by_contra hn
    cases (h.deferred hn).1
  refine ⟨hlt, hsorted, h.calls_lt, h.calls_sorted, fun q hq => ?_, fun _ hf => ?_,
    fun hn => absurd hd hn, h.sends_le, fun x hx => ?_, fun a hin => ?_,
    fun a hin e' he => ?_, fun x hx => ?_⟩
  · cases hq
  · cases hf
  · rcases h.sends x hx with hx | ⟨e', he⟩ | ⟨hstart, -⟩
    · exact Or.inl hx
    · exact Or.inr (Or.inl ⟨e', hold he⟩)
    · exact Or.inr (Or.inl ⟨e, hstart ▸ hnew⟩)
  · rcases h.accounted a hin with hdisp | hp | ⟨e', he⟩ | hr | ⟨hstart, -⟩
    · exact Or.inl hdisp
    · exact Or.inr (Or.inl hp)
    · exact Or.inr (Or.inr (Or.inl ⟨e', hold he⟩))
    · exact Or.inr (Or.inr (Or.inr (Or.inl hr)))
    · exact Or.inr (Or.inr (Or.inl ⟨e, hstart ▸ hnew⟩))
  · rcases List.mem_append.1 he with he | he
    · exact h.refused a hin e' he
    · obtain ⟨hcall, -⟩ := Prod.mk.inj (List.mem_singleton.1 he)
      exact h.failing e rfl a hin hcall
  · rcases h.reported x hx with ho | ho | ⟨hde, -⟩ | ⟨hf, hk | hk⟩
    · exact Or.inl (hold ho)
    · exact Or.inr (Or.inl (hold ho))
    · rw [hd] at hde
      cases hde
    · injection hf with hf
      refine Or.inl ?_
      rw [hk, ← hf]
      exact hnew
    · injection hf with hf
      refine Or.inr (Or.inl ?_)
      rw [hk, ← hf]
      exact hnew

end Inside

/-! ## The moves of the main task -/

/-- The bookkeeping is right in the state `st`. -/
def State.Atom (st : State) : Prop := AtomInv st.sender st.calls st.control.phase

section Moves

variable {cfg : Config} {st st' : State}

theorem Entered.atom {tx : GeneratedTx} (he : Entered cfg st tx st')
    (h : AtomInv st.sender st.calls (.entering tx)) (hacc : st.sender.AcceptedInv) : st'.Atom := by
  cases he with
  | full _ => exact h
  | queued hq => exact h.queue hacc (enqueue_ok hq).2
  | refused e =>
      have hskip : st.sender.Carries { st.sender with nextQueueId := st.sender.nextQueueId + 1 } :=
        .of_same rfl rfl rfl rfl
      exact ((h.carries hskip).refuse e).finishError

theorem Flushed.atom {firstError : Option SendError} (hf : Flushed st firstError st')
    (h : AtomInv st.sender st.calls (Control.phase (.awaitFlush firstError))) : st'.Atom := by
  cases hf with
  | waiting _ => exact h
  | joining _ =>
      cases firstError with
      | none => exact h
      | some e => exact h

/-- A failing turn leaves the workers alone, keeps the deferred error, and takes at most the failed
    entry, which it names, off the queue. -/
theorem Sender.Turn.err_cases {choice : Choice} {s s' : Sender} {q : Option ℕ} {e : SendError}
    (h : Turn cfg choice s s' (.err q e)) :
    s'.log.accepted = s.log.accepted ∧ s'.workers = s.workers ∧
      s'.deferredError = s.deferredError ∧
      ((q = none ∧ s'.pending = s.pending) ∨
        ∃ index p, s.pending[index]? = some p ∧ q = some p.queueId ∧
          s'.pending = s.pending.eraseIdx index) := by
  cases h with
  | failed _ _ => exact ⟨rfl, rfl, rfl, Or.inl ⟨rfl, rfl⟩⟩
  | @unauthenticated index p _ _ _ hp =>
      unfold failAuthentication
      split <;> exact ⟨rfl, rfl, rfl, Or.inr ⟨index, p, hp, rfl, rfl⟩⟩

/-- The transaction of the current `send` is the one with its queue id. -/
theorem AtomInv.current_entry {s : Sender} {c : Calls} {q : ℕ} (h : AtomInv s c (.sending q))
    {a : Accepted} (ha : a ∈ s.log.accepted) (hcall : a.call = c.started) : a.entry.queueId = q := by
  obtain ⟨b, hb, hbcall, hbq⟩ := h.current q rfl
  have : a = b := by
    by_contra hne
    have : Std.Symm fun a b : Accepted => a.call ≠ b.call := ⟨fun _ _ hab => hab.symm⟩
    exact (h.calls_sorted.imp fun hlt => ne_of_lt hlt).forall ha hb hne (hcall.trans hbcall.symm)
  rw [this, hbq]

/-- What `send` does with a failure of `pump`: it returns the failure if its own transaction failed or
    is still queued, and otherwise its transaction is on the wire. -/
theorem AtomInv.pumpErr_send {current : ℕ} {choice : Choice} {s : Sender} {queueId : Option ℕ}
    {e : SendError} (h : AtomInv st.sender st.calls (.sending current)) (hinv : st.sender.Inv)
    (turn : Turn cfg choice st.sender s (.err queueId e)) :
    (({ st with sender := s }.recordRaised e).pumpErr queueId e (.send current)).Atom := by
  obtain ⟨hacc, hworkers, hde, hpend⟩ := turn.err_cases
  have hcleared : st.sender.Cleared s.clearPending := ⟨hacc, rfl, hworkers⟩
  simp only [State.pumpErr]
  split
  · rename_i hmine
    refine (h.fail rfl hcleared hde e fun a ha hcall => ?_).finishError
    have hq := h.current_entry ha hcall
    -- in both cases an entry with the queue id of the call was queued before the turn
    obtain ⟨p, hp, hpq⟩ : ∃ p ∈ st.sender.pending, p.queueId = current := by
      simp only [Bool.or_eq_true, decide_eq_true_eq, List.any_eq_true, beq_iff_eq] at hmine
      rcases hmine with hmine | ⟨p, hp, hpq⟩
      · rcases hpend with ⟨hnone, -⟩ | ⟨index, p, hp, hpq, -⟩
        · rw [hnone] at hmine
          cases hmine
        · exact ⟨p, List.mem_of_getElem? hp, Option.some.inj (hpq.symm.trans hmine)⟩
      · refine ⟨p, ?_, hpq⟩
        rcases hpend with ⟨-, hsame⟩ | ⟨index, r, -, -, herase⟩
        · exact hsame ▸ hp
        · exact (List.eraseIdx_sublist _ _).subset (herase ▸ hp)
    rintro ⟨w, hw, htx⟩
    exact hinv.keys.apart hw hp (by rw [htx, hq, hpq])
  · rename_i hother
    simp only [Bool.or_eq_true, decide_eq_true_eq, List.any_eq_true, beq_iff_eq, not_or, not_exists,
      not_and] at hother
    have hdeferred : st.sender.Cleared { s.clearPending with deferredError := some e } :=
      ⟨hacc, rfl, hworkers⟩
    refine h.defer hdeferred rfl fun a ha hcall => ?_
    have hq := h.current_entry ha hcall
    rcases h.accounted a ha with hd | hp | ⟨e', he⟩ | ⟨k, e', hlt, hr⟩ | ⟨-, e', hf⟩
    · exact hd
    · exfalso
      rcases hpend with ⟨-, hsame⟩ | ⟨index, r, hr, hrq, herase⟩
      · exact hother.2 a.entry (hsame ▸ hp) hq
      · obtain ⟨j, hj⟩ := List.mem_iff_getElem?.1 hp
        have hne : j ≠ index := by
          rintro rfl
          obtain rfl := Option.some.inj (hj.symm.trans hr)
          exact hother.1 (hrq.trans (congrArg some hq))
        refine hother.2 a.entry ?_ hq
        exact herase ▸ List.mem_eraseIdx_iff_getElem?.2 ⟨j, hne, hj⟩
    · exact absurd (hcall ▸ h.outcomes_lt _ he) (lt_irrefl _)
    · -- everything raised so far was returned by an earlier call
      rcases h.reported_pumping rfl _ hr with ho | ho
      · have := h.outcomes_lt _ ho
        exact absurd (hcall ▸ hlt) (Nat.lt_asymm this)
      · have := h.outcomes_lt _ ho
        exact absurd (hcall ▸ hlt) (Nat.lt_asymm ((Nat.lt_succ_self _).trans this))
    · cases hf

theorem Atom.pumpErr {frame : Frame} {choice : Choice} {s : Sender} {queueId : Option ℕ}
    {e : SendError} (h : AtomInv st.sender st.calls frame.phase) (hinv : st.sender.Inv)
    (turn : Turn cfg choice st.sender s (.err queueId e)) :
    (({ st with sender := s }.recordRaised e).pumpErr queueId e frame).Atom := by
  obtain ⟨hacc, hworkers, hde, -⟩ := turn.err_cases
  have hcleared : st.sender.Cleared s.clearPending := ⟨hacc, rfl, hworkers⟩
  cases frame with
  | capacity tx =>
      exact (h.fail rfl hcleared hde e fun a ha hcall =>
        absurd hcall (h.calls_lt a ha).ne).finishError
  | send current => exact h.pumpErr_send hinv turn
  | flush =>
      refine (State.flushLoop_flushed { st.recordRaised e with sender := s.clearPending }
        (some e)).atom ?_
      exact h.fail rfl hcleared hde e fun a ha hcall => absurd hcall (h.calls_lt a ha).ne

theorem State.Atom.move (h : st.Atom) (hinv : st.sender.Inv) {l : Label}
    (hm : Move cfg st l st') : st'.Atom := by
  unfold State.Atom at h
  cases hm with
  | @sendDeferred l tx rest e starts hd =>
      rw [starts.idle] at h
      exact (h.startDeferred [tx] hd).finishError
  | @send l tx rest st' starts hd entered =>
      rw [starts.idle] at h
      exact entered.atom (h.start [tx] hd (Or.inl ⟨tx, rfl, rfl⟩)) hinv.accepted
  | @flushDeferred e st' ready hd flushed =>
      rw [idle_of_ready ready] at h
      exact flushed.atom (h.startDeferred [] hd)
  | flush ready hd =>
      rw [idle_of_ready ready] at h
      exact h.start [] hd (Or.inr ⟨rfl, rfl⟩)
  | setup ready =>
      unfold State.startSetup
      split
      · exact h
      split <;> exact h
  | received hat hr => exact h.carries (carries_receive hr)
  | drained hat _ =>
      rw [hat] at h
      exact h
  | delayed hat =>
      rw [hat] at h
      exact h
  | dispatched hat hd =>
      rw [hat] at h
      exact h.carries (carries_dispatch hd.entry)
  | failed hat turn =>
      rw [hat] at h
      exact Atom.pumpErr h hinv turn
  | capacityEntered hat _ entered =>
      rw [hat] at h
      exact entered.atom h hinv.accepted
  | capacityAwaits hat _ _ =>
      rw [hat] at h
      exact h
  | @sent _ q hat _ =>
      rw [hat] at h
      exact h.finishOk (Or.inr ⟨q, rfl⟩)
  | flushed hat _ flushed =>
      rw [hat] at h
      exact flushed.atom h
  | capacityReceived hat hr entered =>
      rw [hat] at h
      have hsteps : Steps cfg st.sender _ := receive_steps hr
      exact entered.atom (h.carries (carries_receive hr)) (hinv.steps hsteps).accepted
  | flushReceived hat hr =>
      rw [hat] at h
      exact h.carries (carries_receive hr)
  | failedFlushReceived hat hr flushed =>
      rw [hat] at h
      exact flushed.atom (h.carries (carries_receive hr))
  | @joined _ firstError hat _ =>
      rw [hat] at h
      cases firstError with
      | none => exact h.finishOk (Or.inl rfl)
      | some e => exact h.finishError
  | advance hw hadv => exact h.carries (carries_setWorker hw (Worker.advance_cases hadv).tx _)
  | @emit index w m rest hw _ =>
      have htx : Worker.tx { w with outbox := rest } = w.tx := rfl
      exact h.carries (carries_setWorker hw htx _)

end Moves

theorem atom_init : State.Atom {} :=
  ⟨nofun, .nil, nofun, .nil, nofun, nofun, fun hn => absurd rfl hn, nofun, nofun, nofun, nofun, nofun⟩

theorem atom_reachable {cfg : Config} {st : State} (h : (senderSystem cfg).Reachable st) :
    st.Atom := by
  refine (h.invariant (I := fun st => st.Atom ∧ st.sender.Inv) ⟨atom_init, Sender.inv_init⟩
    fun st l st' hI hst => ?_).1
  have hm := senderStep_move hst
  exact ⟨hI.1.move hI.2 hm, hI.2.steps hm.steps⟩

/-! ## The promise -/

structure Atomic (st : State) : Prop where
  /-- Every transaction on the wire was queued by a call that did not return an error, and a
      transaction whose call returned an error is not queued either. -/
  refused : ∀ a ∈ st.sender.log.accepted, ∀ e, (a.call, .error e) ∈ st.calls.outcomes →
    a.entry ∉ st.sender.pending ∧ ¬ st.sender.DispatchedTx a.entry
  accepted : ∀ w ∈ st.sender.workers, ∃ a ∈ st.sender.log.accepted, a.entry = w.tx
  /-- If `send(tx)` returned `Ok`, `tx` was queued and is on the wire or still queued, unless `pump`
      raised a failure in a later call. -/
  sent : ∀ m tx, (m, tx) ∈ st.calls.sends → (m, .ok ()) ∈ st.calls.outcomes →
    ∃ a ∈ st.sender.log.accepted, a.call = m ∧ a.source = tx ∧
      (st.sender.DispatchedTx a.entry ∨ a.entry ∈ st.sender.pending ∨
        ∃ k e, m < k ∧ (k, e) ∈ st.calls.raised)
  /-- A call queues at most one transaction, and no transaction has two workers. -/
  once : (st.sender.log.accepted.Pairwise fun a b => a.call < b.call) ∧
    st.sender.workers.Pairwise fun v w => v.tx.queueId ≠ w.tx.queueId
  /-- A call returns once. -/
  outcomes : st.calls.outcomes.Pairwise fun o o' => o.1 < o'.1
  /-- A failure raised in a call was returned by that call or the next one, once the next one has
      returned. -/
  returned : ∀ k e, (k, e) ∈ st.calls.raised → ∀ r, (k + 1, r) ∈ st.calls.outcomes →
    (k, .error e) ∈ st.calls.outcomes ∨ (k + 1, .error e) ∈ st.calls.outcomes

/-- Outcomes are determined by their calls. -/
theorem AtomInv.outcome_unique {s : Sender} {c : Calls} {ph : Phase} (h : AtomInv s c ph) {k : ℕ}
    {r r' : Except SendError Unit} (hr : (k, r) ∈ c.outcomes) (hr' : (k, r') ∈ c.outcomes) :
    r = r' := by
  by_contra hne
  have : Std.Symm fun o o' : ℕ × Except SendError Unit => o.1 ≠ o'.1 := ⟨fun _ _ ho => ho.symm⟩
  exact (h.outcomes_sorted.imp fun hlt => ne_of_lt hlt).forall hr hr'
    (fun heq => hne (Prod.mk.inj heq).2) rfl

/-- No call that has not returned is older than the current one. -/
theorem AtomInv.returned_le {s : Sender} {c : Calls} {ph : Phase} (h : AtomInv s c ph) {k : ℕ}
    {r : Except SendError Unit} (hr : (k, r) ∈ c.outcomes) :
    k ≤ c.started ∧ (ph ≠ .idle → k < c.started) := by
  have := h.outcomes_lt _ hr
  cases ph with
  | idle => exact ⟨Nat.lt_succ_iff.1 this, fun hne => absurd rfl hne⟩
  | _ => exact ⟨this.le, fun _ => this⟩

/-- **`send` is atomic towards the wire**, for every sequence of calls, every order of messages and
    every failure. -/
theorem send_atomic {cfg : Config} {st : State} (h : (senderSystem cfg).Reachable st) :
    Atomic st := by
  have hinv := inv_reachable h
  have hatom : AtomInv st.sender st.calls st.control.phase := atom_reachable h
  refine ⟨hatom.refused, hinv.accepted.worker_mem, fun m tx hsend hok => ?_,
    ⟨hatom.calls_sorted, hinv.keys.workers_ids⟩, hatom.outcomes_sorted, fun k e hr r hnext => ?_⟩
  · have hno : ∀ {e}, (m, .error e) ∉ st.calls.outcomes := fun he => by
      cases hatom.outcome_unique hok he
    have hnofail : ∀ {e}, m = st.calls.started → st.control.phase ≠ .failing e := fun hm hph => by
      have hlt := (hatom.returned_le hok).2 (by rw [hph]; nofun)
      omega
    rcases hatom.sends _ hsend with ⟨a, ha, hcall, hsource⟩ | ⟨e, he⟩ | ⟨hm, hph | ⟨e, hph⟩⟩
    · have hcall' : a.call = m := hcall
      refine ⟨a, ha, hcall', hsource, ?_⟩
      rcases hatom.accounted a ha with hd | hp | ⟨e, he⟩ | ⟨k, e, hk⟩ | ⟨hm, e, hph⟩
      · exact Or.inl hd
      · exact Or.inr (Or.inl hp)
      · rw [hcall'] at he
        exact absurd he hno
      · rw [hcall'] at hk
        exact Or.inr (Or.inr ⟨k, e, hk⟩)
      · rw [hcall'] at hm
        exact absurd hph (hnofail hm)
    · exact absurd he hno
    · have hlt := (hatom.returned_le hok).2 (by rw [hph]; nofun)
      exact absurd hm hlt.ne
    · exact absurd hph (hnofail hm)
  · obtain ⟨hle, hlt⟩ := hatom.returned_le hnext
    rcases hatom.reported _ hr with ho | ho | ⟨-, hk⟩ | ⟨hph, hk⟩
    · exact Or.inl ho
    · exact Or.inr ho
    · exact absurd hle (by simp only at hk; omega)
    · have := hlt (by rw [hph]; nofun)
      exact absurd hk (by simp only; omega)

namespace Sample

/-- The second transaction waits for the key of the first. While the third call has just put its own
    transaction on the wire, the key is released and the second one fails authentication: the third
    call returns `Ok`, and `flush` returns the failure. -/
def deferring : List Label :=
  [.send (workload [key 1])] ++ turns 4 ++ [.send (workload [key 1])] ++ turns 2 ++
    [.worker 0 (.signed true), .worker 0 (.submitted .accepted)] ++
    [.send (workload [key 2])] ++ turns 2 ++ [.emit 0] ++ turns 2 ++
    [.main { auth := fun _ => false }] ++
    [.flush, .worker 1 (.signed true), .worker 1 (.submitted .accepted), .emit 1] ++ turns 2

end Sample

open Sample in
theorem send_atomic_deferring :
    ∃ st, (senderSystem authenticated).Reachable st ∧
      st.calls.raised = [(3, .authentication none)] ∧ (3, .ok ()) ∈ st.calls.outcomes ∧
      (4, .error (.authentication none)) ∈ st.calls.outcomes ∧ st.sender.workers.length = 2 ∧
      Atomic st := by
  have hcheck : ((senderSystem authenticated).exec {} deferring).any (fun st =>
      st.calls.raised = [(3, .authentication none)] ∧ (3, .ok ()) ∈ st.calls.outcomes ∧
      (4, .error (.authentication none)) ∈ st.calls.outcomes ∧ st.sender.workers.length = 2) =
      true := by
    decide
  obtain ⟨st, hrun, hraised, hok, herr, hlen⟩ := System.run_of_check hcheck
  exact ⟨st, ⟨_, hrun⟩, hraised, hok, herr, hlen, send_atomic ⟨_, hrun⟩⟩

end TxGen
