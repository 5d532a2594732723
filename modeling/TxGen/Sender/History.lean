import TxGen.Sender.Reports

set_option autoImplicit false

/-! # What stays true of a sender

Between an earlier and a later state of one sender: accepted and dispatched transactions stay so, a
worker that has ended keeps its verdict, recorded failures and completed ids stay recorded, and only
transactions with new queue ids enter the queue. -/

namespace TxGen

namespace Sender

/-- `p` was handed to a worker. -/
def DispatchedTx (s : Sender) (p : PendingTx) : Prop := ∃ w ∈ s.workers, w.tx = p

/-- `s'` is a later state of the sender `s`. -/
structure Later (s s' : Sender) : Prop where
  accepted : s.log.accepted ⊆ s'.log.accepted
  next : s.nextQueueId ≤ s'.nextQueueId
  /-- workers keep their transaction, and their verdict once they have ended -/
  workers : ∀ w ∈ s.workers, ∃ w' ∈ s'.workers, w'.tx = w.tx ∧
    (w.stage = .done → w'.stage = .done ∧ w'.success = w.success)
  completed : s.completedSetup ⊆ s'.completedSetup
  failure : s.setupFailure ≠ none → s'.setupFailure ≠ none
  pending : ∀ p ∈ s'.pending, p.queueId < s.nextQueueId → p ∈ s.pending

theorem Later.refl (s : Sender) : s.Later s :=
  ⟨List.Subset.refl _, le_rfl, fun w hw => ⟨w, hw, rfl, fun hd => ⟨hd, rfl⟩⟩, fun _ hd => hd,
    fun hf => hf, fun _ hp _ => hp⟩

theorem Later.trans {s t u : Sender} (h : s.Later t) (h' : t.Later u) : s.Later u where
  accepted := List.Subset.trans h.accepted h'.accepted
  next := h.next.trans h'.next
  workers := by
    intro w hw
    obtain ⟨v, hv, htx, hdone⟩ := h.workers w hw
    obtain ⟨u, hu, htx', hdone'⟩ := h'.workers v hv
    refine ⟨u, hu, htx'.trans htx, fun hd => ?_⟩
    obtain ⟨hvd, hvs⟩ := hdone hd
    obtain ⟨hud, hus⟩ := hdone' hvd
    exact ⟨hud, hus.trans hvs⟩
  completed := fun _ hd => h'.completed (h.completed hd)
  failure := fun hf => h'.failure (h.failure hf)
  pending := fun p hp hlt => h.pending p (h'.pending p hp (hlt.trans_le h.next)) hlt

/-- Steps that change neither the queue, the log of accepted transactions nor the workers. -/
theorem Later.of_same {s s' : Sender} (accepted : s'.log.accepted = s.log.accepted)
    (next : s.nextQueueId ≤ s'.nextQueueId) (workers : s'.workers = s.workers)
    (completed : s.completedSetup ⊆ s'.completedSetup)
    (failure : s.setupFailure ≠ none → s'.setupFailure ≠ none)
    (pending : ∀ p ∈ s'.pending, p ∈ s.pending) : s.Later s' where
  accepted := accepted ▸ List.Subset.refl _
  next := next
  workers := fun w hw => ⟨w, workers ▸ hw, rfl, fun hd => ⟨hd, rfl⟩⟩
  completed := completed
  failure := failure
  pending := fun p hp _ => pending p hp

/-- A worker is replaced by one with the same transaction and, if it had ended, the same verdict. -/
theorem Later.setWorker {s : Sender} {index : ℕ} {w w' : Worker}
    (hw : s.workers[index]? = some w) (htx : w'.tx = w.tx)
    (hdone : w.stage = .done → w'.stage = .done ∧ w'.success = w.success)
    (cs : List (ℕ × Completion)) :
    s.Later { s with workers := s.workers.set index w', completions := cs } := by
  obtain ⟨hi, rfl⟩ := List.getElem?_eq_some_iff.1 hw
  refine ⟨List.Subset.refl _, le_rfl, fun v hv => ?_, fun _ hd => hd, fun hf => hf,
    fun _ hp _ => hp⟩
  obtain ⟨j, hj⟩ := List.mem_iff_getElem?.1 hv
  by_cases hij : index = j
  · subst hij
    obtain rfl := Option.some.inj (hw.symm.trans hj)
    exact ⟨w', List.mem_set hi w', htx, hdone⟩
  · exact ⟨v, List.mem_of_getElem? ((List.getElem?_set_ne hij).trans hj), rfl,
      fun hd => ⟨hd, rfl⟩⟩

theorem Later.handle (s : Sender) (q : ℕ) (m : Completion) (rest : List (ℕ × Completion)) :
    s.Later ({ s with completions := rest }.handleCompletion q m) := by
  cases m with
  | release keys => exact .of_same rfl le_rfl rfl (fun _ hd => hd) (fun hf => hf) (fun _ hp => hp)
  | setupFinished id success =>
      cases success with
      | true =>
          refine .of_same rfl le_rfl rfl (fun d hd => ?_) (fun hf => hf) (fun _ hp => hp)
          cases id with
          | none => exact hd
          | some name => exact Finset.mem_insert_of_mem hd
      | false =>
          refine .of_same rfl le_rfl rfl (fun _ hd => hd) (fun hf hn => ?_) (fun _ hp => hp)
          exact hf (Option.or_eq_none_iff.1 hn).1
  | pendingFinished r =>
      exact .of_same rfl le_rfl rfl (fun _ hd => hd) (fun hf => hf) (fun _ hp => hp)

theorem Later.enqueue {s s' : Sender} {call : ℕ} {tx : GeneratedTx} (he : s.Enqueued call tx s') :
    s.Later s' := by
  obtain ⟨sub, inc, known, -, rfl, -⟩ := he
  refine ⟨List.subset_append_left _ _, Nat.le_succ _,
    fun w hw => ⟨w, hw, rfl, fun hd => ⟨hd, rfl⟩⟩, fun _ hd => hd, fun hf => hf,
    fun p hp hlt => ?_⟩
  rcases List.mem_append.1 hp with hp | hp
  · exact hp
  · obtain rfl := List.mem_singleton.1 hp
    exact absurd hlt (lt_irrefl _)

theorem Step.later {cfg : Config} {s s' : Sender} (h : Step cfg s s') : s.Later s' := by
  cases h with
  | handle _ => exact .handle s _ _ _
  | skipId =>
      exact .of_same rfl (Nat.le_succ _) rfl (fun _ hd => hd) (fun hf => hf) (fun _ hp => hp)
  | enqueue he => exact .enqueue he
  | clear =>
      exact .of_same rfl le_rfl rfl (fun _ hd => hd) (fun hf => hf)
        (fun _ hp => absurd hp List.not_mem_nil)
  | defer e => exact .of_same rfl le_rfl rfl (fun _ hd => hd) (fun hf => hf) (fun _ hp => hp)
  | dispatch _ _ _ _ =>
      exact ⟨List.Subset.refl _, le_rfl,
        fun w hw => ⟨w, List.mem_append_left _ hw, rfl, fun hd => ⟨hd, rfl⟩⟩, fun _ hd => hd,
        fun hf => hf, fun _ hp _ => (List.eraseIdx_sublist _ _).subset hp⟩
  | failAuthentication _ _ _ _ =>
      unfold Sender.failAuthentication
      split
      · exact .of_same rfl le_rfl rfl (fun _ hd => hd) (fun _ => Option.some_ne_none _)
          (fun _ hp => (List.eraseIdx_sublist _ _).subset hp)
      · exact .of_same rfl le_rfl rfl (fun _ hd => hd) (fun hf => hf)
          (fun _ hp => (List.eraseIdx_sublist _ _).subset hp)
  | advance hw hadv =>
      have h := Worker.advance_cases hadv
      exact .setWorker hw h.tx (fun hd => absurd hd h.running) _
  | @emit index w m rest hw _ =>
      have htx : Worker.tx { w with outbox := rest } = w.tx := rfl
      exact .setWorker hw htx (fun hd => ⟨hd, rfl⟩) _

theorem Steps.later {cfg : Config} {s s' : Sender} (h : Steps cfg s s') : s.Later s' := by
  induction h with
  | refl => exact .refl s
  | tail _ hst ih => exact ih.trans hst.later

end Sender

/-- The sender at the end of a run is a later state of the sender at its start. -/
theorem later_of_run {cfg : Config} {ok : State → Label → Prop} {st st' : State} {ls : List Label}
    (h : (senderSystem cfg).Run ok st ls st') : st.sender.Later st'.sender := by
  induction h with
  | nil s => exact .refl _
  | cons _ hstep _ ih => exact (senderStep_steps hstep).later.trans ih

end TxGen
