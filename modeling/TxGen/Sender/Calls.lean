import TxGen.Sender.Atomicity

set_option autoImplicit false

/-! # The calls of the owner

Calls are numbered in the order in which they are made, and everything in the log was passed to the
call it names. -/

namespace TxGen

open Sender

structure SendsInv (accepted : List Accepted) (c : Calls) (ph : Phase) : Prop where
  sorted : c.sends.Pairwise fun x y => x.1 < y.1
  le : ∀ x ∈ c.sends, x.1 ≤ c.started
  entering : ∀ tx, ph = .entering tx → (c.started, tx) ∈ c.sends
  accepted : ∀ a ∈ accepted, (a.call, a.source) ∈ c.sends

def State.Sends (st : State) : Prop :=
  SendsInv st.sender.log.accepted st.calls st.control.phase

section Calls

variable {cfg : Config} {st st' : State} {accepted : List Accepted} {c : Calls} {ph ph' : Phase}

/-- Only the log, the calls and what is about to be queued matter. -/
theorem SendsInv.frame (h : SendsInv accepted c ph) {c' : Calls} (hsends : c'.sends = c.sends)
    (hstarted : c.started ≤ c'.started)
    (hph : ∀ tx, ph' = .entering tx → c'.started = c.started ∧ ph = .entering tx) :
    SendsInv accepted c' ph' := by
  refine ⟨hsends ▸ h.sorted, hsends ▸ fun x hx => (h.le x hx).trans hstarted, fun tx htx => ?_,
    hsends ▸ h.accepted⟩
  obtain ⟨heq, htx⟩ := hph tx htx
  rw [hsends, heq]
  exact h.entering tx htx

theorem SendsInv.start (h : SendsInv accepted c ph) {tx : GeneratedTx}
    (hph : ∀ tx', ph' = .entering tx' → tx' = tx) : SendsInv accepted (c.start [tx]) ph' := by
  refine ⟨List.pairwise_append.2 ⟨h.sorted, List.pairwise_singleton _ _, fun x hx y hy => ?_⟩,
    fun x hx => ?_, fun tx' htx' => ?_, fun a ha => List.mem_append_left _ (h.accepted a ha)⟩
  · obtain rfl := List.mem_singleton.1 hy
    exact Nat.lt_succ_of_le (h.le x hx)
  · rcases List.mem_append.1 hx with hx | hx
    · exact (h.le x hx).trans (Nat.le_succ _)
    · exact List.mem_singleton.1 hx ▸ le_rfl
  · obtain rfl := hph tx' htx'
    exact List.mem_append_right _ (List.mem_singleton_self _)

theorem Entered.sends {tx : GeneratedTx} (he : Entered cfg st tx st')
    (h : SendsInv st.sender.log.accepted st.calls (.entering tx)) : st'.Sends := by
  cases he with
  | full _ => exact h
  | queued hq =>
      obtain ⟨sub, inc, known, -, rfl, -⟩ := (enqueue_ok hq).2
      refine ⟨h.sorted, h.le, nofun, fun a ha => ?_⟩
      rcases List.mem_append.1 ha with ha | ha
      · exact h.accepted a ha
      · exact List.mem_singleton.1 ha ▸ h.entering tx rfl
  | refused e => exact h.frame rfl le_rfl nofun

theorem Flushed.sends {firstError : Option SendError} (hf : Flushed st firstError st')
    (h : SendsInv st.sender.log.accepted st.calls ph) : st'.Sends := by
  cases hf <;> cases firstError <;> exact h.frame rfl le_rfl nofun

/-- What is left of a call when `pump` failed in it. -/
theorem SendsInv.pumpErr (h : SendsInv st.sender.log.accepted st.calls ph) (queueId : Option ℕ)
    (e : SendError) (frame : Frame) : (st.pumpErr queueId e frame).Sends := by
  cases frame with
  | capacity tx => exact h.frame rfl le_rfl (by rintro _ ⟨⟩)
  | send current =>
      simp only [State.pumpErr]
      split <;> exact h.frame rfl le_rfl (by rintro _ ⟨⟩)
  | flush =>
      have hf := State.flushLoop_flushed { st with sender := st.sender.clearPending } (some e)
      exact hf.sends h

theorem State.Sends.move (h : st.Sends) {l : Label} (hm : Move cfg st l st') : st'.Sends := by
  cases hm with
  | @sendDeferred l tx rest e starts hd =>
      have hstarted : SendsInv st.sender.log.accepted (st.calls.start [tx]) .idle := h.start nofun
      exact hstarted.frame rfl le_rfl nofun
  | @send l tx rest st' starts hd entered =>
      exact entered.sends (h.start fun tx' heq => (Phase.entering.inj heq).symm)
  | @flushDeferred e st' ready hd flushed =>
      have hstarted : SendsInv st.sender.log.accepted (st.calls.start []) .idle :=
        h.frame (List.append_nil _) (Nat.le_succ _) nofun
      exact flushed.sends hstarted
  | flush ready hd => exact h.frame (List.append_nil _) (Nat.le_succ _) nofun
  | setup ready =>
      unfold State.startSetup
      split
      · exact h
      split <;> exact h
  | received hat hr =>
      unfold State.Sends
      rw [(carries_receive hr).accepted]
      exact h
  | @drained _ frame hat _ =>
      refine h.frame rfl le_rfl fun tx htx => ⟨rfl, ?_⟩
      rw [hat]
      exact htx
  | @delayed _ frame hat =>
      refine h.frame rfl le_rfl fun tx htx => ⟨rfl, ?_⟩
      rw [hat]
      exact htx
  | dispatched hat hd =>
      refine h.frame rfl le_rfl fun tx htx => ⟨rfl, ?_⟩
      rw [hat]
      exact htx
  | @failed _ frame s q e hat turn =>
      have hraised : SendsInv s.log.accepted ({ st with sender := s }.recordRaised e).calls
          st.control.phase := by
        rw [turn.err_cases.1]
        exact h.frame rfl le_rfl fun tx htx => ⟨rfl, htx⟩
      exact hraised.pumpErr q e frame
  | capacityEntered hat _ entered =>
      unfold State.Sends at h
      rw [hat] at h
      exact entered.sends h
  | capacityAwaits hat _ _ =>
      refine h.frame rfl le_rfl fun tx htx => ⟨rfl, ?_⟩
      rw [hat]
      exact htx
  | sent hat _ => exact h.frame rfl le_rfl nofun
  | flushed hat _ flushed => exact flushed.sends h
  | @capacityReceived _ tx s st' hat hr entered =>
      unfold State.Sends at h
      rw [hat, ← (carries_receive hr).accepted] at h
      exact entered.sends h
  | @flushReceived _ s hat hr =>
      unfold State.Sends at h
      rw [← (carries_receive hr).accepted] at h
      exact h.frame rfl le_rfl nofun
  | @failedFlushReceived _ e s st' hat hr flushed =>
      unfold State.Sends at h
      rw [← (carries_receive hr).accepted] at h
      exact flushed.sends h
  | joined hat _ => exact h.frame rfl le_rfl nofun
  | advance _ _ => exact h
  | emit _ _ => exact h

end Calls

theorem sends_reachable {cfg : Config} {st : State} (h : (senderSystem cfg).Reachable st) :
    st.Sends :=
  h.invariant ⟨.nil, nofun, nofun, nofun⟩ fun _ _ _ hI hst => hI.move (senderStep_move hst)

/-! ## What a dispatched transaction says of its call -/

section Dispatched

variable {cfg : Config} {st : State}

/-- The log entry of a call is determined by it. -/
theorem AtomInv.entry_unique {s : Sender} {c : Calls} {ph : Phase} (h : AtomInv s c ph)
    {a a' : Accepted} (ha : a ∈ s.log.accepted) (ha' : a' ∈ s.log.accepted)
    (hcall : a.call = a'.call) : a = a' := by
  by_contra hne
  have : Std.Symm fun a b : Accepted => a.call ≠ b.call := ⟨fun _ _ hab => hab.symm⟩
  exact (h.calls_sorted.imp fun hab => ne_of_lt hab).forall ha ha' hne hcall

/-- A call before one that was queued has queued its transaction or returned an error. -/
theorem accepted_or_refused (h : (senderSystem cfg).Reachable st) {c : ℕ} {tx : GeneratedTx}
    (hsend : (c, tx) ∈ st.calls.sends) {y : Accepted} (hy : y ∈ st.sender.log.accepted)
    (hlt : c < y.call) : (∃ x ∈ st.sender.log.accepted, x.call = c ∧ x.source = tx) ∨
      ∃ e, (c, .error e) ∈ st.calls.outcomes := by
  have hatom : AtomInv st.sender st.calls st.control.phase := atom_reachable h
  rcases hatom.sends _ hsend with hx | he | ⟨hc, -⟩
  · exact Or.inl hx
  · exact Or.inr he
  · have hle := (sends_reachable h).le _ ((sends_reachable h).accepted y hy)
    simp only at hc hle
    omega

end Dispatched

end TxGen
