import TxGen.Sender.Model

set_option autoImplicit false

/-! # What a worker does

`Worker.Advance` classifies the steps of `submit_tx`: it moves on without releasing anything, it is
accepted and releases part of its keys, it exits releasing what it still owns, or it crashes. Two
quantities are conserved on all of them: the keys the worker has not yet put on the channel
(`keysLeft`, a permutation) and the reports it still owes for each completion guard (`tokens`). -/

namespace TxGen

/-- The two completion guards of a worker. -/
inductive Guard
  | setup
  | pending
deriving DecidableEq

/-- The message is the report of guard `g`. -/
def Completion.reports : Guard → Completion → Bool
  | .setup, .setupFinished _ _ => true
  | .pending, .pendingFinished _ => true
  | _, _ => false

namespace Worker

/-- The worker holds guard `g` until it ends. -/
def guarded (w : Worker) : Guard → Bool
  | .setup => decide (w.tx.phase = .setup)
  | .pending => w.trackPending

/-- Reports of guard `g` the worker has still to put on the channel. -/
def tokens (g : Guard) (w : Worker) : ℕ :=
  (if w.stage ≠ .done ∧ w.guarded g then 1 else 0) + w.outbox.countP (Completion.reports g)

/-- Keys whose release the worker has not put on the channel. -/
def keysLeft (w : Worker) : List SchedulingKey := w.owned ++ messageKeys w.outbox ++ w.lost

/-- While it runs, a worker has only releases to send, and has neither succeeded nor lost a key; a
    setup report it sends afterwards tells its id and whether it succeeded. -/
structure Inv (w : Worker) : Prop where
  outbox_running : w.stage ≠ .done → ∀ g, w.outbox.countP (Completion.reports g) = 0
  truthful : ∀ id success, .setupFinished id success ∈ w.outbox →
    w.tx.phase = .setup ∧ id = w.tx.id ∧ success = w.success
  success_running : w.stage ≠ .done → w.success = false
  lost_running : w.stage ≠ .done → w.lost = []
  /-- a permit is held until the keys start to be released -/
  permit_owned : w.permit = true → w.owned = w.tx.schedulingKeys

/-- The steps of `submit_tx`. -/
inductive Advance (w : Worker) : Worker → Prop
  | move (stage : Stage) (running : w.stage ≠ .done) (sent : w.outbox = []) (next : stage ≠ .done)
      (keeps : { w with stage := stage }.owned = w.owned) : Advance w { w with stage := stage }
  | release (stage : Stage) (keys : List SchedulingKey) (running : w.stage ≠ .done)
      (sent : w.outbox = []) (next : stage ≠ .done)
      (splits : keys ++ { w with stage := stage }.owned = w.owned) :
      Advance w { w with stage := stage, permit := false, outbox := releaseMessage keys }
  | exit (success : Bool) (result : Except String Unit) (running : w.stage ≠ .done)
      (sent : w.outbox = []) : Advance w ({ w with success := success }.exit w.owned result)
  | crash (running : w.stage ≠ .done) :
      Advance w { w with
        stage := .done
        permit := false
        outbox := w.guards stopped
        lost := w.lost ++ messageKeys w.outbox ++ w.owned }

/-- Without observation there is nothing to release at inclusion. -/
theorem inclusionKeys_of_not_observes {w : Worker} (h : w.observes = false) :
    w.tx.inclusionKeys = [] := by
  simp only [observes, Bool.not_eq_false', Bool.and_eq_true, List.isEmpty_iff] at h
  exact h.1.1

theorem advance_prepared {ls : Bool} {w w' : Worker} {r : Except String Unit}
    (h : w.advance ls (.prepared r) = some w') : w.Advance w' := by
  simp only [advance] at h
  split at h
  · rename_i hst
    have hrun : w.stage ≠ .done := by rw [hst.1]; decide
    have howned : w.owned = w.tx.schedulingKeys := by simp only [owned, hst.1]
    split at h
    · cases h
      exact .move .sign hrun hst.2 (by decide) howned.symm
    · cases h
      exact howned ▸ .exit w.success _ hrun hst.2
  · cases h

theorem advance_signed {ls ok : Bool} {w w' : Worker} (h : w.advance ls (.signed ok) = some w') :
    w.Advance w' := by
  simp only [advance] at h
  split at h
  · rename_i hst
    have hrun : w.stage ≠ .done := by rw [hst.1]; decide
    have howned : w.owned = w.tx.schedulingKeys := by simp only [owned, hst.1]
    split at h
    · cases h
      split
      · exact .move .register hrun hst.2 (by decide) howned.symm
      · exact .move .rpc hrun hst.2 (by decide) howned.symm
    · cases h
      exact howned ▸ .exit w.success _ hrun hst.2
  · cases h

theorem advance_registered {ls : Bool} {w w' : Worker} {r : Except String Unit}
    (h : w.advance ls (.registered r) = some w') : w.Advance w' := by
  simp only [advance] at h
  split at h
  · rename_i hst
    have hrun : w.stage ≠ .done := by rw [hst.1]; decide
    have howned : w.owned = w.tx.schedulingKeys := by simp only [owned, hst.1]
    split at h
    · cases h
      exact .move .rpc hrun hst.2 (by decide) howned.symm
    · cases h
      exact howned ▸ .exit w.success _ hrun hst.2
  · cases h

theorem advance_submitted {ls : Bool} {w w' : Worker} {r : RpcResult}
    (h : w.advance ls (.submitted r) = some w') : w.Advance w' := by
  simp only [advance] at h
  split at h
  · rename_i hst
    have hrun : w.stage ≠ .done := by rw [hst.1]; decide
    have howned : w.owned = w.tx.schedulingKeys := by simp only [owned, hst.1]
    split at h
    · split at h
      · cases h
        exact .release .observe _ hrun hst.2 (by decide) howned.symm
      · rename_i hobs
        cases h
        -- an unobserved transaction owns submission keys only
        have hinc := inclusionKeys_of_not_observes (Bool.eq_false_iff.2 hobs)
        have hsub : w.tx.submissionKeys = w.owned := by
          rw [howned, PendingTx.schedulingKeys, hinc, List.append_nil]
        exact hsub ▸ .exit w.success _ hrun hst.2
    · split at h
      · cases h
        exact .release .observeUncertain _ hrun hst.2 (by decide)
          (by rw [howned]; exact List.append_nil _)
      · cases h
        exact howned ▸ .exit w.success _ hrun hst.2
    · cases h
      exact howned ▸ .exit w.success _ hrun hst.2
  · cases h

theorem advance_observed {ls : Bool} {w w' : Worker} {r : Except String Inclusion}
    (h : w.advance ls (.observed r) = some w') : w.Advance w' := by
  simp only [advance] at h
  split at h
  · rename_i hsent
    split at h
    · rename_i hst
      have hrun : w.stage ≠ .done := by rw [hst]; decide
      have howned : w.owned = w.tx.inclusionKeys := by simp only [owned, hst]
      split at h
      · cases h
        exact howned ▸ .exit true _ hrun hsent
      · cases h
        exact howned ▸ .exit w.success _ hrun hsent
      · cases h
        exact howned ▸ .exit w.success _ hrun hsent
    · rename_i hst
      have hrun : w.stage ≠ .done := by rw [hst]; decide
      have howned : w.owned = [] := by simp only [owned, hst]
      split at h
      · cases h
        exact howned ▸ .exit w.success _ hrun hsent
      · cases h
        exact howned ▸ .exit w.success _ hrun hsent
    · cases h
  · cases h

/-- Every step of `submit_tx` is one of the four. -/
theorem advance_cases {ls : Bool} {w w' : Worker} {event : WorkerEvent}
    (h : w.advance ls event = some w') : w.Advance w' := by
  cases event with
  | crash =>
      simp only [advance] at h
      split at h
      · cases h
      · rename_i hrun
        cases h
        exact .crash hrun
  | prepared r => exact advance_prepared h
  | signed ok => exact advance_signed h
  | registered r => exact advance_registered h
  | submitted r => exact advance_submitted h
  | observed r => exact advance_observed h

/-! ## Messages of a worker -/

@[simp] theorem messageKeys_append (ms ms' : List Completion) :
    messageKeys (ms ++ ms') = messageKeys ms ++ messageKeys ms' := by
  induction ms with
  | nil => rfl
  | cons m ms ih => cases m <;> simp [messageKeys, ih]

@[simp] theorem messageKeys_releaseMessage (keys : List SchedulingKey) :
    messageKeys (releaseMessage keys) = keys := by
  cases keys <;> simp [releaseMessage, messageKeys]

@[simp] theorem messageKeys_guards (w : Worker) (r : Except String Unit) :
    messageKeys (w.guards r) = [] := by
  unfold guards
  split <;> split <;> rfl

@[simp] theorem countP_releaseMessage (keys : List SchedulingKey) (g : Guard) :
    (releaseMessage keys).countP (Completion.reports g) = 0 := by
  cases keys <;> cases g <;> simp [releaseMessage, Completion.reports]

@[simp] theorem countP_guards (w : Worker) (r : Except String Unit) (g : Guard) :
    (w.guards r).countP (Completion.reports g) = if w.guarded g then 1 else 0 := by
  unfold guards guarded
  cases g <;> by_cases hs : w.tx.phase = .setup <;> by_cases ht : w.trackPending = true <;>
    simp [hs, ht, Completion.reports, List.countP_cons]

@[simp] theorem exit_stage (w : Worker) (keys : List SchedulingKey) (r : Except String Unit) :
    (w.exit keys r).stage = .done := rfl

@[simp] theorem exit_lost (w : Worker) (keys : List SchedulingKey) (r : Except String Unit) :
    (w.exit keys r).lost = w.lost := rfl

@[simp] theorem exit_outbox (w : Worker) (keys : List SchedulingKey) (r : Except String Unit) :
    (w.exit keys r).outbox = releaseMessage keys ++ w.guards r := rfl

theorem owned_done {w : Worker} (h : w.stage = .done) : w.owned = [] := by
  simp only [owned, h]

/-! ## What a step keeps -/

theorem Advance.tx {w w' : Worker} (h : w.Advance w') : w'.tx = w.tx := by
  cases h <;> rfl

theorem Advance.guarded {w w' : Worker} (h : w.Advance w') (g : Guard) :
    w'.guarded g = w.guarded g := by
  cases h <;> cases g <;> rfl

theorem Advance.running {w w' : Worker} (h : w.Advance w') : w.stage ≠ .done := by
  cases h <;> assumption

/-- No step loses a key or releases one twice. -/
theorem Advance.keysLeft_perm {w w' : Worker} (h : w.Advance w') : w'.keysLeft.Perm w.keysLeft := by
  cases h with
  | move stage hrun hsent hnext hkeeps => simp only [keysLeft, hkeeps, List.Perm.refl]
  | release stage keys hrun hsent hnext hsplits =>
      simp only [keysLeft, hsent, messageKeys_releaseMessage, messageKeys, List.append_nil,
        ← hsplits]
      exact List.perm_append_comm.append_right _
  | exit success result hrun hsent =>
      rw [keysLeft, owned_done (exit_stage ..)]
      simp only [exit_outbox, exit_lost, messageKeys_append, messageKeys_releaseMessage,
        messageKeys_guards, List.append_nil, List.nil_append, keysLeft, hsent, messageKeys,
        List.Perm.refl]
  | crash hrun =>
      rw [keysLeft, owned_done rfl]
      simp only [messageKeys_guards, List.append_nil, List.nil_append, keysLeft]
      refine List.perm_append_comm.trans ?_
      rw [List.append_assoc]
      exact List.Perm.append_left _ List.perm_append_comm

/-- No step loses a report or makes one twice. -/
theorem Advance.tokens_eq {w w' : Worker} (h : w.Advance w') (hw : w.Inv) (g : Guard) :
    w'.tokens g = w.tokens g := by
  have hempty := hw.outbox_running h.running g
  cases h with
  | move stage hrun hsent hnext hkeeps =>
      simp only [tokens, hrun, hnext, ne_eq, not_false_eq_true, true_and]
      rfl
  | release stage keys hrun hsent hnext hsplits =>
      simp only [tokens, hrun, hnext, hempty, countP_releaseMessage, ne_eq, not_false_eq_true,
        true_and]
      rfl
  | exit success result hrun hsent =>
      simp only [tokens, exit_stage, exit_outbox, hrun, hempty, List.countP_append,
        countP_releaseMessage, countP_guards, ne_eq, not_true_eq_false, not_false_eq_true,
        false_and, true_and, if_false, Nat.zero_add, Nat.add_zero]
      cases g <;> rfl
  | crash hrun =>
      simp only [tokens, hrun, hempty, countP_guards, ne_eq, not_true_eq_false, not_false_eq_true,
        false_and, true_and, if_false, Nat.zero_add, Nat.add_zero]

theorem not_mem_releaseMessage {keys : List SchedulingKey} {id : Option String} {success : Bool} :
    .setupFinished id success ∉ releaseMessage keys := by
  cases keys <;> simp [releaseMessage]

theorem mem_guards {w : Worker} {r : Except String Unit} {id : Option String} {success : Bool}
    (h : .setupFinished id success ∈ w.guards r) :
    w.tx.phase = .setup ∧ id = w.tx.id ∧ success = w.success := by
  unfold guards at h
  rcases List.mem_append.1 h with h | h
  · split at h
    · rename_i hphase
      simp only [List.mem_singleton, Completion.setupFinished.injEq] at h
      exact ⟨hphase, h⟩
    · cases h
  · split at h
    · simp at h
    · cases h

theorem Advance.inv {w w' : Worker} (h : w.Advance w') (hw : w.Inv) : w'.Inv := by
  cases h with
  | move stage hrun hsent hnext hkeeps =>
      exact ⟨fun _ => hw.outbox_running hrun, hw.truthful, fun _ => hw.success_running hrun,
        fun _ => hw.lost_running hrun, fun hp => hkeeps.trans (hw.permit_owned hp)⟩
  | release stage keys hrun hsent hnext hsplits =>
      exact ⟨fun _ g => countP_releaseMessage keys g,
        fun _ _ hin => absurd hin not_mem_releaseMessage, fun _ => hw.success_running hrun,
        fun _ => hw.lost_running hrun, fun hp => absurd hp Bool.false_ne_true⟩
  | exit success result hrun hsent =>
      refine ⟨fun hn => absurd rfl hn, fun id b hin => ?_, fun hn => absurd rfl hn,
        fun hn => absurd rfl hn, fun hp => absurd hp Bool.false_ne_true⟩
      exact mem_guards ((List.mem_append.1 hin).resolve_left not_mem_releaseMessage)
  | crash hrun =>
      exact ⟨fun hn => absurd rfl hn, fun id b hin => mem_guards hin, fun hn => absurd rfl hn,
        fun hn => absurd rfl hn, fun hp => absurd hp Bool.false_ne_true⟩

/-- A setup worker that ends has its report to send. -/
theorem Advance.reports_of_done {w w' : Worker} (h : w.Advance w') (hdone : w'.stage = .done)
    (hphase : w.tx.phase = .setup) : ∃ m ∈ w'.outbox, m.reports .setup = true := by
  have hguard : ∀ v : Worker, v.tx.phase = .setup → ∀ r,
      ∃ m ∈ v.guards r, m.reports .setup = true := fun v hv r =>
    ⟨.setupFinished v.tx.id v.success, by simp [guards, hv], rfl⟩
  cases h with
  | move stage hrun hsent hnext hkeeps => exact absurd hdone hnext
  | release stage keys hrun hsent hnext hsplits => exact absurd hdone hnext
  | exit success result hrun hsent =>
      obtain ⟨m, hm, hrep⟩ := hguard { w with success := success } hphase result
      exact ⟨m, List.mem_append_right _ hm, hrep⟩
  | crash hrun => exact hguard w hphase stopped

/-! ## A freshly dispatched worker -/

theorem spawn_tx (p : PendingTx) (track : Bool) : (spawn p track).tx = p := by
  simp only [spawn]
  split <;> rfl

theorem spawn_keysLeft (p : PendingTx) (track : Bool) :
    (spawn p track).keysLeft = p.schedulingKeys := by
  simp only [spawn]
  split <;> simp [keysLeft, owned, messageKeys]

theorem spawn_running (p : PendingTx) (track : Bool) : (spawn p track).stage ≠ .done := by
  simp only [spawn]
  split <;> simp

theorem spawn_inv (p : PendingTx) (track : Bool) : (spawn p track).Inv := by
  simp only [spawn]
  split <;> exact ⟨fun _ _ => rfl, by simp, fun _ => rfl, fun _ => rfl, fun _ => rfl⟩

theorem spawn_tokens (p : PendingTx) (track : Bool) :
    (spawn p track).tokens .setup = (if p.phase = .setup then 1 else 0) ∧
      (spawn p track).tokens .pending = if track then 1 else 0 := by
  simp only [spawn]
  split <;> simp [tokens, guarded]

/-! ## Sending a message -/

theorem emit_inv {w : Worker} {m : Completion} {rest : List Completion} (hw : w.Inv)
    (h : w.outbox = m :: rest) : Worker.Inv { w with outbox := rest } := by
  refine ⟨fun hrun g => ?_, fun id b hin => ?_, hw.success_running, hw.lost_running,
    hw.permit_owned⟩
  · have := hw.outbox_running hrun g
    rw [h, List.countP_cons] at this
    exact Nat.eq_zero_of_add_eq_zero_right this
  · exact hw.truthful id b (h ▸ List.mem_cons_of_mem _ hin)

theorem emit_tokens {w : Worker} {m : Completion} {rest : List Completion}
    (h : w.outbox = m :: rest) (g : Guard) :
    w.tokens g = Worker.tokens g { w with outbox := rest } + if m.reports g then 1 else 0 := by
  simp only [tokens, h, List.countP_cons, Nat.add_assoc]
  cases g <;> rfl

end Worker

end TxGen
