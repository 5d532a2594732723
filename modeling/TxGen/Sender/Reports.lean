import TxGen.Sender.Exclusion

set_option autoImplicit false

/-! # In-flight counters and setup reports

`in_flight_setup` and `in_flight_pending` count exactly the reports that have not been handled, in
the workers and in the channel (`ReportInv`). A setup worker reports once, truthfully; what the sender
knows of it afterwards is a completed id or a recorded failure (`SetupInv`). -/

namespace TxGen

namespace Sender

/-! ## Counters -/

/-- Reports of guard `g` that have not been handled. -/
def unhandled (s : Sender) (g : Guard) : ℕ :=
  (s.workers.map (Worker.tokens g)).sum + s.completions.countP fun c => c.2.reports g

structure ReportInv (s : Sender) : Prop where
  workers : ∀ w ∈ s.workers, w.Inv
  setup : s.inFlightSetup = s.unhandled .setup
  pending : s.inFlightPending = s.unhandled .pending

theorem unhandled_cons {s : Sender} {q : ℕ} {m : Completion} {rest : List (ℕ × Completion)}
    (hc : s.completions = (q, m) :: rest) (g : Guard) :
    s.unhandled g =
      (s.workers.map (Worker.tokens g)).sum + rest.countP (fun c => c.2.reports g) +
        if m.reports g then 1 else 0 := by
  rw [unhandled, hc, List.countP_cons, Nat.add_assoc]

theorem ReportInv.handle {s : Sender} (h : s.ReportInv) {q : ℕ} {m : Completion}
    {rest : List (ℕ × Completion)} (hc : s.completions = (q, m) :: rest) :
    ({ s with completions := rest }.handleCompletion q m).ReportInv := by
  have hsetup := h.setup.trans (unhandled_cons hc .setup)
  have hpending := h.pending.trans (unhandled_cons hc .pending)
  cases m with
  | release keys => exact ⟨h.workers, hsetup, hpending⟩
  | setupFinished id success =>
      have hminus : s.inFlightSetup - 1 =
          (s.workers.map (Worker.tokens .setup)).sum +
            rest.countP fun c => c.2.reports .setup := by
        rw [hsetup]; rfl
      cases success <;> exact ⟨h.workers, hminus, hpending⟩
  | pendingFinished result =>
      have hminus : s.inFlightPending - 1 =
          (s.workers.map (Worker.tokens .pending)).sum +
            rest.countP fun c => c.2.reports .pending := by
        rw [hpending]; rfl
      exact ⟨h.workers, hsetup, hminus⟩

theorem ReportInv.dispatch {cfg : Config} {s : Sender} (h : s.ReportInv) (index : ℕ)
    (p : PendingTx) : (((s.removePending index).activateKeys p).dispatch cfg p).ReportInv := by
  have htokens := Worker.spawn_tokens p cfg.maxPending.isSome
  refine ⟨fun w hw => ?_, ?_, ?_⟩
  · rcases List.mem_append.1 hw with hw | hw
    · exact h.workers w hw
    · obtain rfl := List.mem_singleton.1 hw
      exact Worker.spawn_inv p _
  · have hold := h.setup
    simp only [unhandled, Sender.dispatch, activateKeys, removePending, List.map_append,
      List.map_cons, List.map_nil, List.sum_append, List.sum_singleton, htokens.1] at hold ⊢
    omega
  · have hold := h.pending
    simp only [unhandled, Sender.dispatch, activateKeys, removePending, List.map_append,
      List.map_cons, List.map_nil, List.sum_append, List.sum_singleton, htokens.2] at hold ⊢
    omega

theorem ReportInv.advance {s : Sender} (h : s.ReportInv) {index : ℕ} {w w' : Worker}
    (hw : s.workers[index]? = some w) (hadv : w.Advance w') :
    ReportInv { s with workers := s.workers.set index w' } := by
  have hwinv := h.workers w (List.mem_of_getElem? hw)
  have hsame : ∀ g, unhandled { s with workers := s.workers.set index w' } g = s.unhandled g := by
    intro g
    simp only [unhandled, List.map_set_of_eq (Worker.tokens g) hw (hadv.tokens_eq hwinv g)]
  refine ⟨fun v hv => ?_, h.setup.trans (hsame .setup).symm, h.pending.trans (hsame .pending).symm⟩
  rcases List.mem_or_eq_of_mem_set hv with hv | rfl
  · exact h.workers v hv
  · exact hadv.inv hwinv

theorem ReportInv.emit {s : Sender} (h : s.ReportInv) {index : ℕ} {w : Worker} {m : Completion}
    {rest : List Completion} (hw : s.workers[index]? = some w) (hout : w.outbox = m :: rest) :
    ReportInv { s with
      workers := s.workers.set index { w with outbox := rest }
      completions := s.completions ++ [(w.tx.queueId, m)] } := by
  have hwinv := h.workers w (List.mem_of_getElem? hw)
  -- the report moves from the outbox to the channel
  have hsame : ∀ g, unhandled { s with
      workers := s.workers.set index { w with outbox := rest }
      completions := s.completions ++ [(w.tx.queueId, m)] } g = s.unhandled g := by
    intro g
    have hsum := List.sum_map_set { w with outbox := rest } (Worker.tokens g) hw
    have htok := Worker.emit_tokens hout g
    simp only [unhandled, List.countP_append, List.countP_singleton]
    omega
  refine ⟨fun v hv => ?_, h.setup.trans (hsame .setup).symm, h.pending.trans (hsame .pending).symm⟩
  rcases List.mem_or_eq_of_mem_set hv with hv | rfl
  · exact h.workers v hv
  · exact Worker.emit_inv hwinv hout

theorem ReportInv.step {cfg : Config} {s s' : Sender} (h : s.ReportInv) (hs : Step cfg s s') :
    s'.ReportInv := by
  cases hs with
  | handle hc => exact h.handle hc
  | skipId => exact ⟨h.workers, h.setup, h.pending⟩
  | enqueue he =>
      obtain ⟨sub, inc, known, -, rfl, -⟩ := he
      exact ⟨h.workers, h.setup, h.pending⟩
  | clear => exact ⟨h.workers, h.setup, h.pending⟩
  | defer e => exact ⟨h.workers, h.setup, h.pending⟩
  | dispatch _ _ _ _ => exact h.dispatch _ _
  | failAuthentication _ _ _ _ =>
      unfold failAuthentication
      split <;> exact ⟨h.workers, h.setup, h.pending⟩
  | advance hw hadv => exact h.advance hw (Worker.advance_cases hadv)
  | emit hw hout => exact h.emit hw hout

/-! ## Setup reports -/

/-- The report of setup worker `w` is still in its outbox or in the channel. -/
def Owes (s : Sender) (w : Worker) : Prop :=
  (∃ m ∈ w.outbox, m.reports .setup = true) ∨
    ∃ c ∈ s.completions, c.1 = w.tx.queueId ∧ c.2.reports .setup = true

/-- The sender has drawn the consequence of the report of `w`. -/
def Settled (s : Sender) (w : Worker) : Prop :=
  if w.success then ∃ name ∈ s.completedSetup, w.tx.id = some name else s.setupFailure ≠ none

structure SetupInv (s : Sender) : Prop where
  /-- accepted setup transactions have known ids -/
  ids : ∀ a ∈ s.log.accepted, a.entry.phase = .setup → ∃ name ∈ s.knownSetup, a.entry.id = some name
  /-- which differ -/
  unique : s.log.accepted.Pairwise fun a b =>
    a.entry.phase = .setup → b.entry.phase = .setup → a.entry.id ≠ b.entry.id
  known : ∀ d ∈ s.knownSetup, ∃ a ∈ s.log.accepted, a.entry.phase = .setup ∧ a.entry.id = some d
  truthful : ∀ c ∈ s.completions, ∀ id success, c.2 = .setupFinished id success →
    ∃ w ∈ s.workers, w.tx.queueId = c.1 ∧ w.stage = .done ∧ w.tx.phase = .setup ∧ id = w.tx.id ∧
      success = w.success
  completed : ∀ d ∈ s.completedSetup, ∃ w ∈ s.workers, w.stage = .done ∧ w.tx.phase = .setup ∧
    w.tx.id = some d ∧ w.success = true
  outcome : ∀ w ∈ s.workers, w.stage = .done → w.tx.phase = .setup → s.Owes w ∨ s.Settled w
  /-- only transactions whose dependencies completed are dispatched -/
  dependencies : ∀ w ∈ s.workers, ∀ d ∈ w.tx.dependsOn, d ∈ s.completedSetup

/-- `Settled` survives when completed ids and failures only accumulate. -/
theorem Settled.mono {s s' : Sender} {w : Worker} (h : s.Settled w)
    (completed : s.completedSetup ⊆ s'.completedSetup)
    (failure : s.setupFailure ≠ none → s'.setupFailure ≠ none) : s'.Settled w := by
  unfold Settled at h ⊢
  split
  · rename_i hs
    rw [if_pos hs] at h
    obtain ⟨name, hname, hid⟩ := h
    exact ⟨name, completed hname, hid⟩
  · rename_i hs
    rw [if_neg hs] at h
    exact failure h

/-- `SetupInv` does not look at the queue or the keys. -/
theorem SetupInv.frame {s s' : Sender} (h : s.SetupInv) (log : s'.log.accepted = s.log.accepted)
    (known : s'.knownSetup = s.knownSetup) (completions : s'.completions = s.completions)
    (workers : s'.workers = s.workers) (completed : s'.completedSetup = s.completedSetup)
    (failure : s.setupFailure ≠ none → s'.setupFailure ≠ none) : s'.SetupInv := by
  refine ⟨?_, ?_, ?_, ?_, ?_, ?_, ?_⟩
  · rw [log, known]; exact h.ids
  · rw [log]; exact h.unique
  · rw [log, known]; exact h.known
  · rw [completions, workers]; exact h.truthful
  · rw [completed, workers]; exact h.completed
  · rw [workers]
    intro w hw hdone hphase
    refine (h.outcome w hw hdone hphase).imp (fun howes => ?_) (fun hset => ?_)
    · unfold Owes; rw [completions]; exact howes
    · exact hset.mono (by rw [completed]) failure
  · rw [workers, completed]; exact h.dependencies

/-- A message other than a setup report leaves the channel. -/
theorem SetupInv.skipMessage {s : Sender} (h : s.SetupInv) {q : ℕ} {m : Completion}
    {rest : List (ℕ × Completion)} (hc : s.completions = (q, m) :: rest)
    (hm : m.reports .setup = false) : SetupInv { s with completions := rest } := by
  refine ⟨h.ids, h.unique, h.known, fun c hin => h.truthful c (hc ▸ List.mem_cons_of_mem _ hin),
    h.completed, fun w hw hdone hphase => ?_, h.dependencies⟩
  rcases h.outcome w hw hdone hphase with (hout | ⟨c, hin, hq, hrep⟩) | hset
  · exact Or.inl (Or.inl hout)
  · rw [hc] at hin
    rcases List.mem_cons.1 hin with rfl | hin
    · rw [hm] at hrep; cases hrep
    · exact Or.inl (Or.inr ⟨c, hin, hq, hrep⟩)
  · exact Or.inr hset

/-- The id of a dispatched setup transaction is known. -/
theorem SetupInv.worker_id {s : Sender} (h : s.SetupInv) (ha : s.AcceptedInv) {w : Worker}
    (hw : w ∈ s.workers) (hphase : w.tx.phase = .setup) :
    ∃ name ∈ s.knownSetup, w.tx.id = some name := by
  obtain ⟨a, hacc, heq⟩ := ha.worker_mem w hw
  rw [← heq] at hphase ⊢
  exact h.ids a hacc hphase

/-- Handling the report of a setup worker settles it. -/
theorem SetupInv.handleReport {s : Sender} (h : s.SetupInv) (hk : s.KeyInv) (ha : s.AcceptedInv)
    {q : ℕ} {id : Option String} {success : Bool} {rest : List (ℕ × Completion)}
    (hc : s.completions = (q, .setupFinished id success) :: rest) :
    ({ s with completions := rest }.handleCompletion q (.setupFinished id success)).SetupInv := by
  obtain ⟨w₀, hw₀, hq₀, hdone₀, hphase₀, rfl, rfl⟩ :=
    h.truthful (q, .setupFinished id success) (hc ▸ List.mem_cons_self) id success rfl
  have htruth := fun c (hin : c ∈ rest) => h.truthful c (hc ▸ List.mem_cons_of_mem _ hin)
  obtain ⟨name, -, hid⟩ := h.worker_id ha hw₀ hphase₀
  -- everyone but `w₀` is where it was
  have hothers : ∀ w ∈ s.workers, w.stage = .done → w.tx.phase = .setup →
      w = w₀ ∨ Owes { s with completions := rest } w ∨ s.Settled w := by
    intro w hw hdone hphase
    rcases h.outcome w hw hdone hphase with (hout | ⟨c, hin, hq, hrep⟩) | hset
    · exact Or.inr (Or.inl (Or.inl hout))
    · rw [hc] at hin
      rcases List.mem_cons.1 hin with rfl | hin
      · exact Or.inl (hk.worker_injective hw hw₀ (hq.symm.trans hq₀.symm))
      · exact Or.inr (Or.inl (Or.inr ⟨c, hin, hq, hrep⟩))
    · exact Or.inr (Or.inr hset)
  cases hs : w₀.success with
  | true =>
      simp only [handleCompletion, if_true, hid]
      refine ⟨h.ids, h.unique, h.known, htruth, fun d hd => ?_, fun w hw hdone hphase => ?_,
        fun w hw d hd => Finset.mem_insert_of_mem (h.dependencies w hw d hd)⟩
      · rcases Finset.mem_insert.1 hd with rfl | hd
        · exact ⟨w₀, hw₀, hdone₀, hphase₀, hid, hs⟩
        · exact h.completed d hd
      · rcases hothers w hw hdone hphase with rfl | howes | hset
        · refine Or.inr ?_
          simp only [Settled, hs, if_true]
          exact ⟨name, Finset.mem_insert_self _ _, hid⟩
        · exact Or.inl howes
        · exact Or.inr (hset.mono (Finset.subset_insert _ _) (fun hf => hf))
  | false =>
      have hfail : ∀ x : SetupFailure, s.setupFailure.or (some x) ≠ none := by
        cases s.setupFailure <;> simp
      simp only [handleCompletion, Bool.false_eq_true, if_false]
      refine ⟨h.ids, h.unique, h.known, htruth, h.completed, fun w hw hdone hphase => ?_,
        h.dependencies⟩
      rcases hothers w hw hdone hphase with rfl | howes | hset
      · refine Or.inr ?_
        simp only [Settled, hs, Bool.false_eq_true, if_false]
        exact hfail _
      · exact Or.inl howes
      · exact Or.inr (hset.mono (fun _ hd => hd) fun _ => hfail _)

theorem SetupInv.handle {s : Sender} (h : s.SetupInv) (hk : s.KeyInv) (ha : s.AcceptedInv) {q : ℕ}
    {m : Completion} {rest : List (ℕ × Completion)} (hc : s.completions = (q, m) :: rest) :
    ({ s with completions := rest }.handleCompletion q m).SetupInv := by
  cases m with
  | release keys => exact (h.skipMessage hc rfl).frame rfl rfl rfl rfl rfl (fun hf => hf)
  | setupFinished id success => exact h.handleReport hk ha hc
  | pendingFinished r => exact (h.skipMessage hc rfl).frame rfl rfl rfl rfl rfl (fun hf => hf)

theorem SetupInv.enqueue {s s' : Sender} (h : s.SetupInv) {call : ℕ} {tx : GeneratedTx}
    (he : s.Enqueued call tx s') : s'.SetupInv := by
  obtain ⟨sub, inc, known, -, rfl, hcase⟩ := he
  have hsub : s.knownSetup ⊆ known := by
    rcases hcase with ⟨-, -, rfl⟩ | ⟨name, -, -, -, -, rfl⟩
    · exact fun _ hd => hd
    · exact Finset.subset_insert _ _
  refine ⟨fun a ha hphase => ?_, ?_, fun d hd => ?_, h.truthful, h.completed, h.outcome,
    h.dependencies⟩
  · rcases List.mem_append.1 ha with ha | ha
    · obtain ⟨name, hname, hid⟩ := h.ids a ha hphase
      exact ⟨name, hsub hname, hid⟩
    · obtain rfl := List.mem_singleton.1 ha
      rcases hcase with ⟨hw, -, -⟩ | ⟨name, -, hid, -, -, rfl⟩
      · exact absurd (hw.symm.trans hphase) (by decide)
      · exact ⟨name, Finset.mem_insert_self _ _, hid⟩
  · refine List.pairwise_append.2 ⟨h.unique, List.pairwise_singleton _ _, fun a ha b hb => ?_⟩
    obtain rfl := List.mem_singleton.1 hb
    intro hpa hpb hsame
    rcases hcase with ⟨hw, -, -⟩ | ⟨name, -, hid, hnew, -, -⟩
    · exact absurd (hw.symm.trans hpb) (by decide)
    · obtain ⟨name', hname', hid'⟩ := h.ids a ha hpa
      have : name' = name := Option.some.inj (hid'.symm.trans (hsame.trans hid))
      exact hnew (this ▸ hname')
  · rcases hcase with ⟨-, -, rfl⟩ | ⟨name, hphase, hid, -, -, rfl⟩
    · obtain ⟨a, ha, hp, hd⟩ := h.known d hd
      exact ⟨a, List.mem_append_left _ ha, hp, hd⟩
    · rcases Finset.mem_insert.1 hd with rfl | hd
      · exact ⟨_, List.mem_append_right _ (List.mem_singleton_self _), hphase, hid⟩
      · obtain ⟨a, ha, hp, hd⟩ := h.known d hd
        exact ⟨a, List.mem_append_left _ ha, hp, hd⟩

/-- What `next_ready_index` selects has its dependencies met. -/
theorem dependenciesMet_of_ready {s : Sender} {index : ℕ} {p : PendingTx}
    (hready : s.nextReadyIndex = some index) (hp : s.pending[index]? = some p) :
    ∀ d ∈ p.dependsOn, d ∈ s.completedSetup := by
  obtain ⟨a, ha, hmet, -⟩ := KeyedLocks.firstReady_some _ _ hready
  obtain rfl : a = p := Option.some.inj (ha.symm.trans hp)
  simpa [dependenciesMet] using hmet

theorem SetupInv.dispatch {cfg : Config} {s : Sender} (h : s.SetupInv) {index : ℕ} {p : PendingTx}
    (hready : s.nextReadyIndex = some index) (hp : s.pending[index]? = some p) :
    (((s.removePending index).activateKeys p).dispatch cfg p).SetupInv := by
  have hmem : ∀ w ∈ s.workers, w ∈ s.workers ++ [Worker.spawn p cfg.maxPending.isSome] :=
    fun w hw => List.mem_append_left _ hw
  refine ⟨h.ids, h.unique, h.known, fun c hin id b hcb => ?_, fun d hd => ?_,
    fun w hw hdone hphase => ?_, fun w hw => ?_⟩
  · obtain ⟨w, hw, hrest⟩ := h.truthful c hin id b hcb
    exact ⟨w, hmem w hw, hrest⟩
  · obtain ⟨w, hw, hrest⟩ := h.completed d hd
    exact ⟨w, hmem w hw, hrest⟩
  · rcases List.mem_append.1 hw with hw | hw
    · exact h.outcome w hw hdone hphase
    · obtain rfl := List.mem_singleton.1 hw
      exact absurd hdone (Worker.spawn_running p _)
  · rcases List.mem_append.1 hw with hw | hw
    · exact h.dependencies w hw
    · obtain rfl := List.mem_singleton.1 hw
      rw [Worker.spawn_tx]
      exact dependenciesMet_of_ready (s := s) hready hp

/-- A worker is replaced, with its messages: what it owed it still owes, and no one else changes. -/
theorem SetupInv.replaceWorker {s : Sender} (h : s.SetupInv) (hk : s.KeyInv) {index : ℕ}
    {w w' : Worker} (sent : List (ℕ × Completion)) (hw : s.workers[index]? = some w)
    (htx : w'.tx = w.tx) (hstays : w.stage = .done → w'.stage = .done ∧ w'.success = w.success)
    (hsent : ∀ c ∈ sent, ∀ id success, c.2 = .setupFinished id success →
      c.1 = w'.tx.queueId ∧ w'.stage = .done ∧ w'.tx.phase = .setup ∧ id = w'.tx.id ∧
        success = w'.success)
    (howes : w'.stage = .done → w'.tx.phase = .setup → w.stage ≠ .done ∨ s.Owes w →
      Owes { s with
        workers := s.workers.set index w'
        completions := s.completions ++ sent } w') :
    SetupInv { s with
      workers := s.workers.set index w'
      completions := s.completions ++ sent } := by
  obtain ⟨hi, -⟩ := List.getElem?_eq_some_iff.1 hw
  have hnew : w' ∈ s.workers.set index w' := List.mem_set hi w'
  -- a worker that is done has a successor that tells the same
  have hsucc : ∀ v ∈ s.workers, v.stage = .done → ∃ v' ∈ s.workers.set index w',
      v'.tx = v.tx ∧ v'.stage = .done ∧ v'.success = v.success := by
    intro v hv hdone
    by_cases hq : v.tx.queueId = w.tx.queueId
    · obtain rfl := hk.worker_injective hv (List.mem_of_getElem? hw) hq
      exact ⟨w', hnew, htx, (hstays hdone).1, (hstays hdone).2⟩
    · obtain ⟨j, hj⟩ := List.mem_iff_getElem?.1 hv
      have hij : index ≠ j := by
        rintro rfl
        exact hq (congrArg (fun x : Worker => x.tx.queueId) (Option.some.inj (hj.symm.trans hw)))
      exact ⟨v, List.mem_of_getElem? ((List.getElem?_set_ne hij).trans hj), rfl, hdone, rfl⟩
  refine ⟨h.ids, h.unique, h.known, fun c hin id b hcb => ?_, fun d hd => ?_,
    fun v hv hdone hphase => ?_, fun v hv => ?_⟩
  · rcases List.mem_append.1 hin with hin | hin
    · obtain ⟨v, hv, hq, hdone, hphase, hid, hb⟩ := h.truthful c hin id b hcb
      obtain ⟨v', hv', htx', hdone', hsame⟩ := hsucc v hv hdone
      exact ⟨v', hv', by rw [htx']; exact hq, hdone', by rw [htx']; exact hphase,
        by rw [htx']; exact hid, by rw [hsame]; exact hb⟩
    · obtain ⟨hq, hrest⟩ := hsent c hin id b hcb
      exact ⟨w', hnew, hq.symm, hrest⟩
  · obtain ⟨v, hv, hdone, hphase, hid, hb⟩ := h.completed d hd
    obtain ⟨v', hv', htx', hdone', hsame⟩ := hsucc v hv hdone
    exact ⟨v', hv', hdone', by rw [htx']; exact hphase, by rw [htx']; exact hid,
      by rw [hsame]; exact hb⟩
  · rcases List.mem_set_cases (fun x : Worker => x.tx.queueId) hk.workers_ids hw hv with
      rfl | ⟨hold, -⟩
    · by_cases hrun : w.stage = .done
      · rcases h.outcome w (List.mem_of_getElem? hw) hrun (htx ▸ hphase) with ho | hset
        · exact Or.inl (howes hdone hphase (Or.inr ho))
        · refine Or.inr ?_
          unfold Settled at hset ⊢
          rw [(hstays hrun).2, htx]
          exact hset
      · exact Or.inl (howes hdone hphase (Or.inl hrun))
    · refine (h.outcome v hold hdone hphase).imp (fun ho => ?_) (fun hset => hset)
      exact ho.imp_right fun ⟨c, hin, hrest⟩ => ⟨c, List.mem_append_left _ hin, hrest⟩
  · rcases List.mem_or_eq_of_mem_set hv with hv | rfl
    · exact h.dependencies v hv
    · rw [htx]
      exact h.dependencies w (List.mem_of_getElem? hw)

theorem SetupInv.advance {s : Sender} (h : s.SetupInv) (hk : s.KeyInv) {index : ℕ} {w w' : Worker}
    (hw : s.workers[index]? = some w) (hadv : w.Advance w') :
    SetupInv { s with workers := s.workers.set index w' } := by
  have := h.replaceWorker hk [] hw hadv.tx (fun hd => absurd hd hadv.running)
    (fun c hin => absurd hin List.not_mem_nil)
    (fun hdone hphase _ => Or.inl (hadv.reports_of_done hdone (hadv.tx ▸ hphase)))
  rwa [List.append_nil] at this

theorem SetupInv.emit {s : Sender} (h : s.SetupInv) (hk : s.KeyInv) (hr : s.ReportInv) {index : ℕ}
    {w : Worker} {m : Completion} {rest : List Completion} (hw : s.workers[index]? = some w)
    (hout : w.outbox = m :: rest) :
    SetupInv { s with
      workers := s.workers.set index { w with outbox := rest }
      completions := s.completions ++ [(w.tx.queueId, m)] } := by
  have hwinv := hr.workers w (List.mem_of_getElem? hw)
  have hm : m ∈ w.outbox := hout ▸ List.mem_cons_self
  refine h.replaceWorker hk _ hw rfl (fun hd => ⟨hd, rfl⟩) (fun c hin id b hcb => ?_)
    (fun hdone hphase hor => ?_)
  · obtain rfl := List.mem_singleton.1 hin
    subst hcb
    refine ⟨rfl, ?_, hwinv.truthful id b hm⟩
    by_contra hrun
    have := List.countP_eq_zero.1 (hwinv.outbox_running hrun .setup) _ hm
    exact this rfl
  · rcases hor with hrun | ⟨m', hin, hrep⟩ | ⟨c, hin, hq, hrep⟩
    · exact absurd hdone hrun
    · rw [hout] at hin
      rcases List.mem_cons.1 hin with rfl | hin
      · exact Or.inr ⟨_, List.mem_append_right _ (List.mem_singleton_self _), rfl, hrep⟩
      · exact Or.inl ⟨m', hin, hrep⟩
    · exact Or.inr ⟨c, List.mem_append_left _ hin, hq, hrep⟩

/-! ## All invariants of the sender -/

structure Inv (s : Sender) : Prop where
  keys : s.KeyInv
  accepted : s.AcceptedInv
  reports : s.ReportInv
  setup : s.SetupInv

/-- Every worker is over and every message was handled. -/
def Quiescent (s : Sender) : Prop :=
  s.completions = [] ∧ ∀ w ∈ s.workers, w.finished = true

/-- In a quiescent sender the counters are zero and the only keys left are the lost ones. -/
theorem Inv.quiescent {s : Sender} (h : s.Inv) (hq : s.Quiescent) :
    s.inFlightSetup = 0 ∧ s.inFlightPending = 0 ∧
      ∀ k, k ∈ s.activeKeys ↔ ∃ w ∈ s.workers, k ∈ w.lost := by
  obtain ⟨hchan, hfin⟩ := hq
  have hfin' : ∀ w ∈ s.workers, w.stage = .done ∧ w.outbox = [] := fun w hw => by
    simpa [Worker.finished] using hfin w hw
  have hnone : ∀ g, s.unhandled g = 0 := by
    intro g
    rw [unhandled, hchan, List.countP_nil, Nat.add_zero]
    refine List.sum_eq_zero_iff_forall_eq_nat.2 fun n hn => ?_
    obtain ⟨w, hw, rfl⟩ := List.mem_map.1 hn
    simp only [Worker.tokens, hfin' w hw, ne_eq, not_true_eq_false, false_and, if_false,
      List.countP_nil]
  refine ⟨h.reports.setup.trans (hnone _), h.reports.pending.trans (hnone _), fun k => ?_⟩
  rw [h.keys.mem_activeKeys]
  refine exists_congr fun w => and_congr_right fun hw => ?_
  simp only [outstanding, Worker.keysLeft, Worker.owned_done (hfin' w hw).1, (hfin' w hw).2,
    Worker.messageKeys, hchan, channelKeys_nil, List.nil_append, List.append_nil]

theorem SetupInv.step {cfg : Config} {s s' : Sender} (h : s.Inv) (hs : Step cfg s s') :
    s'.SetupInv := by
  have hset := h.setup
  cases hs with
  | handle hc => exact hset.handle h.keys h.accepted hc
  | skipId => exact hset.frame rfl rfl rfl rfl rfl (fun hf => hf)
  | enqueue he => exact hset.enqueue he
  | clear => exact hset.frame rfl rfl rfl rfl rfl (fun hf => hf)
  | defer e => exact hset.frame rfl rfl rfl rfl rfl (fun hf => hf)
  | dispatch _ _ hready hp => exact hset.dispatch hready hp
  | failAuthentication _ _ _ _ =>
      unfold failAuthentication
      split
      · exact hset.frame rfl rfl rfl rfl rfl (fun _ => Option.some_ne_none _)
      · exact hset.frame rfl rfl rfl rfl rfl (fun hf => hf)
  | advance hw hadv => exact hset.advance h.keys hw (Worker.advance_cases hadv)
  | emit hw hout => exact hset.emit h.keys h.reports hw hout

theorem Inv.step {cfg : Config} {s s' : Sender} (h : s.Inv) (hs : Step cfg s s') : s'.Inv :=
  ⟨h.keys.step hs, h.accepted.step hs, h.reports.step hs, SetupInv.step h hs⟩

theorem Inv.steps {cfg : Config} {s s' : Sender} (h : s.Inv) (hs : Steps cfg s s') : s'.Inv := by
  induction hs with
  | refl => exact h
  | tail _ hst ih => exact ih.step hst

theorem inv_init : Inv {} :=
  ⟨keyInv_init, acceptedInv_init,
    ⟨by simp, rfl, rfl⟩, ⟨by simp, by simp, by simp, by simp, by simp, by simp, by simp⟩⟩

end Sender

theorem inv_reachable {cfg : Config} {st : State} (h : (senderSystem cfg).Reachable st) :
    st.sender.Inv :=
  sender_invariant Sender.inv_init (fun _ _ hI hs => hI.step hs) h

end TxGen
