import TxGen.Lib.Lists
import TxGen.ReceiptTracker.Steps

set_option autoImplicit false

/-! # The lifecycle of the scanner

At most one scanner runs, `running` says whether one does, and a waiter or a registration is never
left without one: a scanner stops only when nothing is pending and nothing is preparing, or after it
has told everyone that it gives up. A registration is told through the readiness channel that its
`prepare` subscribed to. -/

namespace TxGen

/-- A registration is counted in `preparing` until it is dropped. -/
def ReceiptRegistration.weight (r : ReceiptRegistration) : ℕ :=
  if r.stage = .gone then 0 else 1

namespace ReceiptTracker

variable {expiry : TxHash → Option ℕ} {s t : ReceiptTracker}

/-- The channel of the registration says that the scanner has given up. -/
def ToldToFallBack (s : ReceiptTracker) (r : ReceiptRegistration) : Prop :=
  s.channels[r.channel]? = some (some (.error unsupportedMessage))

structure LifecycleInv (s : ReceiptTracker) : Prop where
  single : s.scanners.length ≤ 1
  running_iff : s.running = true ↔ s.scanners ≠ []
  pending_running : s.pending ≠ [] → s.scanners ≠ []
  channels_ne : s.channels ≠ []
  preparing_eq : s.preparing = (s.registrations.map ReceiptRegistration.weight).sum
  channel_lt : ∀ r ∈ s.registrations, r.channel < s.channels.length
  registration : ∀ r ∈ s.registrations, r.stage ≠ .gone →
    (s.scanners ≠ [] ∧ r.channel + 1 = s.channels.length) ∨ s.ToldToFallBack r
  /-- A scanner that runs has not given up. -/
  ready_live : s.scanners ≠ [] → ∀ m, s.ready ≠ some (.error m)
  /-- Nobody registers before the scanner has its starting head. -/
  unready : ∀ sc ∈ s.scanners, sc.nextBlock = none → s.ready = none ∧ s.pending = []
  accounted : ∀ id < s.nextId, id ∈ s.accountedIds ∨ id ∈ s.dropped

theorem lifecycleInv_init : LifecycleInv {} := by
  refine ⟨?_, ?_, ?_, ?_, ?_, ?_, ?_, ?_, ?_, ?_⟩ <;> simp

/-- The scanner that is found in the list is the only one. -/
theorem LifecycleInv.erase_scanner (h : s.LifecycleInv) {i : ℕ} {sc : Scanner}
    (hsc : s.scanners[i]? = some sc) : s.scanners.eraseIdx i = [] := by
  obtain ⟨hi, -⟩ := List.getElem?_eq_some_iff.1 hsc
  have := h.single
  refine List.length_eq_zero_iff.1 ?_
  rw [List.length_eraseIdx_of_lt hi]
  omega

theorem LifecycleInv.scanners_ne {i : ℕ} {sc : Scanner} (hsc : s.scanners[i]? = some sc) :
    s.scanners ≠ [] := List.ne_nil_of_mem (List.mem_of_getElem? hsc)

/-! ## Callers -/

theorem LifecycleInv.prepare (h : s.LifecycleInv) : s.prepare.LifecycleInv := by
  unfold ReceiptTracker.prepare
  have hpos := List.length_pos_iff.2 h.channels_ne
  by_cases hrun : s.running = true
  · have hsc := h.running_iff.1 hrun
    rw [if_pos hrun]
    refine ⟨h.single, h.running_iff, h.pending_running, h.channels_ne, ?_, ?_, ?_, h.ready_live,
      h.unready, h.accounted⟩
    · simp [h.preparing_eq, ReceiptRegistration.weight]
    · intro r hr
      rcases List.mem_append.1 hr with hr | hr
      · exact h.channel_lt r hr
      · obtain rfl := List.mem_singleton.1 hr
        exact Nat.sub_lt hpos Nat.one_pos
    · intro r hr hstage
      rcases List.mem_append.1 hr with hr | hr
      · exact h.registration r hr hstage
      · obtain rfl := List.mem_singleton.1 hr
        exact Or.inl ⟨hsc, Nat.sub_add_cancel hpos⟩
  · have hsc : s.scanners = [] := by
      by_contra hne
      exact hrun (h.running_iff.2 hne)
    have hpending : s.pending = [] := by
      by_contra hne
      exact h.pending_running hne hsc
    have hready : (s.channels ++ [none])[(s.channels ++ [none]).length - 1]? = some none := by simp
    rw [if_neg hrun]
    refine ⟨?_, ?_, ?_, ?_, ?_, ?_, ?_, ?_, ?_, h.accounted⟩
    · simp [hsc]
    · simp
    · simp
    · simp
    · simp [h.preparing_eq, ReceiptRegistration.weight]
    · intro r hr
      rw [List.length_append, List.length_singleton]
      rcases List.mem_append.1 hr with hr | hr
      · exact Nat.lt_succ_of_lt (h.channel_lt r hr)
      · obtain rfl := List.mem_singleton.1 hr
        simp
    · intro r hr hstage
      rcases List.mem_append.1 hr with hr | hr
      · -- whoever was here before was told by the scanner that ran then
        obtain ⟨hne, -⟩ | htold := h.registration r hr hstage
        · exact absurd hsc hne
        · exact Or.inr ((List.getElem?_append_left (h.channel_lt r hr)).trans htold)
      · obtain rfl := List.mem_singleton.1 hr
        exact Or.inl ⟨by simp, by simp⟩
    · intro _ m
      simp [ready]
    · intro sc _ _
      exact ⟨by simp [ready], hpending⟩

/-- A registration goes to another stage; the counter follows. -/
theorem LifecycleInv.setRegistration (h : s.LifecycleInv) {i n : ℕ} {r : ReceiptRegistration}
    {stage : RegistrationStage} (hr : s.registrations[i]? = some r) (hgone : r.stage ≠ .gone)
    (hn : n + 1 = s.preparing + ReceiptRegistration.weight { r with stage }) :
    LifecycleInv { s.setRegistration i r stage with preparing := n } := by
  have hcases : ∀ x ∈ s.registrations.set i { r with stage }, x ∈ s.registrations ∨
      x = { r with stage } := fun x hx => List.mem_or_eq_of_mem_set hx
  have hmem := List.mem_of_getElem? hr
  refine ⟨h.single, h.running_iff, h.pending_running, h.channels_ne, ?_, ?_, ?_, h.ready_live,
    h.unready, h.accounted⟩
  · have hsum := List.sum_map_set { r with stage } ReceiptRegistration.weight hr
    have hone : r.weight = 1 := if_neg hgone
    show n = ((s.registrations.set i { r with stage }).map ReceiptRegistration.weight).sum
    rw [← h.preparing_eq] at hsum
    omega
  · intro x hx
    rcases hcases x hx with hx | rfl
    · exact h.channel_lt x hx
    · exact h.channel_lt r hmem
  · intro x hx hstage
    rcases hcases x hx with hx | rfl
    · exact h.registration x hx hstage
    · exact h.registration r hmem hgone

theorem LifecycleInv.register (h : s.LifecycleInv) (hash : TxHash) (receipt : Bool)
    (expiresAt : Option ℕ) : (s.register hash receipt expiresAt).LifecycleInv := by
  unfold ReceiptTracker.register
  split
  · exact h
  · rename_i hlive
    simp only [Bool.or_eq_true, Bool.not_eq_true', decide_eq_true_eq, not_or, Bool.not_eq_false,
      not_not] at hlive
    have hsc := h.running_iff.1 hlive.1
    refine ⟨h.single, h.running_iff, fun _ => hsc, h.channels_ne, h.preparing_eq, h.channel_lt,
      h.registration, h.ready_live, fun sc hmem hnone => ?_, fun id hid => ?_⟩
    · -- the scanner has its starting head: the channel says so
      rw [(h.unready sc hmem hnone).1] at hlive
      cases hlive.2
    · rcases Nat.lt_succ_iff_lt_or_eq.1 hid with hid | rfl
      · exact (h.accounted id hid).imp_left fun hin => by
          simp only [accountedIds, List.map_append, List.mem_append] at hin ⊢
          exact hin.imp_right Or.inl
      · exact Or.inl (by simp [accountedIds])

theorem LifecycleInv.dropWaiter (h : s.LifecycleInv) (id : ℕ) : (s.dropWaiter id).LifecycleInv := by
  have hsub : ∀ e ∈ s.pending.filter (fun e => e.id ≠ id), e ∈ s.pending := fun e he =>
    (List.mem_filter.1 he).1
  refine ⟨h.single, h.running_iff, fun hne => ?_, h.channels_ne, h.preparing_eq, h.channel_lt,
    h.registration, h.ready_live, fun sc hmem hnone => ⟨(h.unready sc hmem hnone).1, ?_⟩,
    fun n hn => ?_⟩
  · obtain ⟨e, he⟩ := List.exists_mem_of_ne_nil _ hne
    exact h.pending_running (List.ne_nil_of_mem (hsub e he))
  · exact List.filter_eq_nil_iff.2 fun e he => by
      rw [(h.unready sc hmem hnone).2] at he
      cases he
  · simp only [accountedIds, ReceiptTracker.dropWaiter, List.mem_append, List.mem_map,
      List.mem_filter, List.mem_singleton]
    by_cases hid : n = id
    · exact Or.inr (Or.inr hid)
    · rcases h.accounted n hn with hin | hin
      · rcases List.mem_append.1 hin with hin | hin
        · exact Or.inl (Or.inl (List.mem_map.1 hin))
        · obtain ⟨e, he, rfl⟩ := List.mem_map.1 hin
          exact Or.inl (Or.inr ⟨e, ⟨he, by simpa using hid⟩, rfl⟩)
      · exact Or.inr (Or.inl hin)

/-! ## The scanner -/

theorem LifecycleInv.setScanner (h : s.LifecycleInv) {i : ℕ} {sc' : Scanner}
    (hsc' : sc'.nextBlock = none → s.ready = none ∧ s.pending = []) :
    (s.setScanner i sc').LifecycleInv := by
  have hne : s.scanners.set i sc' ≠ [] ↔ s.scanners ≠ [] := by simp
  refine ⟨(List.length_set ..).trans_le h.single, h.running_iff.trans hne.symm,
    fun hp => hne.2 (h.pending_running hp), h.channels_ne, h.preparing_eq, h.channel_lt,
    fun r hr hstage => ?_, fun hsc => h.ready_live (hne.1 hsc), fun sc hmem hnone => ?_, h.accounted⟩
  · exact (h.registration r hr hstage).imp_left fun hlive => ⟨hne.2 hlive.1, hlive.2⟩
  · rcases List.mem_or_eq_of_mem_set hmem with hmem | rfl
    · exact h.unready sc hmem hnone
    · exact hsc' hnone

theorem LifecycleInv.resolves {right : Interest → Verdict → Prop} (h : s.LifecycleInv)
    (hr : Resolves right s t) : t.LifecycleInv := by
  have hready : t.ready = s.ready := by rw [ready, hr.channels]; rfl
  have hpending : t.pending ≠ [] → s.pending ≠ [] := fun hne hnil =>
    hne (List.sublist_nil.1 (hnil ▸ hr.pending))
  refine ⟨?_, ?_, ?_, ?_, ?_, ?_, ?_, ?_, ?_, ?_⟩
  · rw [hr.scanners]; exact h.single
  · rw [hr.scanners, hr.running]; exact h.running_iff
  · rw [hr.scanners]; exact fun hne => h.pending_running (hpending hne)
  · rw [hr.channels]; exact h.channels_ne
  · rw [hr.preparing, hr.registrations]; exact h.preparing_eq
  · rw [hr.registrations, hr.channels]; exact h.channel_lt
  · rw [hr.registrations, hr.scanners, hr.channels]
    simp only [ToldToFallBack, hr.channels]
    exact h.registration
  · rw [hr.scanners, hready]; exact h.ready_live
  · rw [hr.scanners, hready]
    intro sc hmem hnone
    obtain ⟨hnotReady, hnil⟩ := h.unready sc hmem hnone
    exact ⟨hnotReady, List.sublist_nil.1 (hnil ▸ hr.pending)⟩
  · rw [hr.nextId, hr.dropped]
    exact fun id hid => (h.accounted id hid).imp_left hr.once.mem_iff.2

/-- The scanner resolves interests and goes on from its cursor. -/
theorem LifecycleInv.resolves_setScanner {right : Interest → Verdict → Prop} (h : s.LifecycleInv)
    (hr : Resolves right s t) {i : ℕ} {sc : Scanner} {stage : ScanStage}
    (hsc : s.scanners[i]? = some sc) : (t.setScanner i { sc with stage }).LifecycleInv :=
  (h.resolves hr).setScanner fun hnone =>
    (h.resolves hr).unready sc (hr.scanners ▸ List.mem_of_getElem? hsc) hnone

/-- No scanner is left, nothing is pending, and every registration was told. -/
theorem LifecycleInv.stopped (h : s.LifecycleInv) {i : ℕ} {sc : Scanner}
    (hsc : s.scanners[i]? = some sc) (hpending : s.pending = [])
    (htold : ∀ r ∈ s.registrations, r.stage ≠ .gone → s.ToldToFallBack r) :
    LifecycleInv { s with running := false, scanners := s.scanners.eraseIdx i } := by
  rw [h.erase_scanner hsc]
  exact ⟨by simp, by simp, fun hne => absurd hpending hne, h.channels_ne, h.preparing_eq,
    h.channel_lt, fun r hr hstage => Or.inr (htold r hr hstage), fun hne => absurd rfl hne, nofun,
    h.accounted⟩

theorem ready_setReady (h : s.channels ≠ []) (ready : Ready) :
    (s.setReady ready).ready = ready := by
  have hlt : s.channels.length - 1 < s.channels.length :=
    Nat.sub_lt (List.length_pos_iff.2 h) Nat.one_pos
  simp [ReceiptTracker.ready, setReady, hlt]

/-- Only the last channel changes. -/
theorem getElem?_setReady (h : s.channels ≠ []) {ready : Ready} {j : ℕ}
    (hj : j + 1 ≠ s.channels.length) : (s.setReady ready).channels[j]? = s.channels[j]? := by
  have hpos := List.length_pos_iff.2 h
  have hne : s.channels.length - 1 ≠ j := by omega
  exact List.getElem?_set_ne hne

/-- A registration that was told is told once more, or its channel is an older one. -/
theorem LifecycleInv.told_setReady (h : s.LifecycleInv) (hsc : s.scanners ≠ []) {ready : Ready}
    {r : ReceiptRegistration} (htold : s.ToldToFallBack r) :
    (s.setReady ready).ToldToFallBack r := by
  refine (getElem?_setReady h.channels_ne fun hlast => ?_).trans htold
  refine h.ready_live hsc unsupportedMessage ?_
  rw [ReceiptTracker.ready, ← hlast, Nat.add_sub_cancel, htold]
  rfl

theorem LifecycleInv.giveUp (h : s.LifecycleInv) {i : ℕ} {sc : Scanner}
    (hsc : s.scanners[i]? = some sc) : (s.giveUp i).LifecycleInv := by
  have hne := scanners_ne hsc
  have hlt : s.channels.length - 1 < s.channels.length :=
    Nat.sub_lt (List.length_pos_iff.2 h.channels_ne) Nat.one_pos
  -- the channel in the state is told now, the channels before it were told by earlier scanners
  have htold : ∀ r ∈ s.registrations, r.stage ≠ .gone →
      (s.setReady (some (.error unsupportedMessage))).ToldToFallBack r := by
    intro r hr hstage
    obtain ⟨-, hlast⟩ | htold := h.registration r hr hstage
    · have hat : r.channel = s.channels.length - 1 := by omega
      simp [ToldToFallBack, setReady, hat, hlt]
    · exact h.told_setReady hne htold
  have hgiveUp : s.giveUp i =
      { s.setReady (some (.error unsupportedMessage)) with
        running := false
        scanners := []
        pending := []
        resolved := s.resolved ++ s.pending.map fun e => (e.id, .failed unsupportedMessage) } := by
    simp [ReceiptTracker.giveUp, resolve, setReady, h.erase_scanner hsc]
  rw [hgiveUp]
  refine ⟨by simp, by simp, fun hp => absurd rfl hp, ?_, h.preparing_eq, ?_,
    fun r hr hstage => Or.inr (htold r hr hstage), fun hp => absurd rfl hp, by simp, fun id hid => ?_⟩
  · simpa [setReady] using h.channels_ne
  · simpa [setReady] using h.channel_lt
  · refine (h.accounted id hid).imp_left fun hin => ?_
    simpa [accountedIds, Function.comp_def] using hin

theorem LifecycleInv.baseline (h : s.LifecycleInv) {i : ℕ} {sc sc' : Scanner}
    (hsc : s.scanners[i]? = some sc) (hsome : sc'.nextBlock ≠ none) :
    ((s.setReady (some (.ok ()))).setScanner i sc').LifecycleInv := by
  have hne := scanners_ne hsc
  have hlen : (s.setReady (some (.ok ()))).channels.length = s.channels.length := by
    simp [setReady]
  have hready := ready_setReady h.channels_ne (some (.ok ()))
  have honly : s.scanners.set i sc' = [sc'] := by
    obtain ⟨hi, -⟩ := List.getElem?_eq_some_iff.1 hsc
    have := h.single
    obtain ⟨x, hx⟩ := List.length_eq_one_iff.1 (show s.scanners.length = 1 by omega)
    obtain rfl : i = 0 := by rw [hx] at hi; simpa using hi
    rw [hx]
    rfl
  refine ⟨?_, ?_, ?_, ?_, h.preparing_eq, ?_, fun r hr hstage => ?_, fun _ m => ?_,
    fun sc₁ hmem hnone => ?_, h.accounted⟩
  · simpa [ReceiptTracker.setScanner, setReady] using h.single
  · simpa [ReceiptTracker.setScanner, setReady] using h.running_iff
  · simpa [ReceiptTracker.setScanner, setReady] using h.pending_running
  · exact List.ne_nil_of_length_pos (hlen ▸ List.length_pos_iff.2 h.channels_ne)
  · exact fun r hr => hlen ▸ h.channel_lt r hr
  · obtain ⟨-, hlast⟩ | htold := h.registration r hr hstage
    · exact Or.inl ⟨by simpa [ReceiptTracker.setScanner, setReady] using hne, hlast.trans hlen.symm⟩
    · exact Or.inr (h.told_setReady hne htold)
  · show (s.setReady (some (.ok ()))).ready ≠ _
    rw [hready]
    nofun
  · have hmem : sc₁ ∈ s.scanners.set i sc' := hmem
    rw [honly] at hmem
    obtain rfl := List.mem_singleton.1 hmem
    exact absurd hnone hsome

theorem LifecycleInv.move (h : s.LifecycleInv) (hm : s.Move expiry t) : t.LifecycleInv := by
  cases hm with
  | prepare => exact h.prepare
  | prepared hr hstage _ =>
      exact h.setRegistration hr (by simp [hstage]) rfl
  | @dropRegistration i r hr hstage =>
      have hone : r.weight ≤ s.preparing := by
        rw [h.preparing_eq]
        exact List.le_sum_of_mem (List.mem_map_of_mem (List.mem_of_getElem? hr))
      have hw : r.weight = 1 := if_neg hstage
      refine h.setRegistration hr hstage ?_
      simp only [ReceiptRegistration.weight, if_pos]
      omega
  | @register i r hash receipt expiresAt hr hstage _ =>
      have hreg := h.register hash receipt expiresAt
      have hsame : (s.register hash receipt expiresAt).registrations = s.registrations := by
        unfold ReceiptTracker.register
        split <;> rfl
      exact hreg.setRegistration (hsame ▸ hr) (by simp [hstage]) rfl
  | dropWaiter _ => exact h.dropWaiter _
  | stage hsc _ => exact h.setScanner fun hnone => h.unready _ (List.mem_of_getElem? hsc) hnone
  | stop hsc hpending hpreparing =>
      refine h.stopped hsc hpending fun r hr hstage => ?_
      -- nothing is preparing, so the registration is gone
      have hle : r.weight ≤ s.preparing := by
        rw [h.preparing_eq]
        exact List.le_sum_of_mem (List.mem_map_of_mem hr)
      have hw : r.weight = 1 := if_neg hstage
      omega
  | giveUp hsc => exact h.giveUp hsc
  | baseline hsc _ _ => exact h.baseline hsc (by simp)
  | headRead _ _ _ => exact h.setScanner nofun
  | dispatchHashes hsc _ _ => exact h.resolves_setScanner (s.dispatchHashes_resolves _).1 hsc
  | dispatch hsc _ _ => exact h.resolves_setScanner (s.dispatch_resolves _).1 hsc
  | expire hsc _ _ => exact (h.resolves (s.expire_resolves _)).setScanner nofun
  | submit =>
      exact ⟨h.single, h.running_iff, h.pending_running, h.channels_ne, h.preparing_eq,
        h.channel_lt, h.registration, h.ready_live, h.unready, h.accounted⟩
  | newBlock _ =>
      exact ⟨h.single, h.running_iff, h.pending_running, h.channels_ne, h.preparing_eq,
        h.channel_lt, h.registration, h.ready_live, h.unready, h.accounted⟩

theorem lifecycleInv_reachable (h : (receiptTrackerSystem expiry).Reachable s) : s.LifecycleInv :=
  h.invariant lifecycleInv_init fun _ _ _ hs hst => hs.move (step_move hst)

/-- The scanner is there for everyone who needs it. -/
structure Attended (s : ReceiptTracker) : Prop where
  single : s.scanners.length ≤ 1
  /-- The flag is right, so that a caller that sees it set joins a scanner that runs. -/
  running_iff : s.running = true ↔ s.scanners ≠ []
  pending : s.pending ≠ [] → s.scanners ≠ []
  registrations : ∀ r ∈ s.registrations, r.stage ≠ .gone → s.scanners ≠ [] ∨ s.ToldToFallBack r
  /-- A waiter that is not pending has been resolved or dropped. -/
  waiters : ∀ id < s.nextId, id ∈ s.pending.map Interest.id ∨ id ∈ s.resolved.map Prod.fst ∨
    id ∈ s.dropped

namespace Sample

/-- A first scanner gives up, a second one is started; one waiter is registered and a call of
    `prepare` waits. -/
def restarted : List Label :=
  [.newBlock ⟨0, []⟩, .prepare, .scan 0 .done, .scan 0 .unsupported, .dropRegistration 0,
    .prepare, .scan 0 .done, .scan 0 (.head 0), .prepared 1, .register 1 7 true false,
    .dropRegistration 1, .prepare]

end Sample

end ReceiptTracker

open ReceiptTracker

/-- Under every interleaving at most one scanner runs, whoever holds an interest has a scanner or was
    told to fall back, and no waiter is left pending without a scanner. -/
theorem receipt_tracker_attended {expiry : TxHash → Option ℕ} {s : ReceiptTracker}
    (h : (receiptTrackerSystem expiry).Reachable s) : s.Attended := by
  have hinv := lifecycleInv_reachable h
  refine ⟨hinv.single, hinv.running_iff, hinv.pending_running, fun r hr hstage => ?_,
    fun id hid => ?_⟩
  · exact (hinv.registration r hr hstage).imp_left And.left
  · rcases hinv.accounted id hid with hin | hin
    · exact (List.mem_append.1 hin).elim (fun hin => Or.inr (Or.inl hin)) Or.inl
    · exact Or.inr (Or.inr hin)

open ReceiptTracker.Sample in
theorem receipt_tracker_attended_restarted : ∃ s,
    (receiptTrackerSystem fun _ => none).Run System.anyStep {} restarted s ∧
      s.pending.length = 1 ∧ s.registrations.length = 3 ∧ s.Attended := by
  have hcheck : ((receiptTrackerSystem fun _ => none).exec {} restarted).any
      (fun s => s.pending.length = 1 ∧ s.registrations.length = 3) = true := by
    decide
  obtain ⟨s, hrun, hpending, hregs⟩ := System.run_of_check hcheck
  exact ⟨s, hrun, hpending, hregs, receipt_tracker_attended ⟨_, hrun⟩⟩

end TxGen
