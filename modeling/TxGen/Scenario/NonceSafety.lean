import TxGen.Scenario.NonceMoves

set_option autoImplicit false

/-! # Nonce lanes without gaps and without reuse

A nonce that outlives the gate is protected by the lanes of its submission. So on each lane that is not
ambiguous the reserved nonces are, in this order: those of accepted transactions, those of the one
submission that has the lane, and those of the one submission that is being prepared. -/

namespace TxGen

open NonceReservation

namespace ChainRun

/-! ## What a move preserves -/

/-- The other submissions see of a move what happens to the gate, to their lanes and, if they have the
    gate, to the tracker. -/
theorem Local.frame {s t : ChainRun} {j : ℕ} {y : Submission} (h : s.Local j y)
    (hgate : s.gate = some j → t.gate = some j ∧ t.nonces = s.nonces)
    (hactive : ∀ key ∈ y.guard, t.lanes.active key = s.lanes.active key)
    (hambiguous : y.phase.committed = true → ∀ key ∈ t.lanes.ambiguous,
      key ∈ s.lanes.ambiguous ∨ y.phase.heldOn key = []) : t.Local j y where
  shaped := h.shaped
  gate := fun hneeds => (hgate (h.gate hneeds)).1
  active := fun key hkey => (hactive key hkey).trans (h.active key hkey)
  newest := fun tx htx => by
    rw [(hgate (h.gate (SubmissionPhase.needsGate_of_freshTx htx))).2]
    exact h.newest tx htx
  committed := fun hc key hkey => (hambiguous hc key hkey).elim (h.committed hc key) id

/-- A move that replaces one submission. -/
theorem Inv.set {s t : ChainRun} (h : s.Inv) {i : ℕ} {x x' : Submission}
    (hx : s.submissions[i]? = some x) (hsubs : t.submissions = s.submissions.set i x')
    (hlocal : t.Local i x')
    (hothers : ∀ (j : ℕ) (y : Submission), j ≠ i → s.submissions[j]? = some y → t.Local j y)
    (hguard : x'.guard ⊆ x.guard ∨
      ∀ (j : ℕ) (y : Submission), s.submissions[j]? = some y → Disjoint x'.guard y.guard)
    (hlane : ∀ key ∉ t.lanes.ambiguous, t.LaneInv key) : t.Inv where
  here := by
    intro j y hy
    rw [hsubs] at hy
    rcases List.getElem?_set_cases hy with ⟨rfl, rfl⟩ | ⟨hne, hy⟩
    · exact hlocal
    · exact hothers j y hne hy
  disjoint := by
    have hnew : ∀ (j : ℕ) (y : Submission), j ≠ i → s.submissions[j]? = some y →
        Disjoint x'.guard y.guard := by
      intro j y hne hy
      rcases hguard with hsub | hfree
      · exact Finset.disjoint_of_subset_left hsub (h.disjoint i j x y hx hy hne.symm)
      · exact hfree j y hy
    intro j k y z hy hz hne
    rw [hsubs] at hy hz
    rcases List.getElem?_set_cases hy with ⟨rfl, rfl⟩ | ⟨hji, hold⟩
    · rcases List.getElem?_set_cases hz with ⟨rfl, rfl⟩ | ⟨hki, hold'⟩
      · exact absurd rfl hne
      · exact hnew k z hki hold'
    · rcases List.getElem?_set_cases hz with ⟨rfl, rfl⟩ | ⟨hki, hold'⟩
      · exact (hnew j y hji hold).symm
      · exact h.disjoint j k y z hold hold' hne
  lane := hlane

/-- A lane on which a move neither dispatches nor accepts. -/
theorem LaneInv.set {s t : ChainRun} {key : SchedulingKey} (h : s.LaneInv key) {i : ℕ}
    {x x' : Submission} (hx : s.submissions[i]? = some x)
    (hsubs : t.submissions = s.submissions.set i x')
    (haccepted : t.acceptedOn key = s.acceptedOn key)
    (hdispatched : t.dispatchedOn key = s.dispatchedOn key) (hbase : t.base key = s.base key)
    (hcount : t.nonces.current key + (x.phase.heldOn key).length =
      s.nonces.current key + (x'.phase.heldOn key).length)
    (hholder : key ∈ x'.guard → x'.phase.heldOn key = List.range'
      (s.base key + (s.acceptedOn key).length) (x'.phase.heldOn key).length)
    (hbound : key ∈ x'.guard → (s.dispatchedOn key).length ≤
      (s.acceptedOn key).length + (x'.phase.heldOn key).length)
    (hdecided : key ∈ x'.guard → x'.phase.undecided = false →
      (s.dispatchedOn key).length = (s.acceptedOn key).length)
    (hsent : key ∈ x'.guard → ∀ tx, x'.phase ≠ .sent tx)
    (hidle : key ∉ x'.guard → key ∈ x.guard →
      (s.dispatchedOn key).length = (s.acceptedOn key).length) : t.LaneInv key := by
  have hcases : ∀ {j : ℕ} {y : Submission}, t.submissions[j]? = some y →
      (j = i ∧ y = x') ∨ (j ≠ i ∧ s.submissions[j]? = some y) := by
    intro j y hy
    rw [hsubs] at hy
    exact List.getElem?_set_cases hy
  refine ⟨?_, ?_, ?_, fun j y hy hkey => ?_, fun j y hy hkey hdec => ?_,
    fun j y tx hy hkey hphase => ?_, fun j y hy hkey => ?_, fun hnone => ?_⟩
  · rw [haccepted, hbase]
    exact h.accepted
  · rw [hdispatched, hbase]
    exact h.dispatched
  · have hsum := List.sum_map_set x' (fun x : Submission => (x.phase.heldOn key).length) hx
    have hnext := h.next
    rw [haccepted, hbase, ChainRun.heldOn, hsubs]
    unfold ChainRun.heldOn at hnext
    omega
  · rw [haccepted, hbase]
    rcases hcases hy with ⟨rfl, rfl⟩ | ⟨hne, hy⟩
    · exact hholder hkey
    · exact h.holder j y hy hkey
  · rw [haccepted, hdispatched]
    rcases hcases hy with ⟨rfl, rfl⟩ | ⟨hne, hy⟩
    · exact hdecided hkey hdec
    · exact h.decided j y hy hkey hdec
  · rw [haccepted, hdispatched]
    rcases hcases hy with ⟨rfl, rfl⟩ | ⟨hne, hy⟩
    · exact absurd hphase (hsent hkey tx)
    · exact h.sent j y tx hy hkey hphase
  · rw [haccepted, hdispatched]
    rcases hcases hy with ⟨rfl, rfl⟩ | ⟨hne, hy⟩
    · exact hbound hkey
    · exact h.bound j y hy hkey
  · rw [haccepted, hdispatched]
    have hi : i < s.submissions.length := (List.getElem?_eq_some_iff.1 hx).1
    have hx' : key ∉ x'.guard := hnone i x' (by rw [hsubs]; exact List.getElem?_set_self hi)
    by_cases hkey : key ∈ x.guard
    · exact hidle hx' hkey
    · refine h.idle fun j y hy => ?_
      by_cases hji : j = i
      · subst hji
        obtain rfl := Option.some.inj (hx.symm.trans hy)
        exact hkey
      · exact hnone j y (by rw [hsubs, List.getElem?_set_ne (Ne.symm hji)]; exact hy)

theorem Inv.goto {s : ChainRun} (h : s.Inv) {i : ℕ} {x : Submission} {phase : SubmissionPhase}
    {gate : Option ℕ} {nonces : NonceTracker} (hx : s.submissions[i]? = some x)
    (hgo : s.Goes i x phase gate nonces) : Inv { s.goto i x phase with gate, nonces } := by
  have hlocal := h.here i x hx
  refine h.set hx rfl ⟨hgo.shaped, hgo.locked, hlocal.active, hgo.newest, hgo.committed⟩ ?_
    (Or.inl (Finset.Subset.refl _)) fun key hgood => ?_
  · intro j y hne hy
    refine (h.here j y hy).frame (fun hgate => ⟨hgo.keep j hne hgate, ?_⟩) (fun _ _ => rfl)
      fun _ key hkey => Or.inl hkey
    rcases hgo.tracker with hsame | hgate'
    · exact hsame
    · exact absurd (Option.some.inj (hgate.symm.trans hgate')) hne
  · have hlane := h.lane key hgood
    have hdecided : key ∈ x.guard → phase.undecided = false →
        (s.dispatchedOn key).length = (s.acceptedOn key).length := by
      intro hkey hdec
      rcases hgo.decided hdec with hold | ⟨tx, hphase, hnot⟩
      · exact hlane.decided i x hx hkey hold
      · rw [hlane.sent i x tx hx hkey hphase, SubmissionPhase.heldOn_of_not_ordered
          (by rw [hphase]; rfl) hnot key]
        rfl
    refine hlane.set hx rfl rfl rfl rfl (hgo.count key) (fun hkey => ?_) (fun hkey => ?_)
      hdecided (fun _ => hgo.sent) fun hkey hin => absurd hin hkey
    · rcases hgo.holder key hkey with hsame | ⟨hnil, -⟩
      · show phase.heldOn key = _
        rw [hsame]
        exact hlane.holder i x hx hkey
      · show phase.heldOn key = List.range' _ (phase.heldOn key).length
        rw [hnil]
        rfl
    · show (s.dispatchedOn key).length ≤ _ + (phase.heldOn key).length
      rcases hgo.holder key hkey with hsame | ⟨-, hdec⟩
      · rw [hsame]
        exact hlane.bound i x hx hkey
      · rw [hdecided hkey hdec]
        exact Nat.le_add_right ..

/-- A lane that nobody has, when all of it is in the hands of one submission. -/
theorem Inv.lane_free {s : ChainRun} (h : s.Inv) {i : ℕ} {x : Submission} {tx : MaterializedTx}
    (hx : s.submissions[i]? = some x) (hfresh : x.phase.freshTx? = some tx) {key : SchedulingKey}
    (hgood : key ∉ s.lanes.ambiguous)
    (hfree : ∀ (j : ℕ) (y : Submission), s.submissions[j]? = some y → key ∉ y.guard) :
    x.phase.heldOn key = List.range' (s.base key + (s.acceptedOn key).length)
      (x.phase.heldOn key).length := by
  have hlocal := h.here i x hx
  obtain ⟨first, hrange, hcurrent⟩ := hlocal.newest tx hfresh key
  have hnext := (h.lane key hgood).next
  have hheld : x.phase.heldOn key = orderedOn tx.nonceReservations key := by
    rw [SubmissionPhase.heldOn, SubmissionPhase.tx?_of_freshTx hfresh]
    rfl
  rw [h.heldOn_eq hx (hlocal.gate (SubmissionPhase.needsGate_of_freshTx hfresh))
    fun j y hy _ => hfree j y hy, hheld] at hnext
  rw [hheld]
  rwa [show s.base key + (s.acceptedOn key).length = first by omega]

theorem acquired_spec {lanes lanes' : SubmissionLaneState} {keys : Finset SchedulingKey}
    {owner : SubmissionLaneOwner} {predecessors : Finset String}
    (h : lanes.tryAcquire keys owner predecessors = (.acquired, lanes')) :
    (∀ key ∈ keys, lanes.active key = none ∧ lanes'.active key = some owner) ∧
      (∀ key ∉ keys, lanes'.active key = lanes.active key) ∧ lanes'.ambiguous = lanes.ambiguous := by
  unfold SubmissionLaneState.tryAcquire at h
  split at h
  · cases h
  split at h
  · cases h
  split at h
  · cases h
  rename_i hfree
  cases h
  refine ⟨fun key hkey => ⟨?_, if_pos hkey⟩, fun key hkey => if_neg hkey, rfl⟩
  by_contra hactive
  exact hfree ⟨key, hkey, by simpa [Option.isSome_iff_ne_none] using hactive⟩

theorem Inv.acquire {s : ChainRun} (h : s.Inv) {i : ℕ} {x : Submission} {tx : MaterializedTx}
    {phase : SubmissionPhase} {lanes : SubmissionLaneState} (hx : s.submissions[i]? = some x)
    (hphase : x.phase = .checked tx ∧ phase = .signing tx ∨
      x.phase = .waitingForLanes tx ∧ phase = .signed tx)
    (hacquired : s.lanes.tryAcquire tx.keys x.owner x.orderedPredecessors = (.acquired, lanes)) :
    Inv { s.put i { x with guard := tx.keys, phase } with lanes } := by
  have hlocal := h.here i x hx
  have hshaped := hlocal.shaped
  obtain ⟨hkeys, hothers, hambiguous⟩ := acquired_spec hacquired
  -- nobody has a key that was free
  have hfree : ∀ key ∈ tx.keys, ∀ (j : ℕ) (y : Submission), s.submissions[j]? = some y →
      key ∉ y.guard := by
    intro key hkey j y hy hin
    exact nomatch ((hkeys key hkey).1.symm.trans ((h.here j y hy).active key hin))
  have hheld : ∀ key, phase.heldOn key = x.phase.heldOn key := by
    intro key
    rcases hphase with ⟨hold, rfl⟩ | ⟨hold, rfl⟩ <;> rw [hold] <;> rfl
  have hnext : Submission.Shaped { x with guard := tx.keys, phase } ∧
      (phase.needsGate = true → s.gate = some i) ∧
      (∀ tx', phase.freshTx? = some tx' → s.nonces.Newest tx'.nonceReservations) ∧
      (∀ key ∈ tx.keys, key ∉ s.lanes.ambiguous → x.phase.heldOn key = List.range'
        (s.base key + (s.acceptedOn key).length) (x.phase.heldOn key).length) := by
    unfold Submission.Shaped at hshaped ⊢
    rcases hphase with ⟨hold, rfl⟩ | ⟨hold, rfl⟩
    · simp only [hold] at hshaped
      have hfresh : x.phase.freshTx? = some tx := by rw [hold]; rfl
      refine ⟨⟨rfl, hshaped.2⟩, fun _ => hlocal.gate (by rw [hold]; rfl), fun tx' htx' => ?_,
        fun key hkey hgood => h.lane_free hx hfresh hgood (hfree key hkey)⟩
      obtain ⟨-, hsame⟩ := Option.ite_none_right_eq_some.1 htx'
      cases hsame
      exact hlocal.newest _ hfresh
    · simp only [hold] at hshaped
      have hnone : ∀ key, orderedOn tx.nonceReservations key = [] :=
        orderedOn_of_not_hasOrdered hshaped.2
      refine ⟨⟨rfl, fun key hne => absurd (hnone key) hne⟩,
        fun hneeds => absurd (hneeds.symm.trans hshaped.2) nofun, fun tx' htx' => ?_,
        fun key _ _ => ?_⟩
      · exact absurd ((Option.ite_none_right_eq_some.1 htx').1.symm.trans hshaped.2) nofun
      · rw [SubmissionPhase.heldOn_of_not_ordered (by rw [hold]; rfl) hshaped.2 key]
        rfl
  obtain ⟨hshaped', hgate, hnewest, hholder⟩ := hnext
  have hplain : phase.committed = false ∧ phase.undecided = false ∧ ∀ tx', phase ≠ .sent tx' := by
    rcases hphase with ⟨-, rfl⟩ | ⟨-, rfl⟩ <;> exact ⟨rfl, rfl, nofun⟩
  obtain ⟨hcommitted, hundecided, hsent⟩ := hplain
  have hdecided : ∀ key ∈ tx.keys, key ∉ s.lanes.ambiguous →
      (s.dispatchedOn key).length = (s.acceptedOn key).length :=
    fun key hkey hgood => (h.lane key hgood).idle (hfree key hkey)
  refine h.set hx rfl ⟨hshaped', hgate, fun key hkey => (hkeys key hkey).2, hnewest,
    fun hc => absurd (hc.symm.trans hcommitted) nofun⟩ (fun j y hne hy => ?_)
    (Or.inr fun j y hy => Finset.disjoint_left.2 fun key hkey => hfree key hkey j y hy)
    fun key hgood => ?_
  · refine (h.here j y hy).frame (fun hgate => ⟨hgate, rfl⟩) (fun key hkey => ?_) fun _ key hkey =>
      Or.inl (hambiguous ▸ hkey)
    exact hothers key fun hin => hfree key hin j y hy hkey
  · have hgood' : key ∉ s.lanes.ambiguous := fun hin => hgood (hambiguous ▸ hin)
    refine (h.lane key hgood').set hx rfl rfl rfl rfl ?_ (fun hkey => ?_) (fun hkey => ?_)
      (fun hkey _ => hdecided key hkey hgood') (fun _ => hsent) fun _ hin => ?_
    · show _ + _ = _ + (phase.heldOn key).length
      rw [hheld key]
      rfl
    · show phase.heldOn key = List.range' _ (phase.heldOn key).length
      rw [hheld key]
      exact hholder key hkey hgood'
    · rw [hdecided key hkey hgood']
      exact Nat.le_add_right ..
    · have hguard : x.guard = ∅ := by
        unfold Submission.Shaped at hshaped
        rcases hphase with ⟨hold, -⟩ | ⟨hold, -⟩ <;> simp only [hold] at hshaped <;> exact hshaped.1
      simp [hguard] at hin

theorem Inv.dropGuard {s : ChainRun} (h : s.Inv) {i : ℕ} {x : Submission} {phase : SubmissionPhase}
    (hx : s.submissions[i]? = some x)
    (hphase : x.phase = .ended ∧ phase = .ended ∨ ∃ tx, x.phase = .signed tx ∧
      tx.hasOrderedNonces = true ∧ phase = .rollingBack tx .disabledLane) :
    Inv { s.put i { x with guard := ∅, phase } with
      lanes := s.lanes.dropGuard ⟨x.guard, x.owner⟩ } := by
  have hlocal := h.here i x hx
  have hshaped := hlocal.shaped
  have hfacts : Submission.Shaped { x with guard := ∅, phase } ∧
      (phase.needsGate = true → s.gate = some i) ∧
      (∀ tx', phase.freshTx? = some tx' → s.nonces.Newest tx'.nonceReservations) ∧
      phase.committed = false ∧ x.phase.undecided = false ∧
      ∀ key, phase.heldOn key = x.phase.heldOn key := by
    unfold Submission.Shaped at hshaped ⊢
    rcases hphase with ⟨hold, rfl⟩ | ⟨tx, hold, hordered, rfl⟩
    · exact ⟨trivial, nofun, nofun, rfl, by rw [hold]; rfl, fun key => by rw [hold]⟩
    · simp only [hold] at hshaped
      have hfresh : x.phase.freshTx? = some tx := by rw [hold]; exact if_pos hordered
      refine ⟨⟨rfl, hshaped.2⟩, fun _ => hlocal.gate (by rw [hold]; exact hordered),
        fun tx' htx' => ?_, rfl, by rw [hold]; rfl, fun key => by rw [hold]; rfl⟩
      cases htx'
      exact hlocal.newest tx hfresh
  obtain ⟨hshaped', hgate, hnewest, hcommitted, hundecided, hheld⟩ := hfacts
  refine h.set hx rfl ⟨hshaped', hgate, nofun, hnewest,
    fun hc => absurd (hc.symm.trans hcommitted) nofun⟩ (fun j y hne hy => ?_)
    (Or.inl (Finset.empty_subset _)) fun key hgood => ?_
  · refine (h.here j y hy).frame (fun hgate => ⟨hgate, rfl⟩) (fun key hkey => ?_) fun _ key hkey =>
      Or.inl hkey
    exact if_neg fun hin => Finset.disjoint_left.1 (h.disjoint i j x y hx hy hne.symm) hin.1 hkey
  · have hlane := h.lane key hgood
    refine hlane.set hx rfl rfl rfl rfl ?_ nofun nofun nofun nofun
      fun _ hin => hlane.decided i x hx hin hundecided
    show _ + _ = _ + (phase.heldOn key).length
    rw [hheld key]
    rfl

theorem Inv.markAmbiguous {s : ChainRun} (h : s.Inv) {i : ℕ} {x : Submission} {tx : MaterializedTx}
    (hx : s.submissions[i]? = some x) (hphase : x.phase = .disabling tx) :
    Inv { s.goto i x .ended with lanes := s.lanes.markAmbiguous tx.keys } := by
  have hlocal := h.here i x hx
  have hshaped := hlocal.shaped
  simp only [Submission.Shaped, hphase] at hshaped
  obtain ⟨hguard, hcovered, -⟩ := hshaped
  refine h.set hx rfl ⟨trivial, (by rintro ⟨⟩), hlocal.active, (by rintro _ ⟨⟩), (by rintro ⟨⟩)⟩ (fun j y hne hy => ?_)
    (Or.inl (Finset.Subset.refl _)) fun key hgood => ?_
  · refine (h.here j y hy).frame (fun hgate => ⟨hgate, rfl⟩) (fun _ _ => rfl)
      fun hc key hkey => ?_
    rcases Finset.mem_union.1 hkey with hold | hnew
    · exact Or.inl hold
    · refine Or.inr (by_contra fun hne' => ?_)
      have hin := (h.here j y hy).shaped.guard_of_committed hc hne'
      exact Finset.disjoint_left.1 (h.disjoint i j x y hx hy hne.symm) (hguard ▸ hnew) hin
  · have hnot := Finset.notMem_union.1 hgood
    have hnil : x.phase.heldOn key = [] := by
      rw [hphase]
      by_contra hne
      exact hnot.2 (hcovered key hne)
    refine (h.lane key hnot.1).set hx rfl rfl rfl rfl ?_ (fun _ => rfl)
      (fun hkey => absurd (hguard ▸ hkey) hnot.2) (fun hkey => absurd (hguard ▸ hkey) hnot.2)
      (by rintro _ _ ⟨⟩) fun hkey hin => absurd hin hkey
    rw [hnil]
    rfl

/-- A lane that the `i`-th submission has. -/
theorem LaneInv.of_holder {s : ChainRun} {key : SchedulingKey} {i : ℕ} {x : Submission}
    (hx : s.submissions[i]? = some x) (hkey : key ∈ x.guard)
    (hothers : ∀ (j : ℕ) (y : Submission), s.submissions[j]? = some y → key ∈ y.guard → j = i)
    (haccepted : s.acceptedOn key = List.range' (s.base key) (s.acceptedOn key).length)
    (hdispatched : s.dispatchedOn key = List.range' (s.base key) (s.dispatchedOn key).length)
    (hnext : s.nonces.current key = s.base key + (s.acceptedOn key).length + s.heldOn key)
    (hholder : x.phase.heldOn key = List.range' (s.base key + (s.acceptedOn key).length)
      (x.phase.heldOn key).length)
    (hbound : (s.dispatchedOn key).length ≤
      (s.acceptedOn key).length + (x.phase.heldOn key).length)
    (hdecided : x.phase.undecided = false →
      (s.dispatchedOn key).length = (s.acceptedOn key).length)
    (hsent : ∀ tx, x.phase = .sent tx → (s.dispatchedOn key).length =
      (s.acceptedOn key).length + (x.phase.heldOn key).length) : s.LaneInv key := by
  have hsame : ∀ {j : ℕ} {y : Submission}, s.submissions[j]? = some y → key ∈ y.guard → y = x := by
    intro j y hy hin
    obtain rfl := hothers j y hy hin
    exact Option.some.inj (hy.symm.trans hx)
  refine ⟨haccepted, hdispatched, hnext, fun j y hy hin => ?_, fun j y hy hin hdec => ?_,
    fun j y tx hy hin hphase => ?_, fun j y hy hin => ?_, fun hnone => absurd hkey (hnone i x hx)⟩
  · obtain rfl := hsame hy hin
    exact hholder
  · obtain rfl := hsame hy hin
    exact hdecided hdec
  · obtain rfl := hsame hy hin
    exact hsent tx hphase
  · obtain rfl := hsame hy hin
    exact hbound

/-- After the `i`-th submission went on, it alone has the lanes that it had. -/
theorem Inv.holder_unique {s : ChainRun} (h : s.Inv) {i : ℕ} {x x' : Submission}
    (hx : s.submissions[i]? = some x) {key : SchedulingKey} (hkey : key ∈ x.guard) (j : ℕ)
    (y : Submission) (hy : (s.submissions.set i x')[j]? = some y) (hin : key ∈ y.guard) : j = i := by
  rcases List.getElem?_set_cases hy with ⟨hji, -⟩ | ⟨hne, hold⟩
  · exact hji
  · exact absurd hin (Finset.disjoint_left.1 (h.disjoint i j x y hx hold hne.symm) hkey)

/-- A submission that is in front of or behind its RPC holds nonces of its lanes only. -/
theorem heldOn_eq_nil {s : ChainRun} (h : s.Inv) {i : ℕ} {x : Submission}
    (hx : s.submissions[i]? = some x) (hneeds : x.phase.needsGate = false) {key : SchedulingKey}
    (hkey : key ∉ x.guard) : x.phase.heldOn key = [] := by
  by_contra hne
  rcases (h.here i x hx).shaped.protected hne with hin | hgate
  · exact hkey hin
  · exact nomatch hneeds.symm.trans hgate

theorem Inv.dispatch {s : ChainRun} (h : s.Inv) {i : ℕ} {x : Submission} {tx : MaterializedTx}
    (hx : s.submissions[i]? = some x) (hphase : x.phase = .ready tx) :
    Inv { s.goto i x (.sent tx) with dispatched := s.dispatched ++ tx.nonceReservations } := by
  have hlocal := h.here i x hx
  have hshaped := hlocal.shaped
  simp only [Submission.Shaped, hphase] at hshaped
  have hheld : ∀ key, x.phase.heldOn key = orderedOn tx.nonceReservations key := by
    intro key
    rw [hphase]
    rfl
  refine h.set hx rfl ⟨hshaped, (by rintro ⟨⟩), hlocal.active, (by rintro _ ⟨⟩), fun _ key hkey => ?_⟩
    (fun j y hne hy => (h.here j y hy).frame (fun hgate => ⟨hgate, rfl⟩) (fun _ _ => rfl)
      fun _ key hkey => Or.inl hkey)
    (Or.inl (Finset.Subset.refl _)) fun key hgood => ?_
  · show orderedOn tx.nonceReservations key = []
    rw [← hheld key]
    exact hlocal.committed (by rw [hphase]; rfl) key hkey
  have hlane := h.lane key hgood
  by_cases hkey : key ∈ x.guard
  · have hdecided := hlane.decided i x hx hkey (by rw [hphase]; rfl)
    have hholder := hlane.holder i x hx hkey
    have hlt := (List.getElem?_eq_some_iff.1 hx).1
    have hcount := List.sum_map_set { x with phase := .sent tx }
      (fun x : Submission => (x.phase.heldOn key).length) hx
    have hheld' : (SubmissionPhase.sent tx).heldOn key = x.phase.heldOn key := (hheld key).symm
    have hlength : (orderedOn (s.dispatched ++ tx.nonceReservations) key).length =
        (s.acceptedOn key).length + (x.phase.heldOn key).length := by
      rw [orderedOn_append, List.length_append, hheld key, ← hdecided]
      rfl
    refine LaneInv.of_holder (List.getElem?_set_self hlt) hkey (h.holder_unique hx hkey)
      hlane.accepted ?_ ?_ ?_ ?_ (by rintro ⟨⟩) fun _ _ => ?_
    · show orderedOn (s.dispatched ++ tx.nonceReservations) key = List.range' (s.base key)
        (orderedOn (s.dispatched ++ tx.nonceReservations) key).length
      rw [hlength, orderedOn_append, ← hheld key, hholder, List.length_range',
        show orderedOn s.dispatched key = s.dispatchedOn key from rfl, hlane.dispatched, hdecided,
        List.range'_append_1]
    · have hnext := hlane.next
      show s.nonces.current key = _ + _ + ((s.submissions.set i _).map _).sum
      simp only [hheld'] at hcount
      unfold ChainRun.heldOn at hnext
      exact hnext.trans (congrArg _ (Nat.add_right_cancel hcount).symm)
    · show (SubmissionPhase.sent tx).heldOn key = List.range' _
        ((SubmissionPhase.sent tx).heldOn key).length
      rw [hheld']
      exact hholder
    · show _ ≤ _ + ((SubmissionPhase.sent tx).heldOn key).length
      rw [hheld']
      exact hlength.le
    · show _ = _ + ((SubmissionPhase.sent tx).heldOn key).length
      rw [hheld']
      exact hlength
  · have hnil := heldOn_eq_nil h hx (by rw [hphase]; rfl) hkey
    have hdispatched : orderedOn (s.dispatched ++ tx.nonceReservations) key = s.dispatchedOn key := by
      rw [orderedOn_append, ← hheld key, hnil, List.append_nil]
      rfl
    refine hlane.set hx rfl rfl hdispatched rfl ?_ (fun hin => absurd hin hkey)
      (fun hin => absurd hin hkey) (fun hin => absurd hin hkey) (fun hin => absurd hin hkey)
      fun _ hin => absurd hin hkey
    show _ + _ = _ + (orderedOn tx.nonceReservations key).length
    rw [hheld key]
    rfl

theorem Inv.accept {s : ChainRun} (h : s.Inv) {i : ℕ} {x : Submission} {tx : MaterializedTx}
    (hx : s.submissions[i]? = some x) (hphase : x.phase = .sent tx) :
    Inv { s.goto i x .ended with accepted := s.accepted ++ tx.nonceReservations } := by
  have hlocal := h.here i x hx
  have hheld : ∀ key, x.phase.heldOn key = orderedOn tx.nonceReservations key := by
    intro key
    rw [hphase]
    rfl
  refine h.set hx rfl ⟨trivial, nofun, hlocal.active, nofun, nofun⟩
    (fun j y hne hy => (h.here j y hy).frame (fun hgate => ⟨hgate, rfl⟩) (fun _ _ => rfl)
      fun _ key hkey => Or.inl hkey)
    (Or.inl (Finset.Subset.refl _)) fun key hgood => ?_
  have hlane := h.lane key hgood
  by_cases hkey : key ∈ x.guard
  · have hsent := hlane.sent i x tx hx hkey hphase
    have hholder := hlane.holder i x hx hkey
    have hlt := (List.getElem?_eq_some_iff.1 hx).1
    have hcount := List.sum_map_set { x with phase := .ended }
      (fun x : Submission => (x.phase.heldOn key).length) hx
    have hlength : (orderedOn (s.accepted ++ tx.nonceReservations) key).length =
        (s.dispatchedOn key).length := by
      rw [orderedOn_append, List.length_append, ← hheld key, hsent]
      rfl
    refine LaneInv.of_holder (List.getElem?_set_self hlt) hkey (h.holder_unique hx hkey)
      ?_ hlane.dispatched ?_ rfl ?_ (fun _ => hlength.symm) nofun
    · show orderedOn (s.accepted ++ tx.nonceReservations) key = List.range' (s.base key)
        (orderedOn (s.accepted ++ tx.nonceReservations) key).length
      rw [hlength, hsent, orderedOn_append, ← hheld key, hholder, List.length_range',
        show orderedOn s.accepted key = s.acceptedOn key from rfl, hlane.accepted,
        List.length_range', List.range'_append_1]
    · have hnext := hlane.next
      show s.nonces.current key = s.base key +
        (orderedOn (s.accepted ++ tx.nonceReservations) key).length +
        ((s.submissions.set i _).map _).sum
      have hnil : (SubmissionPhase.ended.heldOn key).length = 0 := rfl
      simp only [hnil] at hcount
      unfold ChainRun.heldOn at hnext
      omega
    · exact hlength.ge.trans (Nat.le_add_right ..)
  · have hnil := heldOn_eq_nil h hx (by rw [hphase]; rfl) hkey
    have haccepted : orderedOn (s.accepted ++ tx.nonceReservations) key = s.acceptedOn key := by
      rw [orderedOn_append, ← hheld key, hnil, List.append_nil]
      rfl
    refine hlane.set hx rfl haccepted rfl rfl ?_ (fun hin => absurd hin hkey)
      (fun hin => absurd hin hkey) (fun hin => absurd hin hkey) (fun hin => absurd hin hkey)
      fun _ hin => absurd hin hkey
    rw [hnil]
    rfl

/-- A move that leaves the submissions and the tracker alone. -/
theorem LaneInv.frame {s t : ChainRun} {key : SchedulingKey} (h : s.LaneInv key)
    (hsubs : t.submissions = s.submissions) (hcurrent : t.nonces.current key = s.nonces.current key)
    (haccepted : t.acceptedOn key = s.acceptedOn key)
    (hdispatched : t.dispatchedOn key = s.dispatchedOn key) (hbase : t.base key = s.base key) :
    t.LaneInv key := by
  have hheld : t.heldOn key = s.heldOn key := by rw [ChainRun.heldOn, hsubs]; rfl
  refine ⟨?_, ?_, ?_, ?_, ?_, ?_, ?_, ?_⟩
  · rw [haccepted, hbase]
    exact h.accepted
  · rw [hdispatched, hbase]
    exact h.dispatched
  · rw [hcurrent, hbase, haccepted, hheld]
    exact h.next
  · rw [hsubs, hbase, haccepted]
    exact h.holder
  · rw [hsubs, hdispatched, haccepted]
    exact h.decided
  · rw [hsubs, hdispatched, haccepted]
    exact h.sent
  · rw [hsubs, hdispatched, haccepted]
    exact h.bound
  · rw [hsubs, hdispatched, haccepted]
    exact h.idle

/-- Fetching the nonce of a lane fixes where the lane begins; nothing was ever reserved on it. -/
theorem Inv.fetch {s : ChainRun} (h : s.Inv) (key : SchedulingKey) (nonce : ℕ) {i : ℕ}
    {x : Submission} (hgate : s.gate = some i) (hx : s.submissions[i]? = some x)
    (hphase : x.phase = .preparing) (hnew : s.nonces.contains key = false) :
    Inv { s with
      nonces := s.nonces.reset key nonce
      base := Function.update s.base key nonce } := by
  refine ⟨fun j y hy => ?_, h.disjoint, fun k hgood => ?_⟩
  · have hlocal := h.here j y hy
    refine ⟨hlocal.shaped, hlocal.gate, hlocal.active, fun tx htx => ?_, hlocal.committed⟩
    have hj := hlocal.gate (SubmissionPhase.needsGate_of_freshTx htx)
    obtain rfl := Option.some.inj (hgate.symm.trans hj)
    obtain rfl := Option.some.inj (hx.symm.trans hy)
    rw [hphase] at htx
    cases htx
  · have hlane := h.lane k hgood
    by_cases hk : k = key
    · subst hk
      have hnext := hlane.next
      rw [NonceTracker.current_of_not_contains hnew] at hnext
      have hsum : (s.submissions.map fun x => (x.phase.heldOn k).length).sum = 0 := by
        show s.heldOn k = 0
        omega
      have hheld : ∀ (j : ℕ) (y : Submission), s.submissions[j]? = some y → y.phase.heldOn k = [] :=
        fun j y hy => List.length_eq_zero_iff.1 (List.sum_eq_zero_iff.1 hsum _
          (List.mem_map.2 ⟨y, List.mem_of_getElem? hy, rfl⟩))
      have haccepted : s.acceptedOn k = [] := List.length_eq_zero_iff.1 (by omega)
      have hdispatched : s.dispatchedOn k = [] := by
        by_cases hidle : ∀ (j : ℕ) (y : Submission), s.submissions[j]? = some y → k ∉ y.guard
        · exact List.length_eq_zero_iff.1 (by rw [hlane.idle hidle, haccepted]; rfl)
        · push Not at hidle
          obtain ⟨j, y, hy, hin⟩ := hidle
          have := hlane.bound j y hy hin
          rw [haccepted, hheld j y hy] at this
          exact List.length_eq_zero_iff.1 (Nat.le_zero.1 this)
      have hnil : ∀ (l : List ℕ), l = [] → ∀ m, l = List.range' m l.length := by
        rintro _ rfl m
        rfl
      have hequal : (s.dispatchedOn k).length = (s.acceptedOn k).length := by
        rw [haccepted, hdispatched]
      refine ⟨hnil _ haccepted _, hnil _ hdispatched _, ?_, fun j y hy _ => hnil _ (hheld j y hy) _,
        fun _ _ _ _ _ => hequal, hlane.sent, hlane.bound, fun _ => hequal⟩
      show (s.nonces.reset k nonce).current k = Function.update s.base k nonce k +
        (s.acceptedOn k).length + (s.submissions.map fun x => (x.phase.heldOn k).length).sum
      simp [haccepted, hsum]
    · exact hlane.frame rfl (by simp [hk]) rfl rfl (Function.update_of_ne hk ..)

/-- A new submission holds nothing. -/
theorem Inv.executeSubmit {s : ChainRun} (h : s.Inv) (owner : SubmissionLaneOwner)
    (orderedPredecessors : Finset String) :
    Inv { s with submissions := s.submissions ++ [{ owner, orderedPredecessors }] } := by
  have hcases : ∀ {j : ℕ} {y x : Submission}, (s.submissions ++ [x])[j]? = some y →
      s.submissions[j]? = some y ∨ y = x :=
    fun hy => (List.getElem?_concat_cases hy).imp_right And.right
  refine ⟨fun j y hy => ?_, fun j k y z hy hz hne => ?_, fun key hgood => ?_⟩
  · rcases hcases hy with hold | rfl
    · exact (h.here j y hold).frame (fun hgate => ⟨hgate, rfl⟩) (fun _ _ => rfl)
        fun _ key hkey => Or.inl hkey
    · exact ⟨rfl, nofun, nofun, nofun, nofun⟩
  · rcases hcases hy with hy | rfl
    · rcases hcases hz with hz | rfl
      · exact h.disjoint j k y z hy hz hne
      · exact Finset.disjoint_empty_right _
    · exact Finset.disjoint_empty_left _
  · have hlane := h.lane key hgood
    have hhas : ∀ {j : ℕ} {y x : Submission}, (s.submissions ++ [x])[j]? = some y →
        x.guard = ∅ → key ∈ y.guard → s.submissions[j]? = some y := by
      intro j y x hy hempty hin
      rcases hcases hy with hold | rfl
      · exact hold
      · simp [hempty] at hin
    refine ⟨hlane.accepted, hlane.dispatched, ?_, fun j y hy hin => hlane.holder j y (hhas hy rfl hin) hin,
      fun j y hy hin => hlane.decided j y (hhas hy rfl hin) hin,
      fun j y tx hy hin => hlane.sent j y tx (hhas hy rfl hin) hin,
      fun j y hy hin => hlane.bound j y (hhas hy rfl hin) hin, fun hnone => hlane.idle fun j y hy => ?_⟩
    · rw [ChainRun.heldOn, List.map_append, List.sum_append]
      exact hlane.next
    · have hlt := (List.getElem?_eq_some_iff.1 hy).1
      exact hnone j y ((List.getElem?_append_left hlt).trans hy)

theorem Inv.releaseInstance {s : ChainRun} (h : s.Inv) (inst : ℕ) :
    Inv { s with lanes := s.lanes.releaseInstance inst } :=
  ⟨fun j y hy => (h.here j y hy).frame (fun hgate => ⟨hgate, rfl⟩) (fun _ _ => rfl)
      fun _ _ hkey => Or.inl hkey,
    h.disjoint, fun key hgood => (h.lane key hgood).frame rfl rfl rfl rfl rfl⟩

theorem Inv.dropGate {s : ChainRun} (h : s.Inv) {i : ℕ} {x : Submission}
    (hx : s.submissions[i]? = some x) (hgate : s.gate = some i) (hneeds : x.phase.needsGate = false) :
    Inv { s with gate := none } := by
  refine ⟨fun j y hy => ?_, h.disjoint, fun key hgood => (h.lane key hgood).frame rfl rfl rfl rfl rfl⟩
  have hlocal := h.here j y hy
  refine ⟨hlocal.shaped, fun hy' => ?_, hlocal.active, hlocal.newest, hlocal.committed⟩
  obtain rfl := Option.some.inj (hgate.symm.trans (hlocal.gate hy'))
  obtain rfl := Option.some.inj (hx.symm.trans hy)
  exact nomatch hneeds.symm.trans hy'

theorem Inv.move {s t : ChainRun} (h : s.Inv) (hmove : Move s t) : t.Inv := by
  cases hmove with
  | stay => exact h
  | executeSubmit owner predecessors => exact h.executeSubmit owner predecessors
  | releaseInstance inst => exact h.releaseInstance inst
  | dropGate hx hgate hneeds => exact h.dropGate hx hgate hneeds
  | fetch key nonce hgate hx hphase hnew => exact h.fetch key nonce hgate hx hphase hnew
  | goto hx hgo => exact h.goto hx hgo
  | acquire hx hphase hacquired => exact h.acquire hx hphase hacquired
  | dropGuard hx hphase => exact h.dropGuard hx hphase
  | markAmbiguous hx hphase => exact h.markAmbiguous hx hphase
  | dispatch hx hphase => exact h.dispatch hx hphase
  | accept hx hphase => exact h.accept hx hphase

theorem inv_reachable {initial : NonceTracker} {s : ChainRun}
    (h : (chainSystem initial).Reachable s) : s.Inv := by
  refine h.invariant ?_ fun s l t hinv hst => hinv.move (step_move hinv hst)
  exact ⟨nofun, nofun, fun key _ => ⟨rfl, rfl, rfl, nofun, nofun, nofun, nofun, fun _ => rfl⟩⟩

/-! ## What is promised -/

/-- A lane that is not ambiguous. -/
structure NonceSafe (s : ChainRun) (key : SchedulingKey) : Prop where
  once : (s.dispatchedOn key).Nodup
  noGap : ∀ n ∈ s.dispatchedOn key, s.base key ≤ n ∧
    ∀ m, s.base key ≤ m → m ≤ n → m ∈ s.dispatchedOn key
  next : s.nonces.current key = s.base key + (s.acceptedOn key).length + s.heldOn key

theorem LaneInv.safe {s : ChainRun} {key : SchedulingKey} (h : s.LaneInv key) : s.NonceSafe key := by
  refine ⟨?_, fun n hn => ?_, h.next⟩
  · rw [h.dispatched]
    exact List.nodup_range' ..
  · rw [h.dispatched, List.mem_range'_1] at hn
    refine ⟨hn.1, fun m hm hmn => ?_⟩
    rw [h.dispatched, List.mem_range'_1]
    exact ⟨hm, Nat.lt_of_le_of_lt hmn hn.2⟩

/-- How the nonces of a submission leave its hands: it is accepted, they are the next ones again, or
    their lane is ambiguous. -/
def Resolved (s t : ChainRun) (x : Submission) (key : SchedulingKey) : Prop :=
  t.acceptedOn key = s.acceptedOn key ++ x.phase.heldOn key ∨
    (x.phase.heldOn key).head? = some (t.nonces.current key) ∨ key ∈ t.lanes.ambiguous

theorem Move.resolves {s t : ChainRun} (h : s.Inv) (hmove : Move s t) {i : ℕ} {x y : Submission}
    {key : SchedulingKey} (hx : s.submissions[i]? = some x) (hy : t.submissions[i]? = some y)
    (hheld : x.phase.heldOn key ≠ []) (hnil : y.phase.heldOn key = []) : s.Resolved t x key := by
  -- only what happens to the submission that moves matters
  have hput : ∀ {j : ℕ} {z z' : Submission}, s.submissions[j]? = some z →
      (s.submissions.set j z')[i]? = some y → (i = j ∧ x = z ∧ y = z') ∨ x = y := by
    intro j z z' hz hset
    rcases List.getElem?_set_cases hset with ⟨rfl, rfl⟩ | ⟨-, hold⟩
    · exact Or.inl ⟨rfl, Option.some.inj (hx.symm.trans hz), rfl⟩
    · exact Or.inr (Option.some.inj (hx.symm.trans hold))
  have hsame : x ≠ y := fun heq => hheld (heq ▸ hnil)
  cases hmove with
  | stay => exact absurd (Option.some.inj (hx.symm.trans hy)) hsame
  | executeSubmit owner predecessors =>
      have hlt := (List.getElem?_eq_some_iff.1 hx).1
      rw [List.getElem?_append_left hlt] at hy
      exact absurd (Option.some.inj (hx.symm.trans hy)) hsame
  | releaseInstance inst => exact absurd (Option.some.inj (hx.symm.trans hy)) hsame
  | dropGate => exact absurd (Option.some.inj (hx.symm.trans hy)) hsame
  | fetch => exact absurd (Option.some.inj (hx.symm.trans hy)) hsame
  | goto hz hgo =>
      rcases hput hz hy with ⟨rfl, rfl, rfl⟩ | heq
      · exact Or.inr (Or.inl (hgo.returned key hheld hnil))
      · exact absurd heq hsame
  | acquire hz hphase hacquired =>
      rcases hput hz hy with ⟨rfl, rfl, rfl⟩ | heq
      · refine absurd (Eq.trans ?_ hnil) hheld
        rcases hphase with ⟨hold, rfl⟩ | ⟨hold, rfl⟩ <;> rw [hold] <;> rfl
      · exact absurd heq hsame
  | dropGuard hz hphase =>
      rcases hput hz hy with ⟨rfl, rfl, rfl⟩ | heq
      · refine absurd (Eq.trans ?_ hnil) hheld
        rcases hphase with ⟨hold, rfl⟩ | ⟨tx, hold, -, rfl⟩
        · rw [hold]
        · rw [hold]
          rfl
      · exact absurd heq hsame
  | markAmbiguous hz hphase =>
      rcases hput hz hy with ⟨rfl, rfl, rfl⟩ | heq
      · have hshaped := (h.here _ _ hz).shaped
        simp only [Submission.Shaped, hphase] at hshaped
        rw [hphase] at hheld
        exact Or.inr (Or.inr (Finset.mem_union_right _ (hshaped.2.1 key hheld)))
      · exact absurd heq hsame
  | dispatch hz hphase =>
      rcases hput hz hy with ⟨rfl, rfl, rfl⟩ | heq
      · rw [hphase] at hheld
        exact absurd hnil hheld
      · exact absurd heq hsame
  | accept hz hphase =>
      rcases hput hz hy with ⟨rfl, rfl, rfl⟩ | heq
      · rw [Resolved, hphase]
        exact Or.inl (orderedOn_append ..)
      · exact absurd heq hsame

/-- Nothing more is dispatched on an ambiguous lane. -/
theorem Move.ambiguous {s t : ChainRun} (h : s.Inv) (hmove : Move s t) {key : SchedulingKey}
    (hkey : key ∈ s.lanes.ambiguous) :
    key ∈ t.lanes.ambiguous ∧ t.dispatchedOn key = s.dispatchedOn key := by
  cases hmove with
  | stay => exact ⟨hkey, rfl⟩
  | executeSubmit => exact ⟨hkey, rfl⟩
  | releaseInstance => exact ⟨hkey, rfl⟩
  | dropGate => exact ⟨hkey, rfl⟩
  | fetch => exact ⟨hkey, rfl⟩
  | goto => exact ⟨hkey, rfl⟩
  | acquire hx hphase hacquired =>
      obtain ⟨-, -, hambiguous⟩ := acquired_spec hacquired
      exact ⟨hambiguous ▸ hkey, rfl⟩
  | dropGuard => exact ⟨hkey, rfl⟩
  | markAmbiguous => exact ⟨Finset.mem_union_left _ hkey, rfl⟩
  | dispatch hx hphase =>
      have hnil := (h.here _ _ hx).committed (by rw [hphase]; rfl) key hkey
      rw [hphase] at hnil
      refine ⟨hkey, ?_⟩
      rw [dispatchedOn, orderedOn_append, show orderedOn _ key = [] from hnil, List.append_nil]
      rfl
  | accept => exact ⟨hkey, rfl⟩

end ChainRun

open ChainRun

namespace ChainRun.Sample

def laneKey : SchedulingKey := ⟨7⟩

/-- The lane of the account begins at nonce 5. -/
def pending : NonceTracker := NonceTracker.reset {} laneKey 5

def prepare (i : ℕ) : List Label :=
  [.lockGate i, .buildRequest i [.nextNonce laneKey] (some {laneKey}), .checkLanes i, .tryAcquire i]

/-- While the first submission has the lane, the second one takes nonce 6 and gives it back; later it
    is prepared again and its RPC fails before it is sent; the third one uses nonce 6, and its
    acceptance remains unknown. -/
def contended : List Label :=
  .executeSubmit ⟨0, "pay"⟩ ∅ :: prepare 0 ++ [.sign 0 true, .finishPrepared 0, .dropGate 0] ++
    .executeSubmit ⟨1, "pay"⟩ ∅ :: prepare 1 ++ [.dispatch 0, .rollback 1, .dropGate 1,
      .reply 0 (.accepted true), .dropGuard 0, .wake 1] ++
    prepare 1 ++ [.sign 1 true, .finishPrepared 1, .dropGate 1, .beforeSend 1, .lockGate 1,
      .rollback 1, .dropGate 1, .dropGuard 1] ++
    .executeSubmit ⟨2, "pay"⟩ ∅ :: prepare 2 ++ [.sign 2 true, .finishPrepared 2, .dropGate 2,
      .dispatch 2, .reply 2 (.failed .missing)]

end ChainRun.Sample

end TxGen
