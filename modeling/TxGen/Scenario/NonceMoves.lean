import TxGen.Lib.Lists
import TxGen.Scenario.Submission

set_option autoImplicit false

/-! # What the submissions of a chain can do

The invariant of the chain, and every step as one of eleven moves. All changes of the tracker are made
under the gate, so that what its holder has just reserved is the newest of its lanes and a rollback
succeeds. -/

namespace TxGen

open NonceReservation

/-! ## What the submissions hold -/

namespace SubmissionPhase

/-- The transaction whose nonces are held. -/
def tx? : SubmissionPhase → Option MaterializedTx
  | .prepared tx | .checked tx | .rollingBack tx _ | .signing tx | .signingAhead tx
  | .waitingForLanes tx | .signed tx | .ready tx | .sent tx | .unsent tx | .restoring tx
  | .disabling tx => some tx
  | .queued | .preparing | .parked | .ended => none

/-- The nonces that are held on a lane. -/
def heldOn (phase : SubmissionPhase) (key : SchedulingKey) : List ℕ :=
  (phase.tx?.map fun tx => orderedOn tx.nonceReservations key).getD []

def needsGate : SubmissionPhase → Bool
  | .preparing | .prepared _ | .checked _ | .rollingBack .. | .restoring _ => true
  | .signing tx | .signed tx => tx.hasOrderedNonces
  | _ => false

/-- The transaction whose nonces nobody has built upon. -/
def freshTx? : SubmissionPhase → Option MaterializedTx
  | .prepared tx | .checked tx | .rollingBack tx _ => some tx
  | .signing tx | .signed tx => if tx.hasOrderedNonces then some tx else none
  | _ => none

/-- Handed over by `prepare_submission`: its ordered lanes have been found in order. -/
def committed : SubmissionPhase → Bool
  | .ready _ | .sent _ | .unsent _ | .restoring _ | .disabling _ => true
  | _ => false

/-- Its nonces may have been used although it is not known to be accepted. -/
def undecided : SubmissionPhase → Bool
  | .sent _ | .disabling _ => true
  | _ => false

/-- What a gate that may be dropped protected is protected otherwise. -/
theorem needsGate_of_mayDropGate {phase : SubmissionPhase} (h : phase.mayDropGate = true) :
    phase.needsGate = false := by
  cases phase with
  | signing tx => simpa [mayDropGate, needsGate] using h
  | signed tx => simpa [mayDropGate, needsGate] using h
  | _ => first | rfl | cases h

theorem needsGate_of_freshTx {phase : SubmissionPhase} {tx : MaterializedTx}
    (h : phase.freshTx? = some tx) : phase.needsGate = true := by
  cases phase with
  | signing tx => exact (Option.ite_none_right_eq_some.1 h).1
  | signed tx => exact (Option.ite_none_right_eq_some.1 h).1
  | _ => first | rfl | cases h

theorem tx?_of_freshTx {phase : SubmissionPhase} {tx : MaterializedTx}
    (h : phase.freshTx? = some tx) : phase.tx? = some tx := by
  cases phase with
  | signing tx => exact (Option.ite_none_right_eq_some.1 h).2
  | signed tx => exact (Option.ite_none_right_eq_some.1 h).2
  | _ => first | exact h | cases h

theorem heldOn_of_not_ordered {phase : SubmissionPhase} {tx : MaterializedTx}
    (htx : phase.tx? = some tx) (h : tx.hasOrderedNonces = false) (key : SchedulingKey) :
    phase.heldOn key = [] := by
  simp [heldOn, htx, orderedOn_of_not_hasOrdered h key]

end SubmissionPhase

/-- The keys of a transaction include its ordered lanes. -/
def MaterializedTx.Covered (tx : MaterializedTx) : Prop :=
  ∀ key, orderedOn tx.nonceReservations key ≠ [] → key ∈ tx.keys

/-- Which guard a submission has in each phase. -/
def Submission.Shaped (x : Submission) : Prop :=
  match x.phase with
  | .queued | .preparing | .parked => x.guard = ∅
  | .prepared tx | .checked tx => x.guard = ∅ ∧ tx.Covered
  | .rollingBack tx cause => x.guard = (if cause = .signingFailed then tx.keys else ∅) ∧ tx.Covered
  | .signingAhead tx | .waitingForLanes tx => x.guard = ∅ ∧ tx.hasOrderedNonces = false
  | .signing tx | .signed tx | .ready tx | .sent tx => x.guard = tx.keys ∧ tx.Covered
  | .unsent tx | .restoring tx | .disabling tx =>
    x.guard = tx.keys ∧ tx.Covered ∧ tx.hasOrderedNonces = true
  | .ended => True

/-- A held nonce is protected by the lanes of the submission or by the gate. -/
theorem Submission.Shaped.protected {x : Submission} (h : x.Shaped) {key : SchedulingKey}
    (hheld : x.phase.heldOn key ≠ []) : key ∈ x.guard ∨ x.phase.needsGate = true := by
  obtain ⟨owner, predecessors, guard, phase⟩ := x
  cases phase with
  | queued => simp [SubmissionPhase.heldOn, SubmissionPhase.tx?] at hheld
  | preparing => simp [SubmissionPhase.heldOn, SubmissionPhase.tx?] at hheld
  | parked => simp [SubmissionPhase.heldOn, SubmissionPhase.tx?] at hheld
  | ended => simp [SubmissionPhase.heldOn, SubmissionPhase.tx?] at hheld
  | prepared tx => exact Or.inr rfl
  | checked tx => exact Or.inr rfl
  | rollingBack tx cause => exact Or.inr rfl
  | restoring tx => exact Or.inr rfl
  | signingAhead tx => exact absurd (SubmissionPhase.heldOn_of_not_ordered rfl h.2 key) hheld
  | waitingForLanes tx => exact absurd (SubmissionPhase.heldOn_of_not_ordered rfl h.2 key) hheld
  | signing tx => exact Or.inl (h.1 ▸ h.2 key hheld)
  | signed tx => exact Or.inl (h.1 ▸ h.2 key hheld)
  | ready tx => exact Or.inl (h.1 ▸ h.2 key hheld)
  | sent tx => exact Or.inl (h.1 ▸ h.2 key hheld)
  | unsent tx => exact Or.inl (h.1 ▸ h.2.1 key hheld)
  | disabling tx => exact Or.inl (h.1 ▸ h.2.1 key hheld)

theorem Submission.Shaped.guard_of_committed {x : Submission} (h : x.Shaped)
    (hc : x.phase.committed = true) {key : SchedulingKey} (hheld : x.phase.heldOn key ≠ []) :
    key ∈ x.guard := by
  obtain ⟨owner, predecessors, guard, phase⟩ := x
  cases phase with
  | ready tx => exact h.1 ▸ h.2 key hheld
  | sent tx => exact h.1 ▸ h.2 key hheld
  | unsent tx => exact h.1 ▸ h.2.1 key hheld
  | restoring tx => exact h.1 ▸ h.2.1 key hheld
  | disabling tx => exact h.1 ▸ h.2.1 key hheld
  | _ => cases hc

/-- A request that is being built has taken the next nonces of each lane. -/
structure BuildContext.Ahead (ctx : BuildContext) (t : NonceTracker) : Prop where
  reserved : ∀ key, orderedOn ctx.nonceReservations key =
    List.range' (t.current key) (orderedOn ctx.nonceReservations key).length
  current : ∀ key, ctx.nonces.current key =
    t.current key + (orderedOn ctx.nonceReservations key).length

theorem BuildContext.Ahead.newest {ctx : BuildContext} {t : NonceTracker} (h : ctx.Ahead t) :
    ctx.nonces.Newest ctx.nonceReservations :=
  fun key => ⟨t.current key, h.reserved key, h.current key⟩

theorem BuildContext.Ahead.run {ctx : BuildContext} {t : NonceTracker} (h : ctx.Ahead t)
    (op : NonceOp) : (op.run ctx).Ahead t := by
  cases op with
  | reserveUniqueNonce key value =>
      refine ⟨fun k => ?_, fun k => ?_⟩
      · simpa [NonceOp.run, BuildContext.reserveUniqueNonce] using h.reserved k
      · simpa [NonceOp.run, BuildContext.reserveUniqueNonce] using h.current k
  | nextNonce key =>
      refine ⟨fun k => ?_, fun k => ?_⟩
      · by_cases hk : k = key
        · subst hk
          simp only [NonceOp.run, BuildContext.nextNonce, NonceTracker.next, orderedOn_append,
            orderedOn_singleton_ordered, if_true, List.length_append, List.length_singleton]
          rw [List.range'_concat, ← h.reserved k, h.current k, Nat.one_mul]
        · simpa [NonceOp.run, BuildContext.nextNonce, NonceTracker.next, hk] using h.reserved k
      · by_cases hk : k = key
        · subst hk
          simp [NonceOp.run, BuildContext.nextNonce, NonceTracker.next, h.current k, Nat.add_assoc]
        · simpa [NonceOp.run, BuildContext.nextNonce, NonceTracker.next, hk] using h.current k

theorem NonceOp.ahead_run (ops : List NonceOp) (t : NonceTracker) :
    (ops.foldl NonceOp.run { nonces := t }).Ahead t := by
  have hrun : ∀ (ops : List NonceOp) (ctx : BuildContext), ctx.Ahead t →
      (ops.foldl NonceOp.run ctx).Ahead t := by
    intro ops
    induction ops with
    | nil => exact fun ctx h => h
    | cons op ops ih => exact fun ctx h => ih _ (h.run op)
  exact hrun ops _ ⟨fun _ => rfl, fun _ => rfl⟩

namespace ChainRun

def dispatchedOn (s : ChainRun) (key : SchedulingKey) : List ℕ := orderedOn s.dispatched key

def acceptedOn (s : ChainRun) (key : SchedulingKey) : List ℕ := orderedOn s.accepted key

/-- How many nonces of a lane are held. -/
def heldOn (s : ChainRun) (key : SchedulingKey) : ℕ :=
  (s.submissions.map fun x => (x.phase.heldOn key).length).sum

/-! ## The invariant -/

/-- What holds of the `i`-th submission. -/
structure Local (s : ChainRun) (i : ℕ) (x : Submission) : Prop where
  shaped : x.Shaped
  gate : x.phase.needsGate = true → s.gate = some i
  active : ∀ key ∈ x.guard, s.lanes.active key = some x.owner
  newest : ∀ tx, x.phase.freshTx? = some tx → s.nonces.Newest tx.nonceReservations
  committed : x.phase.committed = true → ∀ key ∈ s.lanes.ambiguous, x.phase.heldOn key = []

/-- What holds of a lane that is not ambiguous. -/
structure LaneInv (s : ChainRun) (key : SchedulingKey) : Prop where
  accepted : s.acceptedOn key = List.range' (s.base key) (s.acceptedOn key).length
  dispatched : s.dispatchedOn key = List.range' (s.base key) (s.dispatchedOn key).length
  next : s.nonces.current key = s.base key + (s.acceptedOn key).length + s.heldOn key
  holder : ∀ (i : ℕ) (x : Submission), s.submissions[i]? = some x → key ∈ x.guard →
    x.phase.heldOn key =
      List.range' (s.base key + (s.acceptedOn key).length) (x.phase.heldOn key).length
  decided : ∀ (i : ℕ) (x : Submission), s.submissions[i]? = some x → key ∈ x.guard →
    x.phase.undecided = false → (s.dispatchedOn key).length = (s.acceptedOn key).length
  sent : ∀ (i : ℕ) (x : Submission) (tx : MaterializedTx), s.submissions[i]? = some x →
    key ∈ x.guard → x.phase = .sent tx →
    (s.dispatchedOn key).length = (s.acceptedOn key).length + (x.phase.heldOn key).length
  bound : ∀ (i : ℕ) (x : Submission), s.submissions[i]? = some x → key ∈ x.guard →
    (s.dispatchedOn key).length ≤ (s.acceptedOn key).length + (x.phase.heldOn key).length
  idle : (∀ (i : ℕ) (x : Submission), s.submissions[i]? = some x → key ∉ x.guard) →
    (s.dispatchedOn key).length = (s.acceptedOn key).length

structure Inv (s : ChainRun) : Prop where
  here : ∀ (i : ℕ) (x : Submission), s.submissions[i]? = some x → s.Local i x
  disjoint : ∀ (i j : ℕ) (x y : Submission), s.submissions[i]? = some x →
    s.submissions[j]? = some y → i ≠ j → Disjoint x.guard y.guard
  lane : ∀ key ∉ s.lanes.ambiguous, s.LaneInv key

/-! ## Moves -/

/-- The `i`-th submission goes on without touching lanes or histories. -/
structure Goes (s : ChainRun) (i : ℕ) (x : Submission) (phase : SubmissionPhase)
    (gate : Option ℕ) (nonces : NonceTracker) : Prop where
  shaped : Submission.Shaped { x with phase }
  locked : phase.needsGate = true → gate = some i
  keep : ∀ j, j ≠ i → s.gate = some j → gate = some j
  tracker : nonces = s.nonces ∨ s.gate = some i
  count : ∀ key, nonces.current key + (x.phase.heldOn key).length =
    s.nonces.current key + (phase.heldOn key).length
  newest : ∀ tx, phase.freshTx? = some tx → nonces.Newest tx.nonceReservations
  committed : phase.committed = true → ∀ key ∈ s.lanes.ambiguous, phase.heldOn key = []
  holder : ∀ key ∈ x.guard, phase.heldOn key = x.phase.heldOn key ∨
    phase.heldOn key = [] ∧ phase.undecided = false
  decided : phase.undecided = false → x.phase.undecided = false ∨
    ∃ tx, x.phase = .sent tx ∧ tx.hasOrderedNonces = false
  sent : ∀ tx, phase ≠ .sent tx
  returned : ∀ key, x.phase.heldOn key ≠ [] → phase.heldOn key = [] →
    (x.phase.heldOn key).head? = some (nonces.current key)

inductive Move (s : ChainRun) : ChainRun → Prop
  | stay : Move s s
  | executeSubmit (owner : SubmissionLaneOwner) (orderedPredecessors : Finset String) :
      Move s { s with submissions := s.submissions ++ [{ owner, orderedPredecessors }] }
  | releaseInstance (inst : ℕ) : Move s { s with lanes := s.lanes.releaseInstance inst }
  | dropGate {i : ℕ} {x : Submission} (hx : s.submissions[i]? = some x) (hgate : s.gate = some i)
      (hneeds : x.phase.needsGate = false) : Move s { s with gate := none }
  | fetch (key : SchedulingKey) (nonce : ℕ) {i : ℕ} (hgate : s.gate = some i) {x : Submission}
      (hx : s.submissions[i]? = some x) (hphase : x.phase = .preparing)
      (hnew : s.nonces.contains key = false) :
      Move s { s with
        nonces := s.nonces.reset key nonce
        base := Function.update s.base key nonce }
  | goto {i : ℕ} {x : Submission} {phase : SubmissionPhase} {gate : Option ℕ}
      {nonces : NonceTracker} (hx : s.submissions[i]? = some x)
      (hgo : s.Goes i x phase gate nonces) : Move s { s.goto i x phase with gate, nonces }
  | acquire {i : ℕ} {x : Submission} {tx : MaterializedTx} {phase : SubmissionPhase}
      {lanes : SubmissionLaneState} (hx : s.submissions[i]? = some x)
      (hphase : x.phase = .checked tx ∧ phase = .signing tx ∨
        x.phase = .waitingForLanes tx ∧ phase = .signed tx)
      (hacquired : s.lanes.tryAcquire tx.keys x.owner x.orderedPredecessors = (.acquired, lanes)) :
      Move s { s.put i { x with guard := tx.keys, phase } with lanes }
  | dropGuard {i : ℕ} {x : Submission} {phase : SubmissionPhase}
      (hx : s.submissions[i]? = some x)
      (hphase : x.phase = .ended ∧ phase = .ended ∨ ∃ tx, x.phase = .signed tx ∧
        tx.hasOrderedNonces = true ∧ phase = .rollingBack tx .disabledLane) :
      Move s { s.put i { x with guard := ∅, phase } with
        lanes := s.lanes.dropGuard ⟨x.guard, x.owner⟩ }
  | markAmbiguous {i : ℕ} {x : Submission} {tx : MaterializedTx}
      (hx : s.submissions[i]? = some x) (hphase : x.phase = .disabling tx) :
      Move s { s.goto i x .ended with lanes := s.lanes.markAmbiguous tx.keys }
  | dispatch {i : ℕ} {x : Submission} {tx : MaterializedTx} (hx : s.submissions[i]? = some x)
      (hphase : x.phase = .ready tx) :
      Move s { s.goto i x (.sent tx) with dispatched := s.dispatched ++ tx.nonceReservations }
  | accept {i : ℕ} {x : Submission} {tx : MaterializedTx} (hx : s.submissions[i]? = some x)
      (hphase : x.phase = .sent tx) :
      Move s { s.goto i x .ended with accepted := s.accepted ++ tx.nonceReservations }

section Goes

variable {s : ChainRun} {i : ℕ} {x : Submission} {phase : SubmissionPhase}

/-- A submission that goes on with what it holds. -/
theorem Goes.of_same (h : s.Local i x) {gate : Option ℕ}
    (hheld : ∀ key, phase.heldOn key = x.phase.heldOn key)
    (hshaped : Submission.Shaped { x with phase }) (hgate : phase.needsGate = true → gate = some i)
    (hkeep : ∀ j, j ≠ i → s.gate = some j → gate = some j)
    (hfresh : ∀ tx, phase.freshTx? = some tx → x.phase.freshTx? = some tx)
    (hcommitted : phase.committed = true → x.phase.committed = true ∨
      ∀ key ∈ s.lanes.ambiguous, phase.heldOn key = [])
    (hdecided : phase.undecided = false → x.phase.undecided = false ∨
      ∃ tx, x.phase = .sent tx ∧ tx.hasOrderedNonces = false)
    (hsent : ∀ tx, phase ≠ .sent tx) : s.Goes i x phase gate s.nonces where
  shaped := hshaped
  locked := hgate
  keep := hkeep
  tracker := Or.inl rfl
  count := fun key => by rw [hheld key]
  newest := fun tx htx => h.newest tx (hfresh tx htx)
  committed := fun hc key hkey => by
    rcases hcommitted hc with hold | hnil
    · rw [hheld key]
      exact h.committed hold key hkey
    · exact hnil key hkey
  holder := fun key _ => Or.inl (hheld key)
  decided := hdecided
  sent := hsent
  returned := fun key hne hnil => absurd ((hheld key).symm.trans hnil) hne

/-- A submission whose transaction has no ordered nonces may end at any time. -/
theorem Goes.ended (h : s.Local i x) (hheld : ∀ key, x.phase.heldOn key = [])
    (hdecided : x.phase.undecided = false ∨ ∃ tx, x.phase = .sent tx ∧ tx.hasOrderedNonces = false) :
    s.Goes i x .ended s.gate s.nonces :=
  .of_same h (fun key => (hheld key).symm) trivial nofun (fun _ _ hj => hj) nofun
    (fun hc => nomatch hc) (fun _ => hdecided) nofun

end Goes

theorem lockGate_move {s t : ChainRun} (h : s.Inv) {i : ℕ} {x : Submission}
    (hx : s.submissions[i]? = some x) (hst : s.lockGate i x = some t) : Move s t := by
  have hlocal := h.here i x hx
  have hshaped := hlocal.shaped
  obtain ⟨owner, predecessors, guard, phase⟩ := x
  unfold lockGate at hst
  split at hst
  · cases hst
  rename_i hfree
  have hnone : s.gate = none := by simpa using hfree
  have hkeep : ∀ j, j ≠ i → s.gate = some j → some i = some j := by simp [hnone]
  cases phase with
  | queued =>
      cases hst
      exact .goto hx (.of_same hlocal (fun _ => rfl) hshaped (fun _ => rfl) hkeep nofun
        (fun hc => nomatch hc) (fun _ => Or.inl rfl) nofun)
  | unsent tx =>
      cases hst
      exact .goto hx (.of_same hlocal (fun _ => rfl) hshaped (fun _ => rfl) hkeep nofun
        (fun _ => Or.inl rfl) (fun _ => Or.inl rfl) nofun)
  | _ => cases hst

theorem timeout_move {s t : ChainRun} (h : s.Inv) {i : ℕ} {x : Submission}
    (hx : s.submissions[i]? = some x) (hst : s.timeout i x = some t) : Move s t := by
  have hlocal := h.here i x hx
  have hshaped := hlocal.shaped
  obtain ⟨owner, predecessors, guard, phase⟩ := x
  cases phase with
  | queued =>
      cases hst
      exact .goto hx (.ended hlocal (fun _ => rfl) (Or.inl rfl))
  | parked =>
      cases hst
      exact .goto hx (.ended hlocal (fun _ => rfl) (Or.inl rfl))
  | waitingForLanes tx =>
      cases hst
      exact .goto hx (.ended hlocal (SubmissionPhase.heldOn_of_not_ordered rfl hshaped.2) (Or.inl rfl))
  | unsent tx =>
      cases hst
      exact .goto hx (.of_same hlocal (fun _ => rfl) hshaped nofun (fun _ _ hj => hj) nofun
        (fun _ => Or.inl rfl) nofun nofun)
  | _ => cases hst

theorem buildRequest_move {s : ChainRun} (h : s.Inv) {i : ℕ} {x : Submission}
    (hx : s.submissions[i]? = some x) (hphase : x.phase = .preparing) (ops : List NonceOp)
    (schedulingKeys : Option (Finset SchedulingKey)) :
    Move s (s.buildRequest i x ops schedulingKeys) := by
  have hlocal := h.here i x hx
  have hshaped := hlocal.shaped
  have hgate := hlocal.gate
  obtain ⟨owner, predecessors, guard, phase⟩ := x
  obtain rfl : phase = .preparing := hphase
  have hahead := NonceOp.ahead_run ops s.nonces
  have hkeep : ∀ j, j ≠ i → s.gate = some j → s.gate = some j := fun _ _ hj => hj
  unfold buildRequest
  cases schedulingKeys with
  | none =>
      obtain ⟨-, hback⟩ := hahead.newest.rewindOrdered
      refine .goto hx ⟨trivial, nofun, hkeep, Or.inr (hgate rfl), fun key => ?_, nofun,
        (fun hc => nomatch hc), fun _ _ => Or.inr ⟨rfl, rfl⟩, fun _ => Or.inl rfl, nofun, fun _ hne => (hne rfl).elim⟩
      have := hback key
      rw [hahead.current key] at this
      exact Nat.add_right_cancel this
  | some schedulingKeys =>
      dsimp only
      split
      · rename_i hempty
        -- without a key there is no ordered lane either
        have hnil : ∀ key, orderedOn (ops.foldl NonceOp.run { nonces := s.nonces }).nonceReservations
            key = [] := by
          intro key
          by_contra hne
          have hkey := mem_orderedKeys.2 hne
          have : key ∈ (∅ : Finset SchedulingKey) :=
            hempty ▸ Finset.mem_union_left _ (List.mem_toFinset.2 hkey)
          simp at this
        refine .goto hx ⟨trivial, nofun, hkeep, Or.inr (hgate rfl), fun key => ?_, nofun,
          (fun hc => nomatch hc), fun _ _ => Or.inr ⟨rfl, rfl⟩, fun _ => Or.inl rfl, nofun,
          fun _ hne => (hne rfl).elim⟩
        rw [hahead.current key, hnil key]
        rfl
      · refine .goto hx ⟨⟨hshaped, fun key hkey => ?_⟩, fun _ => hgate rfl, hkeep,
          Or.inr (hgate rfl), hahead.current, fun tx htx => ?_, (fun hc => nomatch hc),
          fun key hkey => ?_, fun _ => Or.inl rfl, nofun, fun _ hne => (hne rfl).elim⟩
        · exact Finset.mem_union_left _ (List.mem_toFinset.2 (mem_orderedKeys.2 hkey))
        · cases htx
          exact hahead.newest
        · have hguard : guard = ∅ := hshaped
          simp [hguard] at hkey

theorem checkLanes_move {s : ChainRun} (h : s.Inv) {i : ℕ} {x : Submission} {tx : MaterializedTx}
    (hx : s.submissions[i]? = some x) (hphase : x.phase = .prepared tx) :
    Move s (s.goto i x (.rollingBack tx .ambiguousLane)) ∧ Move s (s.goto i x (.checked tx)) := by
  have hlocal := h.here i x hx
  have hshaped := hlocal.shaped
  have hgate := hlocal.gate
  obtain ⟨owner, predecessors, guard, phase⟩ := x
  obtain rfl : phase = .prepared tx := hphase
  exact ⟨.goto hx (.of_same hlocal (fun _ => rfl) hshaped (fun _ => hgate rfl) (fun _ _ hj => hj)
      (fun _ htx => htx) nofun (fun _ => Or.inl rfl) nofun),
    .goto hx (.of_same hlocal (fun _ => rfl) hshaped (fun _ => hgate rfl) (fun _ _ hj => hj)
      (fun _ htx => htx) nofun (fun _ => Or.inl rfl) nofun)⟩

theorem tryAcquire_move {s t : ChainRun} (h : s.Inv) {i : ℕ} {x : Submission}
    (hx : s.submissions[i]? = some x) (hst : s.tryAcquire i x = some t) : Move s t := by
  have hlocal := h.here i x hx
  have hshaped := hlocal.shaped
  have hgate := hlocal.gate
  obtain ⟨owner, predecessors, guard, phase⟩ := x
  unfold tryAcquire at hst
  cases phase with
  | checked tx =>
      dsimp only at hst
      split at hst
      · rename_i lanes hacquired
        cases hst
        exact .acquire hx (Or.inl ⟨rfl, rfl⟩) hacquired
      · cases hst
        exact .goto hx (.of_same hlocal (fun _ => rfl) hshaped (fun _ => hgate rfl)
          (fun _ _ hj => hj) (fun _ htx => htx) nofun (fun _ => Or.inl rfl) nofun)
      · split at hst
        · cases hst
          exact .goto hx (.of_same hlocal (fun _ => rfl) hshaped (fun _ => hgate rfl)
            (fun _ _ hj => hj) (fun _ htx => htx) nofun (fun _ => Or.inl rfl) nofun)
        · rename_i hordered
          cases hst
          exact .goto hx (.of_same hlocal (fun _ => rfl) ⟨hshaped.1, by simpa using hordered⟩ nofun
            (fun _ _ hj => hj) nofun nofun (fun _ => Or.inl rfl) nofun)
  | waitingForLanes tx =>
      dsimp only at hst
      split at hst
      · rename_i lanes hacquired
        cases hst
        exact .acquire hx (Or.inr ⟨rfl, rfl⟩) hacquired
      · cases hst
        exact .goto hx (.ended hlocal (SubmissionPhase.heldOn_of_not_ordered rfl hshaped.2) (Or.inl rfl))
      · cases hst
        exact .stay
  | _ => cases hst

theorem sign_move {s t : ChainRun} (h : s.Inv) {i : ℕ} {x : Submission} {ok : Bool}
    (hx : s.submissions[i]? = some x) (hst : s.sign i x ok = some t) : Move s t := by
  have hlocal := h.here i x hx
  have hshaped := hlocal.shaped
  have hgate := hlocal.gate
  obtain ⟨owner, predecessors, guard, phase⟩ := x
  unfold sign at hst
  cases phase with
  | signing tx =>
      dsimp only at hst
      split at hst
      · rename_i hordered
        have hfresh : (SubmissionPhase.signing tx).freshTx? = some tx := if_pos hordered
        cases hst
        cases ok with
        | true =>
            exact .goto hx (.of_same hlocal (fun _ => rfl) hshaped (fun _ => hgate hordered)
              (fun _ _ hj => hj) (fun _ htx => htx) nofun (fun _ => Or.inl rfl) nofun)
        | false =>
            exact .goto hx (.of_same hlocal (fun _ => rfl) hshaped (fun _ => hgate hordered)
              (fun _ _ hj => hj) (fun _ htx => hfresh.trans htx) nofun (fun _ => Or.inl rfl) nofun)
      · rename_i hordered
        have hnot : tx.hasOrderedNonces = false := by simpa using hordered
        split at hst
        · cases hst
        cases hst
        cases ok with
        | true =>
            exact .goto hx (.of_same hlocal (fun _ => rfl) hshaped (fun hn => hgate hn)
              (fun _ _ hj => hj) (fun _ htx => htx) nofun (fun _ => Or.inl rfl) nofun)
        | false =>
            exact .goto hx (.ended hlocal (SubmissionPhase.heldOn_of_not_ordered rfl hnot) (Or.inl rfl))
  | signingAhead tx =>
      dsimp only at hst
      split at hst
      · cases hst
      cases hst
      cases ok with
      | true =>
          exact .goto hx (.of_same hlocal (fun _ => rfl) hshaped nofun (fun _ _ hj => hj) nofun
            nofun (fun _ => Or.inl rfl) nofun)
      | false =>
          exact .goto hx (.ended hlocal (SubmissionPhase.heldOn_of_not_ordered rfl hshaped.2) (Or.inl rfl))
  | _ => cases hst

/-- Whoever else has the gate holds no nonce of a lane that `i` has. -/
theorem Inv.heldOn_eq {s : ChainRun} (h : s.Inv) {i : ℕ} {x : Submission}
    (hx : s.submissions[i]? = some x) (hgate : s.gate = some i) {key : SchedulingKey}
    (hfree : ∀ (j : ℕ) (y : Submission), s.submissions[j]? = some y → j ≠ i → key ∉ y.guard) :
    s.heldOn key = (x.phase.heldOn key).length := by
  refine List.sum_map_eq_single (fun x : Submission => (x.phase.heldOn key).length) hx
    fun j y hy hne => ?_
  rw [List.length_eq_zero_iff]
  by_contra hheld
  rcases (h.here j y hy).shaped.protected hheld with hguard | hneeds
  · exact hfree j y hy hne hguard
  · have := (h.here j y hy).gate hneeds
    exact hne (Option.some.inj (this.symm.trans hgate))

/-- Under the gate the nonces of a submission that has its lanes are still the newest. -/
theorem Inv.restoring_newest {s : ChainRun} (h : s.Inv) {i : ℕ} {x : Submission}
    {tx : MaterializedTx} (hx : s.submissions[i]? = some x) (hphase : x.phase = .restoring tx) :
    s.nonces.Newest tx.nonceReservations := by
  have hlocal := h.here i x hx
  intro key
  by_cases hnil : orderedOn tx.nonceReservations key = []
  · exact ⟨s.nonces.current key, by simp [hnil], by simp [hnil]⟩
  have hheld : x.phase.heldOn key = orderedOn tx.nonceReservations key := by rw [hphase]; rfl
  have hshaped := hlocal.shaped
  simp only [Submission.Shaped, hphase] at hshaped
  have hguard : key ∈ x.guard := hshaped.1 ▸ hshaped.2.1 key hnil
  have hgood : key ∉ s.lanes.ambiguous := fun hamb =>
    hnil (hheld ▸ hlocal.committed (by rw [hphase]; rfl) key hamb)
  have hlane := h.lane key hgood
  refine ⟨_, hheld ▸ hlane.holder i x hx hguard, ?_⟩
  rw [← hheld, ← h.heldOn_eq hx (hlocal.gate (by rw [hphase]; rfl)) fun j y hy hne hin =>
    Finset.disjoint_left.1 (h.disjoint i j x y hx hy hne.symm) hguard hin]
  exact hlane.next

/-- Under the gate a rollback gives back what was reserved. -/
theorem Inv.goes_rollback {s : ChainRun} (h : s.Inv) {i : ℕ} {x : Submission} {tx : MaterializedTx}
    (hx : s.submissions[i]? = some x) (htx : x.phase.tx? = some tx)
    (hneeds : x.phase.needsGate = true) (hdecided : x.phase.undecided = false)
    (hnewest : s.nonces.Newest tx.nonceReservations) {phase : SubmissionPhase}
    (hnil : ∀ key, phase.heldOn key = []) (hshaped : Submission.Shaped { x with phase })
    (hphase : phase = .parked ∨ phase = .ended) :
    s.Goes i x phase s.gate (s.nonces.rewindOrdered tx.nonceReservations).2 := by
  have hheld : ∀ key, x.phase.heldOn key = orderedOn tx.nonceReservations key := by
    intro key
    rw [SubmissionPhase.heldOn, htx]
    rfl
  obtain ⟨-, hback⟩ := hnewest.rewindOrdered
  have hneeds' : phase.needsGate ≠ true := by
    rcases hphase with rfl | rfl <;> nofun
  refine ⟨hshaped, fun hn => absurd hn hneeds', fun _ _ hj => hj,
    Or.inr ((h.here i x hx).gate hneeds), fun key => ?_, ?_, ?_,
    fun key _ => Or.inr ⟨hnil key, ?_⟩, fun _ => Or.inl hdecided, ?_, fun key hne _ => ?_⟩
  · rw [hheld, hnil, hback key]
    rfl
  · rcases hphase with rfl | rfl <;> nofun
  · rcases hphase with rfl | rfl <;> nofun
  · rcases hphase with rfl | rfl <;> rfl
  · rcases hphase with rfl | rfl <;> nofun
  · obtain ⟨first, hrange, hcurrent⟩ := hnewest key
    have hlast := hback key
    rw [hheld] at hne ⊢
    rw [hrange, List.head?_range', if_neg (by simpa using hne)]
    exact congrArg some (by omega)

theorem rollback_move {s t : ChainRun} (h : s.Inv) {i : ℕ} {x : Submission}
    (hx : s.submissions[i]? = some x) (hst : s.rollback i x = some t) : Move s t := by
  have hlocal := h.here i x hx
  have hshaped := hlocal.shaped
  have hgoes := @Inv.goes_rollback s h i x
  have hrestoring := @Inv.restoring_newest s h i x
  obtain ⟨owner, predecessors, guard, phase⟩ := x
  unfold rollback at hst
  cases phase with
  | rollingBack tx cause =>
      have hnewest := hlocal.newest tx rfl
      dsimp only at hst
      rw [hnewest.rewindOrdered.1] at hst
      cases hst
      cases cause with
      | busy =>
          exact .goto hx (hgoes hx rfl rfl rfl hnewest (fun _ => rfl) hshaped.1 (Or.inl rfl))
      | _ => exact .goto hx (hgoes hx rfl rfl rfl hnewest (fun _ => rfl) trivial (Or.inr rfl))
  | restoring tx =>
      have hnewest := hrestoring hx rfl
      dsimp only at hst
      rw [hnewest.rewindOrdered.1] at hst
      cases hst
      exact .goto hx (hgoes hx rfl rfl rfl hnewest (fun _ => rfl) trivial (Or.inr rfl))
  | _ => cases hst

theorem finishPrepared_move {s t : ChainRun} (h : s.Inv) {i : ℕ} {x : Submission}
    (hx : s.submissions[i]? = some x) (hst : s.finishPrepared i x = some t) : Move s t := by
  have hlocal := h.here i x hx
  have hshaped := hlocal.shaped
  obtain ⟨owner, predecessors, guard, phase⟩ := x
  unfold finishPrepared at hst
  cases phase with
  | signed tx =>
      dsimp only at hst
      split at hst
      · rename_i hambiguous
        cases hst
        have hordered : tx.hasOrderedNonces = true := (Bool.and_eq_true_iff.1 hambiguous).1
        exact .dropGuard hx (Or.inr ⟨tx, rfl, hordered, rfl⟩)
      · rename_i hgood
        cases hst
        refine .goto hx (.of_same hlocal (fun _ => rfl) hshaped nofun (fun _ _ hj => hj) nofun
          (fun _ => Or.inr fun key hamb => ?_) (fun _ => Or.inl rfl) nofun)
        -- the lanes were just found in order
        by_contra hheld
        have hguard : guard = tx.keys := hshaped.1
        have hkey : key ∈ guard := hguard ▸ hshaped.2 key hheld
        have hordered : tx.hasOrderedNonces = true := by
          by_contra hnot
          exact hheld (SubmissionPhase.heldOn_of_not_ordered rfl (by simpa using hnot) key)
        refine hgood (Bool.and_eq_true_iff.2 ⟨hordered, ?_⟩)
        simpa using Finset.not_disjoint_iff.2 ⟨key, hamb, hkey⟩
  | _ => cases hst

theorem beforeSend_move {s : ChainRun} (h : s.Inv) {i : ℕ} {x : Submission} {tx : MaterializedTx}
    (hx : s.submissions[i]? = some x) (hphase : x.phase = .ready tx) :
    Move s (s.goto i x (if tx.hasOrderedNonces then .unsent tx else .ended)) := by
  have hlocal := h.here i x hx
  have hshaped := hlocal.shaped
  obtain ⟨owner, predecessors, guard, phase⟩ := x
  obtain rfl : phase = .ready tx := hphase
  split
  · rename_i hordered
    exact .goto hx (.of_same hlocal (fun _ => rfl) ⟨hshaped.1, hshaped.2, hordered⟩ nofun
      (fun _ _ hj => hj) nofun (fun _ => Or.inl rfl) (fun _ => Or.inl rfl) nofun)
  · rename_i hordered
    exact .goto hx (.ended hlocal (SubmissionPhase.heldOn_of_not_ordered rfl (by simpa using hordered))
      (Or.inl rfl))

/-- A lost transaction with ordered nonces is about to disable its lanes. -/
theorem afterLoss_move {s : ChainRun} (h : s.Inv) {i : ℕ} {x : Submission} {tx : MaterializedTx}
    (hx : s.submissions[i]? = some x) (hphase : x.phase = .sent tx) :
    Move s (s.goto i x (.afterLoss tx)) := by
  have hlocal := h.here i x hx
  have hshaped := hlocal.shaped
  obtain ⟨owner, predecessors, guard, phase⟩ := x
  obtain rfl : phase = .sent tx := hphase
  unfold SubmissionPhase.afterLoss
  split
  · rename_i hordered
    exact .goto hx (.of_same hlocal (fun _ => rfl) ⟨hshaped.1, hshaped.2, hordered⟩ nofun
      (fun _ _ hj => hj) nofun (fun _ => Or.inl rfl) nofun nofun)
  · rename_i hordered
    have hnot : tx.hasOrderedNonces = false := by simpa using hordered
    exact .goto hx (.ended hlocal (SubmissionPhase.heldOn_of_not_ordered rfl hnot)
      (Or.inr ⟨tx, rfl, hnot⟩))

theorem reply_move {s t : ChainRun} (h : s.Inv) {i : ℕ} {x : Submission} {r : SubmitReply}
    (hx : s.submissions[i]? = some x) (hst : s.reply i x r = some t) : Move s t := by
  unfold reply at hst
  split at hst
  · rename_i tx hphase
    split at hst
    · cases hst
      exact .accept hx hphase
    · cases hst
      exact .accept hx hphase
    · cases hst
      exact afterLoss_move h hx hphase
    · cases hst
      exact afterLoss_move h hx hphase
  · cases hst

/-- **Every step is a move.** -/
theorem step_move {s t : ChainRun} (h : s.Inv) {label : Label} (hst : s.step label = some t) :
    Move s t := by
  have hadvance : ∀ (i : ℕ), label.submission = some i →
      (s.submissions[i]?.bind fun x => s.advance x label) = some t → Move s t := by
    intro i hi hst
    obtain ⟨x, hx, hst⟩ := Option.bind_eq_some_iff.1 hst
    have hlocal := h.here i x hx
    cases label with
    | executeSubmit => cases hi
    | releaseInstance => cases hi
    | lockGate => cases hi; exact lockGate_move h hx hst
    | dropGate =>
        cases hi
        simp only [advance, Option.ite_none_right_eq_some, Option.some.injEq] at hst
        obtain ⟨⟨hgate, hmay⟩, rfl⟩ := hst
        exact .dropGate hx hgate (SubmissionPhase.needsGate_of_mayDropGate hmay)
    | timeout => cases hi; exact timeout_move h hx hst
    | fetchLaneNonce _ key nonce =>
        cases hi
        simp only [advance] at hst
        split at hst
        · rename_i hphase
          cases hst
          unfold fetchLaneNonce
          split
          · exact .stay
          · rename_i hnew
            exact .fetch key nonce (hlocal.gate (by rw [hphase]; rfl)) hx hphase (by simpa using hnew)
        · cases hst
    | prepareFailed =>
        cases hi
        simp only [advance] at hst
        split at hst
        · rename_i hphase
          cases hst
          exact .goto hx (.ended hlocal (fun _ => by rw [hphase]; rfl) (Or.inl (by rw [hphase]; rfl)))
        · cases hst
    | buildRequest _ ops schedulingKeys =>
        cases hi
        simp only [advance] at hst
        split at hst
        · rename_i hphase
          cases hst
          exact buildRequest_move h hx hphase ops schedulingKeys
        · cases hst
    | checkLanes =>
        cases hi
        simp only [advance] at hst
        split at hst
        · rename_i tx hphase
          obtain ⟨hbad, hgood⟩ := checkLanes_move h hx hphase
          split at hst
          · cases hst; exact hbad
          · cases hst; exact hgood
        · cases hst
    | tryAcquire => cases hi; exact tryAcquire_move h hx hst
    | sign _ ok => cases hi; exact sign_move h hx hst
    | rollback => cases hi; exact rollback_move h hx hst
    | wake =>
        cases hi
        simp only [advance] at hst
        split at hst
        · rename_i hphase
          split at hst
          · cases hst
          cases hst
          have hshaped := hlocal.shaped
          simp only [Submission.Shaped, hphase] at hshaped
          exact .goto hx (.of_same hlocal (fun _ => by rw [hphase]; rfl) hshaped nofun
            (fun _ _ hj => hj) nofun nofun (fun _ => Or.inl (by rw [hphase]; rfl)) nofun)
        · cases hst
    | finishPrepared => cases hi; exact finishPrepared_move h hx hst
    | beforeSend =>
        cases hi
        simp only [advance] at hst
        split at hst
        · rename_i tx hphase
          split at hst
          · cases hst
          cases hst
          exact beforeSend_move h hx hphase
        · cases hst
    | dispatch =>
        cases hi
        simp only [advance] at hst
        split at hst
        · rename_i tx hphase
          split at hst
          · cases hst
          cases hst
          exact .dispatch hx hphase
        · cases hst
    | reply _ r => cases hi; exact reply_move h hx hst
    | markAmbiguous =>
        cases hi
        simp only [advance] at hst
        split at hst
        · rename_i tx hphase
          cases hst
          exact .markAmbiguous hx hphase
        · cases hst
    | dropGuard =>
        cases hi
        simp only [advance] at hst
        split at hst
        · rename_i hphase
          cases hst
          have := @Move.dropGuard s i x .ended hx (Or.inl ⟨hphase, rfl⟩)
          rwa [show ({ x with guard := ∅, phase := .ended } : Submission) = { x with guard := ∅ } by
            rw [← hphase]] at this
        · cases hst
  cases label with
  | executeSubmit owner predecessors => cases hst; exact .executeSubmit ..
  | releaseInstance inst => cases hst; exact .releaseInstance inst
  | _ => exact hadvance _ rfl hst

end ChainRun

end TxGen
