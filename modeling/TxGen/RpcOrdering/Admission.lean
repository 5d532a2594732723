import TxGen.RpcOrdering.Exclusion

set_option autoImplicit false

/-! # The guarantee of RPC admission

The queue and the active keys are a function of the history (`replay`), and striking a cancelled
ticket out of the history does not change what it leads to. Together with the lock table this is
what ordered admission guarantees in every reachable state (`admission_exclusive_in_order`). -/

namespace TxGen

/-- The ticket an event is about. -/
def OrderEvent.id : OrderEvent → ℕ
  | .enqueued order => order.id
  | .admitted id | .released id _ | .cancelled id => id

/-- What an event does to the queue and the active keys. -/
def OrderEvent.effect (q : List RpcPendingOrder × Finset SchedulingKey) :
    OrderEvent → List RpcPendingOrder × Finset SchedulingKey
  | .enqueued order => (q.1 ++ [order], q.2)
  | .admitted id =>
    (q.1.filter fun order => order.id ≠ id,
      q.2 ∪ ((q.1.filter fun order => order.id = id).flatMap (·.schedulingKeys)).toFinset)
  | .released _ keys => (q.1, q.2 \ keys.toFinset)
  | .cancelled id => (q.1.filter fun order => order.id ≠ id, q.2)

/-- The queue and the active keys a history leads to. -/
def replay (events : List OrderEvent) : List RpcPendingOrder × Finset SchedulingKey :=
  events.foldl OrderEvent.effect ([], ∅)

/-- The history without ticket `id`. -/
def withoutTicket (id : ℕ) (events : List OrderEvent) : List OrderEvent :=
  events.filter fun e => e.id ≠ id

theorem replay_concat (events : List OrderEvent) (e : OrderEvent) :
    replay (events ++ [e]) = e.effect (replay events) := by
  simp [replay]

/-- The queue without ticket `id`. -/
def dropTicket (id : ℕ) (q : List RpcPendingOrder × Finset SchedulingKey) :
    List RpcPendingOrder × Finset SchedulingKey :=
  (q.1.filter fun order => order.id ≠ id, q.2)

/-- Events of other tickets do not look at ticket `id`. -/
theorem effect_dropTicket {id : ℕ} {e : OrderEvent} (he : e.id ≠ id)
    (q : List RpcPendingOrder × Finset SchedulingKey) :
    e.effect (dropTicket id q) = dropTicket id (e.effect q) := by
  have hcomm : ∀ n, ((q.1.filter fun order => order.id ≠ id).filter fun order => order.id ≠ n) =
      (q.1.filter fun order => order.id ≠ n).filter fun order => order.id ≠ id := fun n => by
    rw [List.filter_filter, List.filter_filter]
    exact List.filter_congr fun x _ => Bool.and_comm _ _
  cases e with
  | enqueued order =>
      have hne : order.id ≠ id := he
      simp [OrderEvent.effect, dropTicket, hne]
  | admitted n =>
      have hne : n ≠ id := he
      have hsame : ((q.1.filter fun order => order.id ≠ id).filter fun order => order.id = n) =
          q.1.filter fun order => order.id = n := by
        rw [List.filter_filter]
        refine List.filter_congr fun x _ => ?_
        by_cases hx : x.id = n <;> simp [hx, hne]
      simp only [OrderEvent.effect, dropTicket, hcomm, hsame]
  | released n keys => rfl
  | cancelled n => simp only [OrderEvent.effect, dropTicket, hcomm]

/-- Striking a ticket that was never admitted out of the history takes its entry out of the queue and
    changes nothing else. -/
theorem replay_withoutTicket {id : ℕ} {events : List OrderEvent}
    (hadmitted : .admitted id ∉ events) (hreleased : ∀ keys, .released id keys ∉ events) :
    replay (withoutTicket id events) = dropTicket id (replay events) := by
  induction events using List.reverseRecOn with
  | nil => rfl
  | append_singleton events e ih =>
      have ih := ih (fun h => hadmitted (List.mem_append_left _ h))
        (fun keys h => hreleased keys (List.mem_append_left _ h))
      rw [replay_concat, withoutTicket, List.filter_append]
      by_cases he : e.id = id
      · rw [List.filter_cons_of_neg (by simpa using he), List.filter_nil, List.append_nil]
        refine ih.trans ?_
        cases e with
        | enqueued order =>
            have hid : order.id = id := he
            simp [OrderEvent.effect, dropTicket, hid]
        | admitted n =>
            obtain rfl : n = id := he
            exact absurd (List.mem_append_right _ (List.mem_singleton_self _)) hadmitted
        | released n keys =>
            obtain rfl : n = id := he
            exact absurd (List.mem_append_right _ (List.mem_singleton_self _)) (hreleased keys)
        | cancelled n =>
            obtain rfl : n = id := he
            simp [OrderEvent.effect, dropTicket]
      · rw [List.filter_cons_of_pos (by simpa using he), List.filter_nil]
        show replay (withoutTicket id events ++ [e]) = _
        rw [replay_concat, ih, effect_dropTicket he]

namespace RpcOrdering

/-- The history describes the state, and cancelled tickets are neither queued nor admitted. -/
structure HistoryInv (s : RpcOrdering) : Prop where
  describes : replay s.events = (s.pending, s.activeKeys)
  admitted : ∀ id, .admitted id ∈ s.events → ∃ p ∈ s.permits, p.id = id
  released : ∀ id keys, .released id keys ∈ s.events → ∃ p ∈ s.permits, p.id = id
  cancelled : ∀ id, .cancelled id ∈ s.events →
    id < s.nextId ∧ (∀ o ∈ s.pending, o.id ≠ id) ∧ ∀ p ∈ s.permits, p.id ≠ id

/-- An event other than `e` that is recorded after `e` was recorded before. -/
theorem mem_of_mem_concat {events : List OrderEvent} {e e' : OrderEvent} (h : e' ∈ events ++ [e])
    (hne : e' ≠ e) : e' ∈ events :=
  (List.mem_append.1 h).resolve_right fun hin => hne (List.mem_singleton.1 hin)

/-- Replacing a permit by one of the same number keeps the numbers of the permits. -/
theorem permits_set_ids {permits : List RpcPermit} {i : ℕ} {p p' : RpcPermit}
    (hp : permits[i]? = some p) (hid : p'.id = p.id) (id : ℕ) :
    (∃ x ∈ permits.set i p', x.id = id) ↔ ∃ x ∈ permits, x.id = id := by
  rw [← List.mem_map, ← List.mem_map, List.map_set_of_eq RpcPermit.id hp hid]

theorem HistoryInv.enqueue {s : RpcOrdering} (h : s.HistoryInv)
    {sub inc sub' inc' : List SchedulingKey}
    (hnorm : normalizeKeySets sub inc = some (sub', inc')) : (s.enqueue sub inc).HistoryInv := by
  rw [s.enqueue_eq hnorm]
  refine ⟨?_, fun id he => h.admitted id (mem_of_mem_concat he nofun),
    fun id keys he => h.released id keys (mem_of_mem_concat he nofun), fun id he => ?_⟩
  · rw [replay_concat, h.describes]
    rfl
  · obtain ⟨hlt, hqueued, hpermits⟩ := h.cancelled id (mem_of_mem_concat he nofun)
    refine ⟨Nat.lt_succ_of_lt hlt, fun o ho => ?_, hpermits⟩
    rcases List.mem_append.1 ho with ho | ho
    · exact hqueued o ho
    · obtain rfl := List.mem_singleton.1 ho
      exact hlt.ne'

theorem HistoryInv.admitTicket {s : RpcOrdering} (h : s.HistoryInv) (hinv : s.Inv) {i index : ℕ}
    {ticket : RpcOrderTicket} {order : RpcPendingOrder} (hw : s.waiters[i]? = some ticket)
    (horder : s.pending[index]? = some order) (hid : order.id = ticket.id) :
    (s.admitTicket i ticket index order).HistoryInv := by
  have hmem : order ∈ s.pending := List.mem_of_getElem? horder
  obtain ⟨rfl, rfl⟩ := hinv.admitted_at hw horder hid
  refine ⟨?_, fun id he => ?_, fun id keys he => ?_, fun id he => ?_⟩
  · have hne := List.filter_name_ne RpcPendingOrder.id hinv.pending_ids horder
    have heq := List.filter_name_eq RpcPendingOrder.id hinv.pending_ids horder
    show replay (s.events ++ [.admitted ticket.order.id]) = _
    rw [replay_concat, h.describes]
    simp only [OrderEvent.effect, hne, heq, List.flatMap_singleton]
    rfl
  · rcases List.mem_append.1 he with he | he
    · obtain ⟨p, hp, hpid⟩ := h.admitted id he
      exact ⟨p, List.mem_append_left _ hp, hpid⟩
    · obtain rfl : id = ticket.id := by simpa using he
      exact ⟨_, List.mem_append_right _ (List.mem_singleton_self _), rfl⟩
  · obtain ⟨p, hp, hpid⟩ := h.released id keys (mem_of_mem_concat he nofun)
    exact ⟨p, List.mem_append_left _ hp, hpid⟩
  · obtain ⟨hlt, hqueued, hpermits⟩ := h.cancelled id (mem_of_mem_concat he nofun)
    refine ⟨hlt, fun o ho => hqueued o ((List.eraseIdx_sublist _ _).subset ho), fun p hp => ?_⟩
    rcases List.mem_append.1 hp with hp | hp
    · exact hpermits p hp
    · obtain rfl := List.mem_singleton.1 hp
      exact hqueued _ hmem

theorem HistoryInv.cancel {s : RpcOrdering} (h : s.HistoryInv) (hinv : s.Inv) {i : ℕ}
    {ticket : RpcOrderTicket} (hw : s.waiters[i]? = some ticket) :
    (s.cancel i ticket).HistoryInv := by
  have hat := hinv.pending_at hw
  have hne := List.filter_name_ne RpcPendingOrder.id hinv.pending_ids hat
  unfold RpcOrdering.cancel
  rw [hinv.erase_pending hw]
  refine ⟨?_, fun id he => h.admitted id (mem_of_mem_concat he nofun),
    fun id keys he => h.released id keys (mem_of_mem_concat he nofun), fun id he => ?_⟩
  · rw [replay_concat, h.describes]
    exact Prod.ext hne rfl
  · rcases List.mem_append.1 he with he | he
    · obtain ⟨hlt, hqueued, hpermits⟩ := h.cancelled id he
      exact ⟨hlt, fun o ho => hqueued o ((List.eraseIdx_sublist _ _).subset ho), hpermits⟩
    · obtain rfl : id = ticket.id := by simpa using he
      have hmem := List.mem_of_getElem? hat
      refine ⟨hinv.pending_lt _ hmem, fun o ho => ?_, fun p hp => hinv.apart hp hmem⟩
      rw [← hne] at ho
      have hoid : o.id ≠ ticket.order.id := by simpa using (List.mem_filter.1 ho).2
      exact hoid

theorem HistoryInv.give {s : RpcOrdering} (h : s.HistoryInv) {i : ℕ} {p p' : RpcPermit}
    {keys : List SchedulingKey} (hp : s.permits[i]? = some p) (hid : p'.id = p.id) :
    HistoryInv { s.release p.id keys with permits := s.permits.set i p' } := by
  refine ⟨?_, fun id he => ?_, fun id keys' he => ?_, fun id he => ?_⟩
  · show replay (s.events ++ [.released p.id keys]) = _
    rw [replay_concat, h.describes]
    rfl
  · exact (permits_set_ids hp hid id).2 (h.admitted id (mem_of_mem_concat he nofun))
  · rw [permits_set_ids hp hid id]
    rcases List.mem_append.1 he with he | he
    · exact h.released id keys' he
    · obtain ⟨rfl, -⟩ : id = p.id ∧ keys' = keys := by simpa using he
      exact ⟨p, List.mem_of_getElem? hp, rfl⟩
  · obtain ⟨hlt, hqueued, hpermits⟩ := h.cancelled id (mem_of_mem_concat he nofun)
    refine ⟨hlt, hqueued, fun x hx hxid => ?_⟩
    obtain ⟨y, hy, hyid⟩ := (permits_set_ids hp hid id).1 ⟨x, hx, hxid⟩
    exact hpermits y hy hyid

theorem HistoryInv.move {s t : RpcOrdering} (h : s.HistoryInv) (hinv : s.Inv) (hm : s.Move t) :
    t.HistoryInv := by
  cases hm with
  | idle _ => exact ⟨h.describes, h.admitted, h.released, h.cancelled⟩
  | enqueue hnorm => exact h.enqueue hnorm
  | admitTicket hw _ horder hid => exact h.admitTicket hinv hw horder hid
  | cancel hw => exact h.cancel hinv hw
  | give hp hact =>
      exact h.give hp (PermitAction.gives (hinv.permit _ (List.mem_of_getElem? hp)) hact).id
  | take hp hstage =>
      have hid := (takeInclusionKeys_gives (hinv.permit _ (List.mem_of_getElem? hp)) hstage).id
      refine ⟨h.describes, fun id he => (permits_set_ids hp hid id).2 (h.admitted id he),
        fun id keys he => (permits_set_ids hp hid id).2 (h.released id keys he), fun id he => ?_⟩
      obtain ⟨hlt, hqueued, hpermits⟩ := h.cancelled id he
      refine ⟨hlt, hqueued, fun x hx hxid => ?_⟩
      obtain ⟨y, hy, hyid⟩ := (permits_set_ids hp hid id).1 ⟨x, hx, hxid⟩
      exact hpermits y hy hyid

theorem historyInv_reachable {s : RpcOrdering} (h : rpcOrderingSystem.Reachable s) :
    s.HistoryInv := by
  refine (h.invariant (I := fun s => s.Inv ∧ s.HistoryInv)
    ⟨inv_init, ⟨rfl, nofun, nofun, nofun⟩⟩ fun s l t hI hst => ?_).2
  exact ⟨hI.1.move (step_move hst), hI.2.move hI.1 (step_move hst)⟩

/-! ## The guarantee -/

/-- What ordered admission guarantees in a state. -/
structure ExclusiveInOrder (s : RpcOrdering) : Prop where
  /-- No two permits hold a common key. -/
  exclusive : s.permits.Pairwise fun a b => a.heldKeys.Disjoint b.heldKeys
  /-- The active keys are what the permits hold; a release never frees a key of another holder. -/
  active : ∀ k, k ∈ s.activeKeys ↔ ∃ p ∈ s.permits, k ∈ p.heldKeys
  /-- Tickets that share a key are admitted in the order in which they were enqueued. -/
  inOrder : s.permits.Pairwise fun a b => (∃ k ∈ a.admitted, k ∈ b.admitted) → a.id < b.id
  /-- A ticket that waits was enqueued after all admitted ones it shares a key with. -/
  notOvertaken : ∀ p ∈ s.permits, ∀ w ∈ s.waiters,
    (∃ k ∈ p.admitted, k ∈ w.order.schedulingKeys) → p.id < w.id
  /-- No key is released twice under one permit, and none that it was not admitted with. -/
  releasedOnce : (releases s.events).Nodup ∧
    ∀ r ∈ releases s.events, ∃ p ∈ s.permits, p.id = r.1 ∧ r.2 ∈ p.admitted
  /-- An admitted key is held or released, and not both. -/
  released_iff : ∀ p ∈ s.permits, ∀ k ∈ p.admitted, (p.id, k) ∈ releases s.events ↔ k ∉ p.heldKeys
  /-- A permit that is gone has released all its keys. -/
  dropped : ∀ p ∈ s.permits, p.stage = .dropped → p.inclusionRelease = [] → p.heldKeys = []
  /-- The queue holds the tickets that wait, in the order of `enqueue`. -/
  queue : s.pending = s.waiters.map RpcOrderTicket.order ∧
    s.pending.Pairwise fun a b => a.id < b.id
  /-- A ticket that was cancelled while it waited has left no trace. -/
  noTrace : ∀ id, .cancelled id ∈ s.events →
    replay (withoutTicket id s.events) = (s.pending, s.activeKeys)

theorem locked_iff (s : RpcOrdering) (k : SchedulingKey) :
    s.table.Locked k ↔ ∃ p ∈ s.permits, k ∈ p.heldKeys := by
  simp only [KeyedLocks.Table.Locked, table, List.mem_map, exists_exists_and_eq_and, grantOf,
    List.mem_toFinset]

theorem not_disjoint_of_shared {a b : List SchedulingKey} (h : ∃ k ∈ a, k ∈ b) :
    ¬ Disjoint a.toFinset b.toFinset := by
  obtain ⟨k, ha, hb⟩ := h
  exact Finset.not_disjoint_iff.2 ⟨k, List.mem_toFinset.2 ha, List.mem_toFinset.2 hb⟩

theorem HistoryInv.noTrace {s : RpcOrdering} (h : s.HistoryInv) {id : ℕ}
    (hc : .cancelled id ∈ s.events) :
    replay (withoutTicket id s.events) = (s.pending, s.activeKeys) := by
  obtain ⟨-, hqueued, hpermits⟩ := h.cancelled id hc
  rw [replay_withoutTicket
    (fun he => by obtain ⟨p, hp, hid⟩ := h.admitted id he; exact hpermits p hp hid)
    (fun keys he => by obtain ⟨p, hp, hid⟩ := h.released id keys he; exact hpermits p hp hid),
    h.describes]
  exact Prod.ext (List.filter_eq_self.2 fun o ho => by simpa using hqueued o ho) rfl

end RpcOrdering

/-- **Ordered admission excludes and orders**, for every interleaving of its callers. -/
theorem admission_exclusive_in_order {s : RpcOrdering} (h : rpcOrderingSystem.Reachable s) :
    s.ExclusiveInOrder := by
  have hinv := RpcOrdering.inv_reachable h
  have hexclusive := hinv.table.exclusive
  have hfifo := hinv.table.fifo
  have hsorted := hinv.table.waiting_sorted
  simp only [RpcOrdering.table, List.pairwise_map] at hexclusive hfifo hsorted
  refine ⟨hexclusive.imp fun hab => ?_, fun k => (hinv.active k).trans (s.locked_iff k),
    hfifo.imp fun hab hshare => hab (RpcOrdering.not_disjoint_of_shared hshare),
    fun p hp w hw hshare => ?_, ⟨hinv.releases_nodup, hinv.releases_mem⟩, fun p hp k hk => ?_,
    fun p hp hdropped hnone => ?_, ⟨hinv.pending_eq, hsorted⟩,
    fun id hc => (RpcOrdering.historyInv_reachable h).noTrace hc⟩
  · exact List.disjoint_toFinset_iff_disjoint.1 hab
  · have hqueued : w.order ∈ s.pending := hinv.pending_eq ▸ List.mem_map_of_mem hw
    exact hinv.table.not_overtaken _ (List.mem_map_of_mem hp) _ (List.mem_map_of_mem hqueued)
      (RpcOrdering.not_disjoint_of_shared hshare)
  · rw [(hinv.permit p hp).mem_held k, not_and_not_right]
    exact (imp_iff_right hk).symm
  · obtain ⟨hsub, hinc⟩ := (hinv.permit p hp).dropped hdropped
    simp [RpcPermit.heldKeys, hsub, hinc, hnone]

namespace RpcOrdering.Sample

def key (n : ℕ) : SchedulingKey := ⟨BitVec.ofNat 160 n⟩

/-- `try_acquire` of the ticket at place `i`, right after its task has registered. -/
def poll (i : ℕ) : List Label := [.register i, .tryAcquire i]

/-- Three tickets; the second one waits for the first and is cancelled, and the third one waits for the
    inclusion key of the first. -/
def cancelling : List Label :=
  [.enqueue [key 1] [key 2], .notify, .enqueue [key 1, key 3] [], .notify, .enqueue [key 2] [],
    .notify] ++ poll 0 ++ poll 0 ++ [.act 0 .releaseSubmissionKeys, .notify, .cancel 0, .notify,
    .takeInclusionKeys 0, .act 0 .drop, .act 0 .dropRest] ++ poll 0

end RpcOrdering.Sample

open RpcOrdering.Sample in
theorem admission_exclusive_in_order_cancelled : ∃ s, rpcOrderingSystem.Reachable s ∧
    .cancelled 1 ∈ s.events ∧ s.pending.length = 1 ∧ s.activeKeys = {key 2} ∧ s.ExclusiveInOrder := by
  have hcheck : (rpcOrderingSystem.exec {} cancelling).any (fun s =>
      .cancelled 1 ∈ s.events ∧ s.pending.length = 1 ∧ s.activeKeys = {key 2}) = true := by
    decide
  obtain ⟨s, hrun, hcancelled, hpending, hactive⟩ := System.run_of_check hcheck
  exact ⟨s, ⟨_, hrun⟩, hcancelled, hpending, hactive, admission_exclusive_in_order ⟨_, hrun⟩⟩

end TxGen
