import TxGen.Lib.Lists
import TxGen.RpcOrdering.Model

set_option autoImplicit false

/-! # Exclusion and order of RPC admission

`RpcOrdering` refines the abstract lock table: queued tickets are waiting requests, permits are
grants, and a permit holds the keys it has not given back. The history says that every admitted key
is released once, by the permit it was admitted with. -/

namespace TxGen

open KeyedLocks

/-- The keys released so far, with the permit that released them. -/
def releases (events : List OrderEvent) : List (ℕ × SchedulingKey) :=
  events.flatMap fun
    | .released id keys => keys.map (id, ·)
    | _ => []

@[simp] theorem releases_append (es es' : List OrderEvent) :
    releases (es ++ es') = releases es ++ releases es' := by
  simp [releases]

@[simp] theorem releases_released (id : ℕ) (keys : List SchedulingKey) :
    releases [.released id keys] = keys.map (id, ·) := by
  simp [releases]

/-- A permit holds the keys it was admitted with except those it has released. -/
structure RpcPermit.Inv (released : List (ℕ × SchedulingKey)) (p : RpcPermit) : Prop where
  nodup : p.heldKeys.Nodup
  mem_held : ∀ k, k ∈ p.heldKeys ↔ k ∈ p.admitted ∧ (p.id, k) ∉ released
  /-- At most one inclusion release is handed out. -/
  once : p.inclusionKeys = [] ∨ p.inclusionRelease = []
  dropped : p.stage = .dropped → p.submissionKeys = [] ∧ p.inclusionKeys = []
  dropping : p.stage = .dropping → p.submissionKeys = []

/-- `p` becomes `p'` and gives `keys` back. -/
structure RpcPermit.Gives (p : RpcPermit) (keys : List SchedulingKey) (p' : RpcPermit) : Prop where
  id : p'.id = p.id
  admitted : p'.admitted = p.admitted
  perm : (keys ++ p'.heldKeys).Perm p.heldKeys
  once : p.inclusionKeys = [] ∨ p.inclusionRelease = [] →
    p'.inclusionKeys = [] ∨ p'.inclusionRelease = []
  dropped : p'.stage = .dropped → p'.submissionKeys = [] ∧ p'.inclusionKeys = []
  dropping : p'.stage = .dropping → p'.submissionKeys = []

namespace RpcOrdering

theorem PermitAction.gives {action : PermitAction} {p p' : RpcPermit} {keys : List SchedulingKey}
    {released : List (ℕ × SchedulingKey)} (hp : p.Inv released)
    (h : action.apply p = some (keys, p')) : p.Gives keys p' := by
  cases action with
  | releaseSubmissionKeys =>
      simp only [PermitAction.apply, Option.ite_none_right_eq_some, Option.some.injEq,
        Prod.mk.injEq] at h
      obtain ⟨hstage, rfl, rfl⟩ := h
      exact ⟨rfl, rfl, by simp [RpcPermit.heldKeys], id, by simp [hstage], by simp [hstage]⟩
  | drop =>
      simp only [PermitAction.apply, Option.ite_none_right_eq_some, Option.some.injEq,
        Prod.mk.injEq] at h
      obtain ⟨hstage, rfl, rfl⟩ := h
      exact ⟨rfl, rfl, by simp [RpcPermit.heldKeys], id, by simp, by simp⟩
  | dropRest =>
      simp only [PermitAction.apply, Option.ite_none_right_eq_some, Option.some.injEq,
        Prod.mk.injEq] at h
      obtain ⟨hstage, rfl, rfl⟩ := h
      have hsub := hp.dropping hstage
      exact ⟨rfl, rfl, by simp [RpcPermit.heldKeys, hsub], fun _ => Or.inl rfl, fun _ => ⟨hsub, rfl⟩,
        by simp⟩
  | dropInclusion =>
      simp only [PermitAction.apply, Option.ite_none_right_eq_some, Option.some.injEq,
        Prod.mk.injEq] at h
      obtain ⟨-, rfl, rfl⟩ := h
      refine ⟨rfl, rfl, ?_, fun _ => Or.inr rfl, hp.dropped, hp.dropping⟩
      simp only [RpcPermit.heldKeys, List.append_nil]
      exact List.perm_append_comm

theorem takeInclusionKeys_gives {p : RpcPermit} {released : List (ℕ × SchedulingKey)}
    (hp : p.Inv released) (hstage : p.stage = .held) : p.Gives [] (takeInclusionKeys p) := by
  unfold takeInclusionKeys
  split
  · exact ⟨rfl, rfl, by simp, id, hp.dropped, hp.dropping⟩
  · rename_i hne
    have hnil : p.inclusionRelease = [] :=
      hp.once.resolve_left fun hnil => hne (by rw [hnil]; rfl)
    exact ⟨rfl, rfl, by simp [RpcPermit.heldKeys, hnil], fun _ => Or.inl rfl, by simp [hstage],
      by simp [hstage]⟩

/-! ## The refinement -/

def request (order : RpcPendingOrder) : Request ℕ SchedulingKey :=
  ⟨order.id, order.schedulingKeys.toFinset⟩

def grantOf (p : RpcPermit) : Grant ℕ SchedulingKey where
  id := p.id
  keys := p.admitted.toFinset
  held := p.heldKeys.toFinset

/-- The lock table the ordering implements. -/
def table (s : RpcOrdering) : Table ℕ SchedulingKey :=
  ⟨s.pending.map request, s.permits.map grantOf⟩

structure Inv (s : RpcOrdering) : Prop where
  table : s.table.Inv
  active : ∀ k, k ∈ s.activeKeys ↔ s.table.Locked k
  /-- The queue has one entry for every ticket that waits. -/
  pending_eq : s.pending = s.waiters.map RpcOrderTicket.order
  pending_lt : ∀ o ∈ s.pending, o.id < s.nextId
  permits_lt : ∀ p ∈ s.permits, p.id < s.nextId
  keys_nodup : ∀ o ∈ s.pending, o.schedulingKeys.Nodup
  permit : ∀ p ∈ s.permits, p.Inv (releases s.events)
  releases_nodup : (releases s.events).Nodup
  releases_mem : ∀ r ∈ releases s.events, ∃ p ∈ s.permits, p.id = r.1 ∧ r.2 ∈ p.admitted

/-! ## What a step can do -/

/-- The changes of the ordering; those that only touch the stages of tickets and the notifications
    are one case. -/
inductive Move (s : RpcOrdering) : RpcOrdering → Prop
  | idle {waiters : List RpcOrderTicket} {n : ℕ}
      (same : waiters.map RpcOrderTicket.order = s.waiters.map RpcOrderTicket.order) :
      Move s { s with waiters, notifiesDue := n }
  | enqueue {sub inc sub' inc' : List SchedulingKey}
      (hnorm : normalizeKeySets sub inc = some (sub', inc')) : Move s (s.enqueue sub inc)
  | admitTicket {i index : ℕ} {ticket : RpcOrderTicket} {order : RpcPendingOrder}
      (hw : s.waiters[i]? = some ticket)
      (hready : nextReadyOrderIndex s.pending s.activeKeys = some index)
      (horder : s.pending[index]? = some order) (hid : order.id = ticket.id) :
      Move s (s.admitTicket i ticket index order)
  | cancel {i : ℕ} {ticket : RpcOrderTicket} (hw : s.waiters[i]? = some ticket) :
      Move s (s.cancel i ticket)
  | give {i : ℕ} {p p' : RpcPermit} {keys : List SchedulingKey} {action : PermitAction}
      (hp : s.permits[i]? = some p) (hact : action.apply p = some (keys, p')) :
      Move s { s.release p.id keys with permits := s.permits.set i p' }
  | take {i : ℕ} {p : RpcPermit} (hp : s.permits[i]? = some p) (hstage : p.stage = .held) :
      Move s { s with permits := s.permits.set i (takeInclusionKeys p) }

theorem setStage_same {s : RpcOrdering} {i : ℕ} {ticket : RpcOrderTicket} {stage : WaitStage}
    (hw : s.waiters[i]? = some ticket) :
    (s.waiters.set i { ticket with stage }).map RpcOrderTicket.order =
      s.waiters.map RpcOrderTicket.order :=
  List.map_set_of_eq RpcOrderTicket.order hw rfl

/-- `try_acquire` fails, or the ticket is the one `next_ready_order_index` selects and is admitted. -/
theorem tryAcquire_cases (s : RpcOrdering) (i : ℕ) (ticket : RpcOrderTicket) (notified : Bool) :
    (s.tryAcquire i ticket notified = s.setStage i ticket (.parked notified) ∧
      ∀ index order, nextReadyOrderIndex s.pending s.activeKeys = some index →
        s.pending[index]? = some order → order.id ≠ ticket.id) ∨
      ∃ index order, nextReadyOrderIndex s.pending s.activeKeys = some index ∧
        s.pending[index]? = some order ∧ order.id = ticket.id ∧
        s.tryAcquire i ticket notified = s.admitTicket i ticket index order := by
  unfold tryAcquire
  split
  · rename_i hready
    exact Or.inl ⟨rfl, fun index order h => by rw [hready] at h; cases h⟩
  · rename_i index hready
    split
    · rename_i horder
      refine Or.inl ⟨rfl, fun index' order h ho => ?_⟩
      obtain rfl := Option.some.inj (hready.symm.trans h)
      rw [horder] at ho
      cases ho
    · rename_i order horder
      split
      · rename_i hid
        refine Or.inl ⟨rfl, fun index' order' h ho => ?_⟩
        obtain rfl := Option.some.inj (hready.symm.trans h)
        obtain rfl := Option.some.inj (horder.symm.trans ho)
        exact hid
      · rename_i hid
        exact Or.inr ⟨index, order, hready, horder, not_not.1 hid, rfl⟩

theorem step_move {s t : RpcOrdering} {l : Label} (h : s.step l = some t) : s.Move t := by
  cases l with
  | enqueue sub inc =>
      obtain rfl := Option.some.inj h
      cases hnorm : normalizeKeySets sub inc with
      | none =>
          have hsame : s.enqueue sub inc = s := by simp only [enqueue, hnorm]
          rw [hsame]
          exact .idle rfl
      | some keys => exact .enqueue hnorm
  | notify =>
      simp only [step] at h
      split at h
      · cases h
      · obtain rfl := Option.some.inj h
        refine .idle ?_
        rw [List.map_map]
        rfl
  | register i =>
      simp only [step] at h
      split at h
      · rename_i ticket hw
        split at h
        · obtain rfl := Option.some.inj h
          exact .idle (setStage_same hw)
        · cases h
      · cases h
  | tryAcquire i =>
      simp only [step] at h
      split at h
      · rename_i ticket hw
        split at h
        · rename_i notified _
          obtain rfl := Option.some.inj h
          rcases s.tryAcquire_cases i ticket notified with
            ⟨heq, -⟩ | ⟨index, order, hready, horder, hid, heq⟩
          · rw [heq]
            exact .idle (setStage_same hw)
          · rw [heq]
            exact .admitTicket hw hready horder hid
        · cases h
      · cases h
  | wake i =>
      simp only [step] at h
      split at h
      · rename_i ticket hw
        split at h
        · obtain rfl := Option.some.inj h
          exact .idle (setStage_same hw)
        · cases h
      · cases h
  | cancel i =>
      simp only [step] at h
      split at h
      · rename_i ticket hw
        split at h
        · cases h
        · obtain rfl := Option.some.inj h
          exact .cancel hw
      · cases h
  | act i action =>
      simp only [step] at h
      split at h
      · rename_i p hp
        split at h
        · rename_i hact
          obtain rfl := Option.some.inj h
          exact .give hp hact
        · cases h
      · cases h
  | takeInclusionKeys i =>
      simp only [step] at h
      split at h
      · rename_i p hp
        split at h
        · rename_i hstage
          obtain rfl := Option.some.inj h
          exact .take hp hstage
        · cases h
      · cases h

/-! ## Preservation -/

theorem Inv.permits_ids {s : RpcOrdering} (h : s.Inv) :
    s.permits.Pairwise fun a b => a.id ≠ b.id := by
  have hids := h.table.granted_ids
  simp only [RpcOrdering.table, List.pairwise_map] at hids
  exact hids

theorem Inv.pending_ids {s : RpcOrdering} (h : s.Inv) :
    s.pending.Pairwise fun a b => a.id ≠ b.id := by
  have hids := h.table.waiting_sorted
  simp only [RpcOrdering.table, List.pairwise_map] at hids
  exact hids.imp fun hab => ne_of_lt hab

theorem Inv.apart {s : RpcOrdering} (h : s.Inv) {p : RpcPermit} {o : RpcPendingOrder}
    (hp : p ∈ s.permits) (ho : o ∈ s.pending) : p.id ≠ o.id :=
  h.table.apart _ (List.mem_map_of_mem hp) _ (List.mem_map_of_mem ho)

/-- A ticket and its queue entry stand at the same place. -/
theorem Inv.pending_at {s : RpcOrdering} (h : s.Inv) {i : ℕ} {ticket : RpcOrderTicket}
    (hw : s.waiters[i]? = some ticket) : s.pending[i]? = some ticket.order := by
  rw [h.pending_eq, List.getElem?_map, hw]
  rfl

theorem Inv.idle {s : RpcOrdering} (h : s.Inv) {waiters : List RpcOrderTicket} {n : ℕ}
    (same : waiters.map RpcOrderTicket.order = s.waiters.map RpcOrderTicket.order) :
    Inv { s with waiters, notifiesDue := n } :=
  { h with pending_eq := h.pending_eq.trans same.symm }

theorem enqueue_eq (s : RpcOrdering) {sub inc sub' inc' : List SchedulingKey}
    (hnorm : normalizeKeySets sub inc = some (sub', inc')) :
    s.enqueue sub inc = { s with
      nextId := s.nextId + 1
      pending := s.pending ++ [⟨s.nextId, sub', inc'⟩]
      waiters := s.waiters ++ [⟨s.nextId, sub', inc', .fresh⟩]
      notifiesDue := s.notifiesDue + 1
      events := s.events ++ [.enqueued ⟨s.nextId, sub', inc'⟩] } := by
  simp only [RpcOrdering.enqueue, hnorm, RpcOrderTicket.order]

theorem Inv.enqueue {s : RpcOrdering} (h : s.Inv) {sub inc sub' inc' : List SchedulingKey}
    (hnorm : normalizeKeySets sub inc = some (sub', inc')) : (s.enqueue sub inc).Inv := by
  have heq := s.enqueue_eq hnorm
  obtain ⟨order, horder⟩ : ∃ order : RpcPendingOrder, order = ⟨s.nextId, sub', inc'⟩ := ⟨_, rfl⟩
  rw [← horder] at heq
  have hreleases : releases (s.events ++ [.enqueued order]) = releases s.events := by
    simp [releases]
  rw [heq]
  refine ⟨?_, h.active, ?_, ?_, fun p hp => Nat.lt_succ_of_lt (h.permits_lt p hp), ?_, ?_, ?_, ?_⟩
  · have harrive := h.table.arrive (request order)
      (fun r hr => by
        obtain ⟨o, ho, rfl⟩ := List.mem_map.1 hr
        exact horder ▸ h.pending_lt o ho)
      (fun g hg => by
        obtain ⟨p, hp, rfl⟩ := List.mem_map.1 hg
        exact horder ▸ h.permits_lt p hp)
    simp only [RpcOrdering.table, List.map_append]
    exact harrive
  · simp only [List.map_append, h.pending_eq, horder]
    rfl
  · intro o ho
    rcases List.mem_append.1 ho with ho | ho
    · exact Nat.lt_succ_of_lt (h.pending_lt o ho)
    · obtain rfl := List.mem_singleton.1 ho
      exact horder ▸ Nat.lt_succ_self _
  · intro o ho
    rcases List.mem_append.1 ho with ho | ho
    · exact h.keys_nodup o ho
    · obtain rfl := List.mem_singleton.1 ho
      exact horder ▸ (normalizeKeySets_spec hnorm).1
  · simp only [hreleases]
    exact h.permit
  · simp only [hreleases]
    exact h.releases_nodup
  · simp only [hreleases]
    exact h.releases_mem

/-- `next_ready_order_index` selects a request that may be granted. -/
theorem Inv.grantable {s : RpcOrdering} (h : s.Inv) {index : ℕ} {order : RpcPendingOrder}
    (hready : nextReadyOrderIndex s.pending s.activeKeys = some index)
    (horder : s.pending[index]? = some order) : s.table.Grantable index (request order) := by
  obtain ⟨a, ha, -, hfree, hfirst⟩ := firstReady_some _ _ hready
  obtain rfl : a = order := by simpa [ha] using horder
  refine ⟨by simp [RpcOrdering.table, horder], fun g hg => ?_, fun r hr => ?_⟩
  · refine Finset.disjoint_left.2 fun k hk hk' => hfree k (List.mem_toFinset.1 hk') ?_
    exact (h.active k).2 ⟨g, hg, hk⟩
  · simp only [RpcOrdering.table, ← List.map_take, List.mem_map] at hr
    obtain ⟨b, hb, rfl⟩ := hr
    refine Finset.disjoint_left.2 fun k hk hk' => ?_
    exact hfirst b hb k (List.mem_toFinset.1 hk') (List.mem_toFinset.1 hk)

/-- The entry that `try_acquire` finds under the number of the ticket is the ticket's. -/
theorem Inv.admitted_at {s : RpcOrdering} (h : s.Inv) {i index : ℕ} {ticket : RpcOrderTicket}
    {order : RpcPendingOrder} (hw : s.waiters[i]? = some ticket)
    (horder : s.pending[index]? = some order) (hid : order.id = ticket.id) :
    index = i ∧ order = ticket.order := by
  obtain rfl := List.place_unique RpcPendingOrder.id h.pending_ids horder (h.pending_at hw) hid
  exact ⟨rfl, Option.some.inj (horder.symm.trans (h.pending_at hw))⟩

theorem Inv.admitTicket {s : RpcOrdering} (h : s.Inv) {i index : ℕ} {ticket : RpcOrderTicket}
    {order : RpcPendingOrder} (hw : s.waiters[i]? = some ticket)
    (hready : nextReadyOrderIndex s.pending s.activeKeys = some index)
    (horder : s.pending[index]? = some order) (hid : order.id = ticket.id) :
    (s.admitTicket i ticket index order).Inv := by
  have hgrant := h.grantable hready horder
  have hmem : order ∈ s.pending := List.mem_of_getElem? horder
  obtain ⟨rfl, rfl⟩ := h.admitted_at hw horder hid
  obtain ⟨permit, hpermit⟩ : ∃ permit : RpcPermit, permit =
      { id := ticket.id, admitted := ticket.submissionKeys ++ ticket.inclusionKeys,
        submissionKeys := ticket.submissionKeys, inclusionKeys := ticket.inclusionKeys } := ⟨_, rfl⟩
  have hheld : permit.heldKeys = permit.admitted := by simp [hpermit, RpcPermit.heldKeys]
  have hadmitted : permit.admitted = ticket.order.schedulingKeys := by rw [hpermit]; rfl
  have hpid : permit.id = ticket.order.id := by rw [hpermit]; rfl
  -- a ticket that was still queued has released nothing
  have hnorel : ∀ r ∈ releases s.events, r.1 ≠ permit.id := by
    intro r hr heq
    obtain ⟨p, hp, hpr, -⟩ := h.releases_mem r hr
    exact h.apart hp hmem (hpr.trans (heq.trans hpid))
  have hreleases : releases (s.events ++ [.admitted ticket.id]) = releases s.events := by
    simp [releases]
  have hfull : grantOf permit = { request ticket.order with held := (request ticket.order).keys } := by
    simp only [grantOf, hheld, hadmitted, hpid, request]
  have hstate : s.admitTicket index ticket index ticket.order = { s with
      pending := s.pending.eraseIdx index
      activeKeys := s.activeKeys ∪ ticket.order.schedulingKeys.toFinset
      waiters := s.waiters.eraseIdx index
      permits := s.permits ++ [permit]
      events := s.events ++ [.admitted ticket.id] } := by rw [hpermit]; rfl
  have htable : (s.admitTicket index ticket index ticket.order).table =
      s.table.grant index (request ticket.order) := by
    rw [hstate]
    simp only [RpcOrdering.table, Table.grant, List.map_append, List.map_cons, List.map_nil, hfull]
    rw [List.eraseIdx_map]
  refine ⟨htable ▸ h.table.grant hgrant, fun k => ?_, ?_, ?_, ?_, ?_, ?_, ?_, ?_⟩
  · rw [htable, Table.locked_grant, ← h.active k]
    simp [RpcOrdering.admitTicket, request]
  · rw [hstate]
    simp only [h.pending_eq, List.eraseIdx_map]
  · exact fun o ho => h.pending_lt o ((List.eraseIdx_sublist _ _).subset ho)
  · rw [hstate]
    intro p hp
    rcases List.mem_append.1 hp with hp | hp
    · exact h.permits_lt p hp
    · obtain rfl := List.mem_singleton.1 hp
      exact hpid ▸ h.pending_lt _ hmem
  · exact fun o ho => h.keys_nodup o ((List.eraseIdx_sublist _ _).subset ho)
  · rw [hstate]
    simp only [hreleases]
    intro p hp
    rcases List.mem_append.1 hp with hp | hp
    · exact h.permit p hp
    · obtain rfl := List.mem_singleton.1 hp
      refine ⟨?_, fun k => ?_, Or.inr (by rw [hpermit]), by simp [hpermit], by simp [hpermit]⟩
      · rw [hheld, hadmitted]
        exact h.keys_nodup _ hmem
      · rw [hheld]
        exact (and_iff_left fun hin => hnorel _ hin rfl).symm
  · rw [hstate]
    simp only [hreleases]
    exact h.releases_nodup
  · rw [hstate]
    simp only [hreleases]
    intro r hr
    obtain ⟨p, hp, hpr⟩ := h.releases_mem r hr
    exact ⟨p, List.mem_append_left _ hp, hpr⟩

/-- `cancel_pending` erases the entry of the ticket. -/
theorem Inv.erase_pending {s : RpcOrdering} (h : s.Inv) {i : ℕ} {ticket : RpcOrderTicket}
    (hw : s.waiters[i]? = some ticket) :
    (s.pending.eraseP fun order => order.id = ticket.id) = s.pending.eraseIdx i :=
  List.eraseP_eq_eraseIdx_of_name RpcPendingOrder.id h.pending_ids (h.pending_at hw)

theorem Inv.cancel {s : RpcOrdering} (h : s.Inv) {i : ℕ} {ticket : RpcOrderTicket}
    (hw : s.waiters[i]? = some ticket) : (s.cancel i ticket).Inv := by
  have herase := h.erase_pending hw
  have hreleases : releases (s.events ++ [.cancelled ticket.id]) = releases s.events := by
    simp [releases]
  have hsub : (s.pending.eraseIdx i).Sublist s.pending := List.eraseIdx_sublist _ _
  unfold RpcOrdering.cancel
  rw [herase]
  refine ⟨h.table.withdraw (hsub.map request), h.active, ?_, fun o ho => h.pending_lt o (hsub.subset ho),
    h.permits_lt, fun o ho => h.keys_nodup o (hsub.subset ho), ?_, ?_, ?_⟩
  · simp only [h.pending_eq, List.eraseIdx_map]
  · simp only [hreleases]
    exact h.permit
  · simp only [hreleases]
    exact h.releases_nodup
  · simp only [hreleases]
    exact h.releases_mem

/-- A permit gives keys back, which is recorded in `events`. -/
theorem Inv.gives {s : RpcOrdering} (h : s.Inv) {i : ℕ} (n : ℕ) {p p' : RpcPermit}
    {keys : List SchedulingKey} (events : List OrderEvent) (hp : s.permits[i]? = some p)
    (hg : p.Gives keys p') (hevents : releases events = releases s.events ++ keys.map (p.id, ·)) :
    Inv { s with
      activeKeys := s.activeKeys \ keys.toFinset
      permits := s.permits.set i p'
      notifiesDue := n
      events } := by
  have hmem : p ∈ s.permits := List.mem_of_getElem? hp
  have hpinv := h.permit p hmem
  have hnodup : (keys ++ p'.heldKeys).Nodup := hg.perm.nodup_iff.2 hpinv.nodup
  have hheld : ∀ k, k ∈ p.heldKeys ↔ k ∈ keys ∨ k ∈ p'.heldKeys := fun k => by
    rw [← hg.perm.mem_iff, List.mem_append]
  have hgrant : grantOf p' = { grantOf p with held := (grantOf p).held \ keys.toFinset } := by
    simp only [grantOf, hg.id, hg.admitted, Grant.mk.injEq, true_and]
    ext k
    rw [Finset.mem_sdiff, List.mem_toFinset, List.mem_toFinset, List.mem_toFinset, hheld]
    constructor
    · exact fun hk => ⟨Or.inr hk, fun hk' => List.disjoint_of_nodup_append hnodup hk' hk⟩
    · exact fun hk => hk.1.resolve_left hk.2
  have hpermits : (s.permits.set i p').map grantOf =
      (s.permits.map grantOf).map fun g =>
        if g.id = p.id then { g with held := g.held \ keys.toFinset } else g := by
    rw [List.map_set_eq_map_ite RpcPermit.id grantOf h.permits_ids hp, List.map_map]
    refine List.map_congr_left fun x hx => ?_
    show (if x.id = p.id then grantOf p' else grantOf x) =
      if x.id = p.id then _ else grantOf x
    by_cases hid : x.id = p.id
    · obtain ⟨j, hj⟩ := List.mem_iff_getElem?.1 hx
      obtain rfl := List.place_unique RpcPermit.id h.permits_ids hj hp hid
      obtain rfl := Option.some.inj (hj.symm.trans hp)
      rw [if_pos rfl, if_pos rfl, hgrant]
    · rw [if_neg hid, if_neg hid]
  have htable : (⟨s.pending.map request, (s.permits.set i p').map grantOf⟩ : Table ℕ SchedulingKey) =
      s.table.release p.id keys.toFinset := by rw [hpermits]; rfl
  have hcases : ∀ x ∈ s.permits.set i p', x = p' ∨ (x ∈ s.permits ∧ x.id ≠ p.id) := fun x hx =>
    List.mem_set_cases RpcPermit.id h.permits_ids hp hx
  have hother : ∀ x : RpcPermit, x.id ≠ p.id → ∀ k,
      (x.id, k) ∈ releases events ↔ (x.id, k) ∈ releases s.events := by
    intro x hne k
    rw [hevents, List.mem_append, List.mem_map]
    refine or_iff_left ?_
    rintro ⟨_, _, heq⟩
    exact hne (congrArg Prod.fst heq).symm
  have hself : ∀ k, (p.id, k) ∈ releases events ↔ (p.id, k) ∈ releases s.events ∨ k ∈ keys := by
    intro k
    rw [hevents, List.mem_append, List.mem_map]
    simp
  refine ⟨?_, fun k => ?_, h.pending_eq, h.pending_lt, fun x hx => ?_, h.keys_nodup,
    fun x hx => ?_, ?_, fun r hr => ?_⟩
  · have := h.table.release p.id keys.toFinset
    rw [← htable] at this
    exact this
  · have hlocked := Table.locked_release h.table (List.mem_map_of_mem hmem)
      (fun k (hk : k ∈ keys.toFinset) => List.mem_toFinset.2
        ((hheld k).2 (Or.inl (List.mem_toFinset.1 hk)))) k
    refine Iff.trans ?_ (hlocked.symm.trans
      (iff_of_eq (congrArg (fun t => Table.Locked t k) htable.symm)))
    rw [Finset.mem_sdiff, h.active k]
  · rcases hcases x hx with rfl | ⟨hx, -⟩
    · exact hg.id ▸ h.permits_lt p hmem
    · exact h.permits_lt x hx
  · rcases hcases x hx with rfl | ⟨hx, hne⟩
    · refine ⟨hnodup.of_append_right, fun k => ?_, hg.once hpinv.once, hg.dropped, hg.dropping⟩
      rw [hg.id, hg.admitted, hself, not_or, ← and_assoc, ← hpinv.mem_held k, hheld]
      constructor
      · exact fun hk => ⟨Or.inr hk, fun hk' => List.disjoint_of_nodup_append hnodup hk' hk⟩
      · exact fun hk => hk.1.resolve_left hk.2
    · have hx' := h.permit x hx
      refine ⟨hx'.nodup, fun k => ?_, hx'.once, hx'.dropped, hx'.dropping⟩
      rw [hother x hne, ← hx'.mem_held k]
  · rw [hevents]
    refine h.releases_nodup.append
      (hnodup.of_append_left.map fun a b hab => congrArg Prod.snd hab) fun r hr hr' => ?_
    obtain ⟨k, hk, rfl⟩ := List.mem_map.1 hr'
    exact ((hpinv.mem_held k).1 ((hheld k).2 (Or.inl hk))).2 hr
  · have hnames : ∀ x ∈ s.permits, ∃ x' ∈ s.permits.set i p', x'.id = x.id ∧
        x'.admitted = x.admitted := by
      intro x hx
      have hin : (x.id, x.admitted) ∈ (s.permits.set i p').map fun x => (x.id, x.admitted) := by
        rw [List.map_set_of_eq (fun x : RpcPermit => (x.id, x.admitted)) hp
          (by rw [hg.id, hg.admitted])]
        exact List.mem_map_of_mem (f := fun x : RpcPermit => (x.id, x.admitted)) hx
      obtain ⟨x', hx', heq⟩ := List.mem_map.1 hin
      exact ⟨x', hx', congrArg Prod.fst heq, congrArg Prod.snd heq⟩
    rw [hevents, List.mem_append, List.mem_map] at hr
    rcases hr with hr | ⟨k, hk, rfl⟩
    · obtain ⟨x, hx, hid, hadm⟩ := h.releases_mem r hr
      obtain ⟨x', hx', hid', hadm'⟩ := hnames x hx
      exact ⟨x', hx', hid'.trans hid, hadm' ▸ hadm⟩
    · obtain ⟨x', hx', hid', hadm'⟩ := hnames p hmem
      exact ⟨x', hx', hid', hadm' ▸ ((hpinv.mem_held k).1 ((hheld k).2 (Or.inl hk))).1⟩

theorem Inv.move {s t : RpcOrdering} (h : s.Inv) (hm : s.Move t) : t.Inv := by
  cases hm with
  | idle same => exact h.idle same
  | enqueue hnorm => exact h.enqueue hnorm
  | admitTicket hw hready horder hid => exact h.admitTicket hw hready horder hid
  | cancel hw => exact h.cancel hw
  | give hp hact =>
      refine h.gives _ _ hp (PermitAction.gives (h.permit _ (List.mem_of_getElem? hp)) hact) ?_
      simp only [RpcOrdering.release, releases_append, releases_released]
  | take hp hstage =>
      have hgives := takeInclusionKeys_gives (h.permit _ (List.mem_of_getElem? hp)) hstage
      have := h.gives s.notifiesDue s.events hp hgives (by simp)
      simpa using this

theorem inv_init : Inv {} := by
  refine ⟨Table.inv_empty, ?_, ?_, ?_, ?_, ?_, ?_, ?_, ?_⟩ <;>
    simp [Table.Locked, RpcOrdering.table, releases]

theorem inv_reachable {s : RpcOrdering} (h : rpcOrderingSystem.Reachable s) : s.Inv :=
  h.invariant inv_init fun _ _ _ hI hst => hI.move (step_move hst)

end RpcOrdering

end TxGen
