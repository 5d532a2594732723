import TxGen.Sender.Keys

set_option autoImplicit false

/-! # Mutual exclusion and order of the sender

Dispatched transactions never hold a common scheduling key, `active_keys` is the disjoint union of
what they hold, and transactions that share a key are dispatched in the order in which they were
passed to `send`. -/

namespace TxGen

namespace Sender

/-! ## The log of accepted transactions -/

/-- The queue and the workers come from the log, which is ordered by queue id and whose entries have
    the keys of the transactions passed to `send`. -/
structure AcceptedInv (s : Sender) : Prop where
  sorted : s.log.accepted.Pairwise fun a b => a.entry.queueId < b.entry.queueId
  lt_next : ∀ a ∈ s.log.accepted, a.entry.queueId < s.nextQueueId
  keys : ∀ a ∈ s.log.accepted, ∀ k, k ∈ a.entry.schedulingKeys ↔ k ∈ a.source.schedulingKeys
  nonempty : ∀ a ∈ s.log.accepted, a.entry.schedulingKeys ≠ []
  pending_mem : ∀ p ∈ s.pending, ∃ a ∈ s.log.accepted, a.entry = p
  worker_mem : ∀ w ∈ s.workers, ∃ a ∈ s.log.accepted, a.entry = w.tx

/-- `AcceptedInv` looks at the queue, the transactions of the workers and the accepted log only. -/
theorem AcceptedInv.frame {s s' : Sender} (h : s.AcceptedInv)
    (pending : ∀ p ∈ s'.pending, p ∈ s.pending)
    (workers : ∀ w ∈ s'.workers, ∃ a ∈ s.log.accepted, a.entry = w.tx)
    (accepted : s'.log.accepted = s.log.accepted) (next : s.nextQueueId ≤ s'.nextQueueId) :
    s'.AcceptedInv where
  sorted := accepted ▸ h.sorted
  lt_next := fun a ha => (h.lt_next a (accepted ▸ ha)).trans_le next
  keys := fun a ha => h.keys a (accepted ▸ ha)
  nonempty := fun a ha => h.nonempty a (accepted ▸ ha)
  pending_mem := fun p hp => accepted ▸ h.pending_mem p (pending p hp)
  worker_mem := fun w hw => accepted ▸ workers w hw

theorem AcceptedInv.enqueue {s s' : Sender} (h : s.AcceptedInv) {call : ℕ} {tx : GeneratedTx}
    (he : s.Enqueued call tx s') : s'.AcceptedInv := by
  obtain ⟨sub, inc, known, hnorm, rfl, -⟩ := he
  refine ⟨?_, ?_, ?_, ?_, ?_, ?_⟩
  · refine List.pairwise_append.2 ⟨h.sorted, List.pairwise_singleton _ _, fun a ha b hb => ?_⟩
    obtain rfl := List.mem_singleton.1 hb
    exact h.lt_next a ha
  · intro a ha
    rcases List.mem_append.1 ha with ha | ha
    · exact Nat.lt_succ_of_lt (h.lt_next a ha)
    · obtain rfl := List.mem_singleton.1 ha
      exact Nat.lt_succ_self _
  · intro a ha
    rcases List.mem_append.1 ha with ha | ha
    · exact h.keys a ha
    · obtain rfl := List.mem_singleton.1 ha
      exact (normalizeKeySets_spec hnorm).2.1
  · intro a ha
    rcases List.mem_append.1 ha with ha | ha
    · exact h.nonempty a ha
    · obtain rfl := List.mem_singleton.1 ha
      exact (normalizeKeySets_spec hnorm).2.2
  · intro p hp
    rcases List.mem_append.1 hp with hp | hp
    · obtain ⟨a, ha, heq⟩ := h.pending_mem p hp
      exact ⟨a, List.mem_append_left _ ha, heq⟩
    · obtain rfl := List.mem_singleton.1 hp
      exact ⟨_, List.mem_append_right _ (List.mem_singleton_self _), rfl⟩
  · intro w hw
    obtain ⟨a, ha, heq⟩ := h.worker_mem w hw
    exact ⟨a, List.mem_append_left _ ha, heq⟩

/-- A worker replaced by one with the same transaction. -/
theorem AcceptedInv.setWorker {s : Sender} (h : s.AcceptedInv) {index : ℕ} {w w' : Worker}
    (hw : s.workers[index]? = some w) (htx : w'.tx = w.tx) :
    ∀ v ∈ s.workers.set index w', ∃ a ∈ s.log.accepted, a.entry = v.tx := by
  intro v hv
  rcases List.mem_or_eq_of_mem_set hv with hv | rfl
  · exact h.worker_mem v hv
  · exact htx ▸ h.worker_mem w (List.mem_of_getElem? hw)

theorem acceptedInv_init : AcceptedInv {} :=
  ⟨by simp, by simp, by simp, by simp, by simp, by simp⟩

theorem AcceptedInv.step {cfg : Config} {s s' : Sender} (h : s.AcceptedInv) (hs : Step cfg s s') :
    s'.AcceptedInv := by
  have hsame := Nat.le_refl s.nextQueueId
  cases hs with
  | @handle q m rest hc =>
      cases m with
      | release keys => exact h.frame (fun _ hp => hp) h.worker_mem rfl hsame
      | setupFinished id success =>
          cases success <;> exact h.frame (fun _ hp => hp) h.worker_mem rfl hsame
      | pendingFinished r => exact h.frame (fun _ hp => hp) h.worker_mem rfl hsame
  | skipId => exact h.frame (fun _ hp => hp) h.worker_mem rfl (Nat.le_succ _)
  | enqueue he => exact h.enqueue he
  | clear => exact h.frame (fun _ hp => absurd hp List.not_mem_nil) h.worker_mem rfl hsame
  | defer e => exact h.frame (fun _ hp => hp) h.worker_mem rfl hsame
  | dispatch _ _ _ hp =>
      refine h.frame (fun _ hp => (List.eraseIdx_sublist _ _).subset hp) (fun w hw => ?_) rfl hsame
      rcases List.mem_append.1 hw with hw | hw
      · exact h.worker_mem w hw
      · obtain rfl := List.mem_singleton.1 hw
        rw [Worker.spawn_tx]
        exact h.pending_mem _ (List.mem_of_getElem? hp)
  | failAuthentication _ _ _ hp =>
      unfold failAuthentication
      split <;>
        exact h.frame (fun _ hp => (List.eraseIdx_sublist _ _).subset hp) h.worker_mem rfl hsame
  | advance hw hadv =>
      exact h.frame (fun _ hp => hp) (h.setWorker hw (Worker.advance_cases hadv).tx) rfl hsame
  | emit hw hout => exact h.frame (fun _ hp => hp) (h.setWorker hw rfl) rfl hsame

/-! ## The guarantee -/

/-- The transaction was handed to a worker. -/
def Dispatched (s : Sender) (a : Accepted) : Prop :=
  ∃ w ∈ s.workers, w.tx.queueId = a.entry.queueId

/-- What the sender guarantees about scheduling keys in a state. -/
structure ExclusiveInOrder (s : Sender) : Prop where
  /-- No two dispatched transactions hold a common key whose release has not been handled. -/
  exclusive : s.workers.Pairwise fun a b =>
    Disjoint (unreleased s.log.released a) (unreleased s.log.released b)
  /-- `active_keys` is the union of what the dispatched transactions hold. -/
  active : ∀ k, k ∈ s.activeKeys ↔ ∃ w ∈ s.workers, k ∈ unreleased s.log.released w
  /-- No transaction is dispatched twice. -/
  once : s.workers.Pairwise fun a b => a.tx.queueId ≠ b.tx.queueId
  /-- Of two transactions passed to `send` that share a key, the later one is dispatched only when
      the earlier one is no longer queued; and if both are, the earlier one was first. -/
  inOrder : ∀ a b, [a, b].Sublist s.log.accepted →
    (∃ k, k ∈ a.source.schedulingKeys ∧ k ∈ b.source.schedulingKeys) → s.Dispatched b →
    a.entry ∉ s.pending ∧ (s.Dispatched a →
      [a.entry.queueId, b.entry.queueId].Sublist (s.workers.map fun w => w.tx.queueId))

theorem locked_iff (s : Sender) (k : SchedulingKey) :
    s.table.Locked k ↔ ∃ w ∈ s.workers, k ∈ unreleased s.log.released w := by
  simp only [KeyedLocks.Table.Locked, Sender.table, List.mem_map, exists_exists_and_eq_and]
  rfl

/-- The keys a log entry and its worker share with another pair are the keys of the requests. -/
theorem not_disjoint_of_shared {s : Sender} (h : s.AcceptedInv) {a b : Accepted}
    (ha : a ∈ s.log.accepted) (hb : b ∈ s.log.accepted)
    (hshare : ∃ k, k ∈ a.source.schedulingKeys ∧ k ∈ b.source.schedulingKeys) :
    ¬ Disjoint (request a.entry).keys (request b.entry).keys := by
  obtain ⟨k, hka, hkb⟩ := hshare
  refine Finset.not_disjoint_iff.2 ⟨k, ?_, ?_⟩
  · exact List.mem_toFinset.2 ((h.keys a ha k).2 hka)
  · exact List.mem_toFinset.2 ((h.keys b hb k).2 hkb)

/-- Log entries are determined by their queue ids. -/
theorem AcceptedInv.entry_injective {s : Sender} (h : s.AcceptedInv) {a b : Accepted}
    (ha : a ∈ s.log.accepted) (hb : b ∈ s.log.accepted)
    (hid : a.entry.queueId = b.entry.queueId) : a = b := by
  by_contra hne
  have : Std.Symm fun a b : Accepted => a.entry.queueId ≠ b.entry.queueId :=
    ⟨fun _ _ hab => hab.symm⟩
  exact (h.sorted.imp fun hab => ne_of_lt hab).forall ha hb hne hid

/-- The worker of a dispatched log entry carries that entry. -/
theorem AcceptedInv.worker_entry {s : Sender} (h : s.AcceptedInv) {a : Accepted} {w : Worker}
    (ha : a ∈ s.log.accepted) (hw : w ∈ s.workers) (hid : w.tx.queueId = a.entry.queueId) :
    w.tx = a.entry := by
  obtain ⟨a', ha', heq⟩ := h.worker_mem w hw
  rw [← heq, h.entry_injective ha' ha (heq ▸ hid)]

theorem ExclusiveInOrder.of_inv {s : Sender} (hk : s.KeyInv) (ha : s.AcceptedInv) :
    s.ExclusiveInOrder := by
  have hexcl := hk.table.exclusive
  have hfifo := hk.table.fifo
  simp only [Sender.table, List.pairwise_map] at hexcl hfifo
  refine ⟨hexcl, fun k => (hk.active k).trans (s.locked_iff k), hk.workers_ids, ?_⟩
  rintro a b hsub hshare ⟨w, hw, hwb⟩
  have hmem : a ∈ s.log.accepted ∧ b ∈ s.log.accepted :=
    ⟨hsub.subset (by simp), hsub.subset (by simp)⟩
  have hlt : a.entry.queueId < b.entry.queueId := by
    have := ha.sorted.sublist hsub
    simpa using this
  have hwtx := ha.worker_entry hmem.2 hw hwb
  have hoverlap := not_disjoint_of_shared ha hmem.1 hmem.2 hshare
  constructor
  · intro hpend
    -- a queued request arrived after every grant it shares a key with
    have := hk.table.not_overtaken (grantOf s.log.released w) (List.mem_map_of_mem hw)
      (request a.entry) (List.mem_map_of_mem hpend)
      (by rw [grantOf, hwtx]; exact fun hd => hoverlap hd.symm)
    exact absurd (hwb ▸ this : b.entry.queueId < a.entry.queueId) (Nat.lt_asymm hlt)
  · rintro ⟨v, hv, hva⟩
    have hvtx := ha.worker_entry hmem.1 hv hva
    obtain ⟨i, hi⟩ := List.mem_iff_getElem?.1 hv
    obtain ⟨j, hj⟩ := List.mem_iff_getElem?.1 hw
    obtain ⟨hi', rfl⟩ := List.getElem?_eq_some_iff.1 hi
    obtain ⟨hj', rfl⟩ := List.getElem?_eq_some_iff.1 hj
    have hij : i < j := by
      rcases Nat.lt_trichotomy i j with hij | rfl | hji
      · exact hij
      · exact absurd (hva.symm.trans hwb) hlt.ne
      · -- granted the other way round, the later one would have the smaller number
        have := List.pairwise_iff_getElem.1 hfifo j i hj' hi' hji
          (by rw [grantOf, grantOf, hwtx, hvtx]; exact fun hd => hoverlap hd.symm)
        exact absurd (hwb ▸ hva ▸ this : b.entry.queueId < a.entry.queueId) (Nat.lt_asymm hlt)
    rw [← hva, ← hwb]
    have hpair : [s.workers[i], s.workers[j]].Sublist s.workers :=
      List.pair_sublist_iff.2 ⟨i, j, hij, hi, hj⟩
    exact hpair.map fun w : Worker => w.tx.queueId

end Sender

/-- Every log entry and its order are kept in every reachable state. -/
theorem acceptedInv_reachable {cfg : Config} {st : State} (h : (senderSystem cfg).Reachable st) :
    st.sender.AcceptedInv :=
  sender_invariant Sender.acceptedInv_init (fun _ _ hI hs => hI.step hs) h

/-- **Mutual exclusion and per-key order.** For every sequence of calls and every order of worker
    messages, in every state reached: dispatched transactions hold disjoint keys, `active_keys` is
    their union, and transactions that share a key are dispatched in the order of `send`. -/
theorem exclusive_in_order {cfg : Config} {st : State} (h : (senderSystem cfg).Reachable st) :
    st.sender.ExclusiveInOrder :=
  Sender.ExclusiveInOrder.of_inv (keyInv_reachable h) (acceptedInv_reachable h)

/-! ### A small instance -/

namespace Sample

def key (n : ℕ) : SchedulingKey := ⟨BitVec.ofNat 160 n⟩

/-- Two permits, no caps. -/
def config : Config where
  maxConcurrent := 2
  maxConcurrent_pos := by decide

def authenticated : Config := { config with requestAuth := true }

def workload (keys : List SchedulingKey) : GeneratedTx := { submissionKeys := keys }

def setup (id : String) (dependsOn : List String) (keys : List SchedulingKey) : GeneratedTx :=
  { phase := .setup, id := some id, dependsOn, submissionKeys := keys }

/-- The main task runs alone for `n` steps. -/
def turns (n : ℕ) : List Label := List.replicate n .main

end Sample

open Sample in
/-- Three transactions, of which the second shares a key with the first. -/
theorem exclusive_in_order_overlapping :
    ∃ st, (senderSystem config).Reachable st ∧ st.sender.pending.length = 1 ∧
      st.sender.workers.length = 2 ∧ st.sender.ExclusiveInOrder := by
  have hcheck : ((senderSystem config).exec {}
      ([.send (workload [key 1])] ++ turns 4 ++ [.send (workload [key 1, key 2])] ++ turns 2 ++
        [.send (workload [key 3])] ++ turns 4)).any
      (fun st => st.sender.pending.length = 1 ∧ st.sender.workers.length = 2) = true := by
    decide
  obtain ⟨st, hrun, hpending, hworkers⟩ := System.run_of_check hcheck
  exact ⟨st, ⟨_, hrun⟩, hpending, hworkers, exclusive_in_order ⟨_, hrun⟩⟩

end TxGen
