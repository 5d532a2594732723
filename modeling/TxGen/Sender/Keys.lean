import TxGen.Lib.Lists
import TxGen.Sender.Steps
import TxGen.Sender.Workers

set_option autoImplicit false

/-! # The scheduling keys of the sender

The sender refines the abstract lock table: queued transactions are waiting requests, dispatched ones
are grants, and a grant holds the keys whose release the main task has not handled. `KeyInv` ties the
table to the concrete state: `active_keys` is the set of locked keys, and what a dispatched
transaction still holds is exactly what its worker has left to send plus what is on its way in the
channel. -/

namespace TxGen

open KeyedLocks

namespace Sender

/-- Keys of the releases of worker `q` that are in the channel. -/
def channelKeys (q : ℕ) (completions : List (ℕ × Completion)) : List SchedulingKey :=
  Worker.messageKeys ((completions.filter fun c => c.1 == q).map Prod.snd)

/-- Keys of `w` whose release is not among the handled ones. -/
def unreleased (released : List (ℕ × SchedulingKey)) (w : Worker) : Finset SchedulingKey :=
  w.tx.schedulingKeys.toFinset.filter fun k => (w.tx.queueId, k) ∉ released

def request (p : PendingTx) : Request ℕ SchedulingKey := ⟨p.queueId, p.schedulingKeys.toFinset⟩

def grantOf (released : List (ℕ × SchedulingKey)) (w : Worker) : Grant ℕ SchedulingKey :=
  { request w.tx with held := unreleased released w }

/-- The lock table the sender implements. -/
def table (s : Sender) : Table ℕ SchedulingKey :=
  ⟨s.pending.map request, s.workers.map (grantOf s.log.released)⟩

/-- Everything worker `w` has not had released yet, wherever it is. -/
def outstanding (s : Sender) (w : Worker) : List SchedulingKey :=
  w.keysLeft ++ channelKeys w.tx.queueId s.completions

structure KeyInv (s : Sender) : Prop where
  table : s.table.Inv
  active : ∀ k, k ∈ s.activeKeys ↔ s.table.Locked k
  pending_lt : ∀ p ∈ s.pending, p.queueId < s.nextQueueId
  workers_lt : ∀ w ∈ s.workers, w.tx.queueId < s.nextQueueId
  released_tagged : ∀ r ∈ s.log.released, ∃ w ∈ s.workers, w.tx.queueId = r.1
  completions_tagged : ∀ c ∈ s.completions, ∃ w ∈ s.workers, w.tx.queueId = c.1
  keys_nodup : ∀ p ∈ s.pending, p.schedulingKeys.Nodup
  outstanding_nodup : ∀ w ∈ s.workers, (s.outstanding w).Nodup
  mem_outstanding : ∀ w ∈ s.workers, ∀ k, k ∈ s.outstanding w ↔ k ∈ unreleased s.log.released w

/-! ## Channel and log -/

@[simp] theorem mem_unreleased {released : List (ℕ × SchedulingKey)} {w : Worker}
    {k : SchedulingKey} :
    k ∈ unreleased released w ↔ k ∈ w.tx.schedulingKeys ∧ (w.tx.queueId, k) ∉ released := by
  simp [unreleased]

@[simp] theorem channelKeys_nil (q : ℕ) : channelKeys q [] = [] := rfl

@[simp] theorem channelKeys_append (q : ℕ) (cs cs' : List (ℕ × Completion)) :
    channelKeys q (cs ++ cs') = channelKeys q cs ++ channelKeys q cs' := by
  simp [channelKeys]

theorem channelKeys_cons_self (q : ℕ) (m : Completion) (rest : List (ℕ × Completion)) :
    channelKeys q ((q, m) :: rest) = Worker.messageKeys [m] ++ channelKeys q rest := by
  rw [← List.singleton_append, channelKeys_append]
  simp [channelKeys]

theorem channelKeys_cons_ne {q q' : ℕ} (h : q' ≠ q) (m : Completion)
    (rest : List (ℕ × Completion)) : channelKeys q ((q', m) :: rest) = channelKeys q rest := by
  simp [channelKeys, h]

theorem channelKeys_of_untagged {q : ℕ} {cs : List (ℕ × Completion)} (h : ∀ c ∈ cs, c.1 ≠ q) :
    channelKeys q cs = [] := by
  have hnil : cs.filter (fun c => c.1 == q) = [] :=
    List.filter_eq_nil_iff.2 fun c hc => by simpa using h c hc
  rw [channelKeys, hnil]
  rfl

/-! ## Frame facts of the primitive changes -/

theorem KeyInv.workers_ids {s : Sender} (h : s.KeyInv) :
    s.workers.Pairwise fun a b => a.tx.queueId ≠ b.tx.queueId := by
  have hids := h.table.granted_ids
  simp only [Sender.table, List.pairwise_map] at hids
  exact hids

/-- Workers are determined by the queue ids of their transactions. -/
theorem KeyInv.worker_injective {s : Sender} (h : s.KeyInv) {v w : Worker} (hv : v ∈ s.workers)
    (hw : w ∈ s.workers) (hid : v.tx.queueId = w.tx.queueId) : v = w := by
  by_contra hne
  have : Std.Symm fun a b : Worker => a.tx.queueId ≠ b.tx.queueId :=
    ⟨fun _ _ hab => hab.symm⟩
  exact h.workers_ids.forall hv hw hne hid

theorem KeyInv.apart {s : Sender} (h : s.KeyInv) {w : Worker} {p : PendingTx} (hw : w ∈ s.workers)
    (hp : p ∈ s.pending) : w.tx.queueId ≠ p.queueId :=
  h.table.apart _ (List.mem_map_of_mem hw) _ (List.mem_map_of_mem hp)

/-- A key is active as long as some worker has its release outstanding. -/
theorem KeyInv.mem_activeKeys {s : Sender} (h : s.KeyInv) (k : SchedulingKey) :
    k ∈ s.activeKeys ↔ ∃ w ∈ s.workers, k ∈ s.outstanding w := by
  rw [h.active]
  simp only [Table.Locked, Sender.table, List.mem_map, exists_exists_and_eq_and]
  exact exists_congr fun w => and_congr_right fun hw => (h.mem_outstanding w hw k).symm

/-- `KeyInv` looks at the queue, the keys, the channel, the workers and the releases only. -/
theorem KeyInv.frame {s s' : Sender} (h : s.KeyInv) (pending : s'.pending = s.pending)
    (activeKeys : s'.activeKeys = s.activeKeys) (completions : s'.completions = s.completions)
    (workers : s'.workers = s.workers) (released : s'.log.released = s.log.released)
    (next : s.nextQueueId ≤ s'.nextQueueId) : s'.KeyInv := by
  have htable : s'.table = s.table := by simp only [Sender.table, pending, workers, released]
  have hout : ∀ w, s'.outstanding w = s.outstanding w := fun w => by
    simp only [outstanding, completions]
  refine ⟨htable ▸ h.table, ?_, ?_, ?_, ?_, ?_, ?_, ?_, ?_⟩
  · rw [htable, activeKeys]; exact h.active
  · rw [pending]; exact fun p hp => (h.pending_lt p hp).trans_le next
  · rw [workers]; exact fun w hw => (h.workers_lt w hw).trans_le next
  · rw [released, workers]; exact h.released_tagged
  · rw [completions, workers]; exact h.completions_tagged
  · rw [pending]; exact h.keys_nodup
  · rw [workers]; exact fun w hw => hout w ▸ h.outstanding_nodup w hw
  · rw [workers, released]; exact fun w hw => hout w ▸ h.mem_outstanding w hw

/-- Taking a message without keys off the channel. -/
theorem KeyInv.skipMessage {s : Sender} (h : s.KeyInv) {q : ℕ} {m : Completion}
    {rest : List (ℕ × Completion)} (hc : s.completions = (q, m) :: rest)
    (hm : Worker.messageKeys [m] = []) : KeyInv { s with completions := rest } := by
  have hout : ∀ w : Worker, w.keysLeft ++ channelKeys w.tx.queueId rest = s.outstanding w := by
    intro w
    rw [outstanding, hc]
    by_cases hq : q = w.tx.queueId
    · rw [hq, channelKeys_cons_self, hm, List.nil_append]
    · rw [channelKeys_cons_ne hq]
  exact ⟨h.table, h.active, h.pending_lt, h.workers_lt, h.released_tagged,
    fun c hin => h.completions_tagged c (hc ▸ List.mem_cons_of_mem _ hin), h.keys_nodup,
    fun w hw => (congrArg List.Nodup (hout w)).mpr (h.outstanding_nodup w hw),
    fun w hw k => (congrArg (k ∈ ·) (hout w)).to_iff.trans (h.mem_outstanding w hw k)⟩

/-- Replacing worker `q` by one with the same transaction leaves the table as it is. -/
theorem table_set (s : Sender) {index : ℕ} {w w' : Worker} (hw : s.workers[index]? = some w)
    (htx : w'.tx = w.tx) :
    Sender.table { s with workers := s.workers.set index w' } = s.table := by
  have hgrant : grantOf s.log.released w' = grantOf s.log.released w := by
    simp only [grantOf, unreleased, htx]
  simp only [Sender.table, List.map_set_of_eq (grantOf s.log.released) hw hgrant]

/-- Handling a release takes its keys from the grant of its worker. -/
theorem table_release (s : Sender) (q : ℕ) (keys : List SchedulingKey) :
    (s.handleCompletion q (.release keys)).table = s.table.release q keys.toFinset := by
  simp only [Sender.table, handleCompletion, releaseKeys, Table.release, List.map_map]
  congr 1
  refine List.map_congr_left fun w _ => ?_
  simp only [Function.comp_apply]
  by_cases hq : w.tx.queueId = q
  · rw [if_pos (show (grantOf s.log.released w).id = q from hq)]
    refine congrArg (fun held => ({ request w.tx with held } : Grant ℕ SchedulingKey)) ?_
    ext k
    simp only [grantOf, mem_unreleased, Finset.mem_sdiff, List.mem_append, List.mem_map,
      Prod.mk.injEq, List.mem_toFinset, hq]
    constructor
    · rintro ⟨hk, hnot⟩
      exact ⟨⟨hk, fun hin => hnot (Or.inl hin)⟩, fun hin => hnot (Or.inr ⟨k, hin, trivial, rfl⟩)⟩
    · rintro ⟨⟨hk, hnot⟩, hout⟩
      refine ⟨hk, ?_⟩
      rintro (hin | ⟨k', hk', _, rfl⟩)
      · exact hnot hin
      · exact hout hk'
  · rw [if_neg (show (grantOf s.log.released w).id ≠ q from hq)]
    refine congrArg (fun held => ({ request w.tx with held } : Grant ℕ SchedulingKey)) ?_
    ext k
    simp only [mem_unreleased, List.mem_append, List.mem_map, Prod.mk.injEq]
    constructor
    · rintro ⟨hk, hnot⟩
      exact ⟨hk, fun hin => hnot (Or.inl hin)⟩
    · rintro ⟨hk, hnot⟩
      refine ⟨hk, ?_⟩
      rintro (hin | ⟨k', _, hq', _⟩)
      · exact hnot hin
      · exact hq hq'.symm

/-! ## Preservation -/

theorem KeyInv.handle {s : Sender} (h : s.KeyInv) {q : ℕ} {m : Completion}
    {rest : List (ℕ × Completion)} (hc : s.completions = (q, m) :: rest) :
    ({ s with completions := rest }.handleCompletion q m).KeyInv := by
  have htagged : ∀ c ∈ rest, ∃ w ∈ s.workers, w.tx.queueId = c.1 := fun c hin =>
    h.completions_tagged c (hc ▸ List.mem_cons_of_mem _ hin)
  cases m with
  | release keys =>
      obtain ⟨w, hw, rfl⟩ := h.completions_tagged (q, _) (hc ▸ List.mem_cons_self)
      have hout : s.outstanding w = w.keysLeft ++ (keys ++ channelKeys w.tx.queueId rest) := by
        rw [outstanding, hc, channelKeys_cons_self]
        simp [Worker.messageKeys]
      have hheld : keys.toFinset ⊆ (grantOf s.log.released w).held := by
        intro k hk
        refine (h.mem_outstanding w hw k).1 ?_
        rw [hout]
        simp [List.mem_toFinset.1 hk]
      refine ⟨?_, fun k => ?_, h.pending_lt, h.workers_lt, ?_, htagged, h.keys_nodup, ?_, ?_⟩
      · rw [table_release]
        exact h.table.release _ _
      · rw [table_release]
        refine Iff.trans ?_
          (Table.locked_release h.table (List.mem_map_of_mem hw) hheld k).symm
        simp only [handleCompletion, releaseKeys, Finset.mem_sdiff, List.mem_toFinset]
        exact and_congr_left fun _ => h.active k
      · intro r hr
        simp only [handleCompletion, List.mem_append, List.mem_map] at hr
        rcases hr with hr | ⟨k, _, rfl⟩
        · exact h.released_tagged r hr
        · exact ⟨w, hw, rfl⟩
      · intro w' hw'
        refine (h.outstanding_nodup w' hw').sublist ?_
        refine List.Sublist.append_left ?_ _
        rw [hc]
        by_cases hq : w.tx.queueId = w'.tx.queueId
        · rw [hq, channelKeys_cons_self]
          exact List.sublist_append_right _ _
        · rw [channelKeys_cons_ne hq]
          exact List.Sublist.refl _
      · intro w' hw' k
        have hold := h.mem_outstanding w' hw' k
        have hnodup := h.outstanding_nodup w' hw'
        simp only [outstanding, hc] at hold hnodup
        simp only [outstanding, handleCompletion, releaseKeys, mem_unreleased, List.mem_append,
          List.mem_map, Prod.mk.injEq] at hold ⊢
        by_cases hq : w.tx.queueId = w'.tx.queueId
        · -- the keys just handled are no longer outstanding, since none was so twice
          rw [hq, channelKeys_cons_self] at hold hnodup
          simp only [Worker.messageKeys, List.append_nil, List.mem_append] at hold
          simp only [Worker.messageKeys, List.append_nil] at hnodup
          have hdisj : k ∈ keys → k ∉ w'.keysLeft ∧ k ∉ channelKeys w'.tx.queueId rest := by
            intro hk
            have h₁ := List.disjoint_of_nodup_append hnodup
            have h₂ := List.disjoint_of_nodup_append (List.Nodup.of_append_right hnodup)
            exact ⟨fun hin => h₁ hin (List.mem_append_left _ hk), fun hin => h₂ hk hin⟩
          constructor
          · intro hin
            have hnk : k ∉ keys := fun hk => hin.elim (hdisj hk).1 (hdisj hk).2
            have := hold.1 (hin.imp_right Or.inr)
            refine ⟨this.1, ?_⟩
            rintro (hrel | ⟨k', hk', _, rfl⟩)
            · exact this.2 hrel
            · exact hnk hk'
          · rintro ⟨hk, hnot⟩
            rcases hold.2 ⟨hk, fun hin => hnot (Or.inl hin)⟩ with hl | hkeys | hr
            · exact Or.inl hl
            · exact absurd (Or.inr ⟨k, hkeys, hq, rfl⟩) hnot
            · exact Or.inr hr
        · rw [channelKeys_cons_ne hq] at hold
          rw [hold]
          refine and_congr_right fun _ => ?_
          constructor
          · rintro hnot (hin | ⟨k', _, hq', _⟩)
            · exact hnot hin
            · exact hq hq'
          · exact fun hnot hin => hnot (Or.inl hin)
  | setupFinished id success =>
      cases success <;> exact (h.skipMessage hc rfl).frame rfl rfl rfl rfl rfl (Nat.le_refl _)
  | pendingFinished result =>
      exact (h.skipMessage hc rfl).frame rfl rfl rfl rfl rfl (Nat.le_refl _)

theorem KeyInv.enqueue {s s' : Sender} (h : s.KeyInv) {call : ℕ} {tx : GeneratedTx}
    (he : s.Enqueued call tx s') : s'.KeyInv := by
  obtain ⟨sub, inc, known, hnorm, rfl, -⟩ := he
  have hnodup := (normalizeKeySets_spec hnorm).1
  refine ⟨?_, h.active, ?_, fun w hw => Nat.lt_succ_of_lt (h.workers_lt w hw), h.released_tagged,
    h.completions_tagged, ?_, h.outstanding_nodup, h.mem_outstanding⟩
  · have harrive := h.table.arrive (request (entryOf s.nextQueueId tx sub inc))
      (fun r hr => by obtain ⟨p, hp, rfl⟩ := List.mem_map.1 hr; exact h.pending_lt p hp)
      (fun g hg => by obtain ⟨w, hw, rfl⟩ := List.mem_map.1 hg; exact h.workers_lt w hw)
    have htable : s.table.arrive (request (entryOf s.nextQueueId tx sub inc)) =
        ⟨(s.pending ++ [entryOf s.nextQueueId tx sub inc]).map request,
          s.workers.map (grantOf s.log.released)⟩ := by
      rw [List.map_append]; rfl
    rw [htable] at harrive
    exact harrive
  · intro p hp
    rcases List.mem_append.1 hp with hp | hp
    · exact Nat.lt_succ_of_lt (h.pending_lt p hp)
    · obtain rfl := List.mem_singleton.1 hp
      exact Nat.lt_succ_self _
  · intro p hp
    rcases List.mem_append.1 hp with hp | hp
    · exact h.keys_nodup p hp
    · obtain rfl := List.mem_singleton.1 hp
      exact hnodup

/-- Dropping queue entries is withdrawing requests. -/
theorem KeyInv.dropPending {s : Sender} (h : s.KeyInv) {stay : List PendingTx}
    (hstay : stay.Sublist s.pending) : KeyInv { s with pending := stay } where
  table := h.table.withdraw (hstay.map request)
  active := h.active
  pending_lt := fun p hp => h.pending_lt p (hstay.subset hp)
  workers_lt := h.workers_lt
  released_tagged := h.released_tagged
  completions_tagged := h.completions_tagged
  keys_nodup := fun p hp => h.keys_nodup p (hstay.subset hp)
  outstanding_nodup := h.outstanding_nodup
  mem_outstanding := h.mem_outstanding

/-- What `next_ready_index` selects may be granted. -/
theorem KeyInv.grantable {s : Sender} (h : s.KeyInv) {index : ℕ} {p : PendingTx}
    (hready : s.nextReadyIndex = some index) (hp : s.pending[index]? = some p) :
    s.table.Grantable index (request p) := by
  obtain ⟨a, ha, _, hfree, hfirst⟩ := firstReady_some _ _ hready
  obtain rfl : a = p := by simpa [ha] using hp
  refine ⟨by simp [Sender.table, hp], fun g hg => ?_, fun r hr => ?_⟩
  · refine Finset.disjoint_left.2 fun k hk hk' => hfree k (List.mem_toFinset.1 hk') ?_
    exact (h.active k).2 ⟨g, hg, hk⟩
  · simp only [Sender.table, ← List.map_take, List.mem_map] at hr
    obtain ⟨b, hb, rfl⟩ := hr
    refine Finset.disjoint_left.2 fun k hk hk' => ?_
    exact hfirst b hb k (List.mem_toFinset.1 hk') (List.mem_toFinset.1 hk)

theorem KeyInv.dispatch {cfg : Config} {s : Sender} (h : s.KeyInv) {index : ℕ} {p : PendingTx}
    (hready : s.nextReadyIndex = some index) (hp : s.pending[index]? = some p) :
    (((s.removePending index).activateKeys p).dispatch cfg p).KeyInv := by
  have hmem : p ∈ s.pending := List.mem_of_getElem? hp
  have hgrant := h.grantable hready hp
  -- nothing of a transaction that was still queued has been released or is on its way
  have hnorel : ∀ r ∈ s.log.released, r.1 ≠ p.queueId := by
    intro r hr heq
    obtain ⟨w, hw, hwr⟩ := h.released_tagged r hr
    exact h.apart hw hmem (hwr.trans heq)
  have hnochan : ∀ c ∈ s.completions, c.1 ≠ p.queueId := by
    intro c hc heq
    obtain ⟨w, hw, hwc⟩ := h.completions_tagged c hc
    exact h.apart hw hmem (hwc.trans heq)
  have hfull : grantOf s.log.released (Worker.spawn p cfg.maxPending.isSome) =
      { request p with held := (request p).keys } := by
    simp only [grantOf, unreleased, Worker.spawn_tx, request, Grant.mk.injEq, true_and]
    exact Finset.filter_true_of_mem fun k _ hin => hnorel _ hin rfl
  have htable : (((s.removePending index).activateKeys p).dispatch cfg p).table =
      s.table.grant index (request p) := by
    simp only [Sender.table, Sender.dispatch, activateKeys, removePending, Table.grant,
      List.map_append, List.map_cons, List.map_nil, hfull]
    rw [List.eraseIdx_map]
  have hworkers : ∀ w ∈ s.workers ++ [Worker.spawn p cfg.maxPending.isSome],
      w ∈ s.workers ∨ w = Worker.spawn p cfg.maxPending.isSome := by
    intro w hw
    simpa using hw
  have hspawn : s.outstanding (Worker.spawn p cfg.maxPending.isSome) = p.schedulingKeys := by
    rw [outstanding, Worker.spawn_keysLeft, Worker.spawn_tx, channelKeys_of_untagged hnochan,
      List.append_nil]
  refine ⟨?_, fun k => ?_, fun q hq => ?_, fun w hw => ?_, fun r hr => ?_, fun c hc => ?_,
    fun q hq => ?_, fun w hw => ?_, fun w hw k => ?_⟩
  · rw [htable]
    exact h.table.grant hgrant
  · rw [htable, Table.locked_grant, ← h.active k]
    simp [Sender.dispatch, activateKeys, removePending, request]
  · exact h.pending_lt q ((List.eraseIdx_sublist _ _).subset hq)
  · rcases hworkers w hw with hw | rfl
    · exact h.workers_lt w hw
    · rw [Worker.spawn_tx]
      exact h.pending_lt p hmem
  · obtain ⟨w, hw, hwr⟩ := h.released_tagged r hr
    exact ⟨w, List.mem_append_left _ hw, hwr⟩
  · obtain ⟨w, hw, hwc⟩ := h.completions_tagged c hc
    exact ⟨w, List.mem_append_left _ hw, hwc⟩
  · exact h.keys_nodup q ((List.eraseIdx_sublist _ _).subset hq)
  · rcases hworkers w hw with hw | rfl
    · exact h.outstanding_nodup w hw
    · exact hspawn ▸ h.keys_nodup p hmem
  · rcases hworkers w hw with hw | rfl
    · exact h.mem_outstanding w hw k
    · have hin : k ∈ s.outstanding (Worker.spawn p cfg.maxPending.isSome) ↔
          k ∈ p.schedulingKeys := by rw [hspawn]
      refine hin.trans ?_
      rw [mem_unreleased, Worker.spawn_tx]
      exact (and_iff_left fun hr => hnorel _ hr rfl).symm

/-- A worker is replaced by one with the same transaction, and what is outstanding is permuted. -/
theorem KeyInv.replaceWorker {s : Sender} (h : s.KeyInv) {index : ℕ} {w w' : Worker}
    (hw : s.workers[index]? = some w) (htx : w'.tx = w.tx) {cs : List (ℕ × Completion)}
    (htagged : ∀ c ∈ cs, ∃ v ∈ s.workers, v.tx.queueId = c.1)
    (hself : (w'.keysLeft ++ channelKeys w.tx.queueId cs).Perm (s.outstanding w))
    (hother : ∀ q, q ≠ w.tx.queueId → channelKeys q cs = channelKeys q s.completions) :
    KeyInv { s with workers := s.workers.set index w', completions := cs } := by
  have hmem : w ∈ s.workers := List.mem_of_getElem? hw
  have hlt : index < s.workers.length := (List.getElem?_eq_some_iff.1 hw).1
  have hnames : ∀ v ∈ s.workers, ∃ v' ∈ s.workers.set index w', v'.tx.queueId = v.tx.queueId := by
    intro v hv
    have hin : v.tx.queueId ∈ (s.workers.set index w').map fun v => v.tx.queueId := by
      rw [List.map_set_of_eq (fun v : Worker => v.tx.queueId) hw (by rw [htx])]
      exact List.mem_map_of_mem hv
    obtain ⟨v', hv', heq⟩ := List.mem_map.1 hin
    exact ⟨v', hv', heq⟩
  have hcases : ∀ v ∈ s.workers.set index w',
      v = w' ∨ (v ∈ s.workers ∧ v.tx.queueId ≠ w.tx.queueId) := fun v hv =>
    List.mem_set_cases (fun v : Worker => v.tx.queueId) h.workers_ids hw hv
  refine ⟨?_, fun k => ?_, h.pending_lt, fun v hv => ?_, fun r hr => ?_, fun c hc => ?_,
    h.keys_nodup, fun v hv => ?_, fun v hv k => ?_⟩
  · have := table_set s hw htx
    exact this ▸ h.table
  · have := table_set s hw htx
    exact (h.active k).trans (by rw [← this]; rfl)
  · rcases hcases v hv with rfl | ⟨hv, _⟩
    · rw [htx]; exact h.workers_lt w hmem
    · exact h.workers_lt v hv
  · obtain ⟨v, hv, hvr⟩ := h.released_tagged r hr
    obtain ⟨v', hv', heq⟩ := hnames v hv
    exact ⟨v', hv', heq.trans hvr⟩
  · obtain ⟨v, hv, hvc⟩ := htagged c hc
    obtain ⟨v', hv', heq⟩ := hnames v hv
    exact ⟨v', hv', heq.trans hvc⟩
  · rcases hcases v hv with rfl | ⟨hv, hne⟩
    · rw [outstanding, htx]
      exact hself.nodup_iff.2 (h.outstanding_nodup w hmem)
    · rw [outstanding, hother _ hne]
      exact h.outstanding_nodup v hv
  · rcases hcases v hv with rfl | ⟨hv, hne⟩
    · rw [outstanding, mem_unreleased, htx, hself.mem_iff, ← mem_unreleased]
      exact h.mem_outstanding w hmem k
    · rw [outstanding, hother _ hne]
      exact h.mem_outstanding v hv k

theorem KeyInv.advance {s : Sender} (h : s.KeyInv) {index : ℕ} {w w' : Worker}
    (hw : s.workers[index]? = some w) (hadv : w.Advance w') :
    KeyInv { s with workers := s.workers.set index w' } :=
  h.replaceWorker hw hadv.tx h.completions_tagged (hadv.keysLeft_perm.append_right _)
    (fun _ _ => rfl)

theorem KeyInv.emit {s : Sender} (h : s.KeyInv) {index : ℕ} {w : Worker} {m : Completion}
    {rest : List Completion} (hw : s.workers[index]? = some w) (hout : w.outbox = m :: rest) :
    KeyInv { s with
      workers := s.workers.set index { w with outbox := rest }
      completions := s.completions ++ [(w.tx.queueId, m)] } := by
  have htx : Worker.tx { w with outbox := rest } = w.tx := rfl
  refine h.replaceWorker hw htx (fun c hc => ?_) ?_ (fun q hq => ?_)
  · rcases List.mem_append.1 hc with hc | hc
    · exact h.completions_tagged c hc
    · obtain rfl := List.mem_singleton.1 hc
      exact ⟨w, List.mem_of_getElem? hw, rfl⟩
  · -- the message leaves the head of the outbox and joins the end of the channel
    have hlast : channelKeys w.tx.queueId [(w.tx.queueId, m)] = Worker.messageKeys [m] := by
      rw [channelKeys_cons_self, channelKeys_nil, List.append_nil]
    have hsplit : Worker.messageKeys w.outbox = Worker.messageKeys [m] ++ Worker.messageKeys rest := by
      rw [hout, ← List.singleton_append, Worker.messageKeys_append]
    rw [outstanding, channelKeys_append, hlast, Worker.keysLeft, Worker.keysLeft, hsplit]
    simp only [Worker.owned, ← List.append_assoc]
    refine List.perm_append_comm.trans ?_
    simp only [← List.append_assoc]
    refine List.Perm.append_right _ (List.Perm.append_right _ (List.Perm.append_right _ ?_))
    exact List.perm_append_comm
  · rw [channelKeys_append, channelKeys_cons_ne (Ne.symm hq), channelKeys_nil, List.append_nil]

theorem keyInv_init : KeyInv {} := by
  refine ⟨Table.inv_empty, ?_, ?_, ?_, ?_, ?_, ?_, ?_, ?_⟩ <;> simp [Table.Locked, Sender.table]

theorem KeyInv.step {cfg : Config} {s s' : Sender} (h : s.KeyInv) (hs : Step cfg s s') :
    s'.KeyInv := by
  cases hs with
  | handle hc => exact h.handle hc
  | skipId => exact h.frame rfl rfl rfl rfl rfl (Nat.le_succ _)
  | enqueue he => exact h.enqueue he
  | clear => exact h.dropPending (List.nil_sublist _)
  | defer e => exact h.frame rfl rfl rfl rfl rfl (Nat.le_refl _)
  | dispatch _ _ hready hp => exact h.dispatch hready hp
  | @failAuthentication index p _ _ hready hp =>
      have hdrop := h.dropPending (List.eraseIdx_sublist s.pending index)
      unfold failAuthentication
      split
      · exact hdrop.frame rfl rfl rfl rfl rfl (Nat.le_refl _)
      · exact hdrop
  | advance hw hadv => exact h.advance hw (Worker.advance_cases hadv)
  | emit hw hout => exact h.emit hw hout

end Sender

/-- The key invariant holds in every reachable state. -/
theorem keyInv_reachable {cfg : Config} {st : State} (h : (senderSystem cfg).Reachable st) :
    st.sender.KeyInv :=
  sender_invariant Sender.keyInv_init (fun _ _ hI hs => hI.step hs) h

end TxGen
