import TxGen.Core.ContextOps

set_option autoImplicit false

/-! # Giving nonces back

What is left of a list of operations when its reservations are rewound, and why a consume-once value is
never handed out a second time. -/

namespace TxGen

/-- How many consume-once values of a key the operations take from the tracker. -/
def uniquesOn (ops : List ContextOp) (key : SchedulingKey) : ℕ :=
  ops.countP fun op => op = .nextUniqueNonce key

@[simp] theorem uniquesOn_append (ops ops' : List ContextOp) (key : SchedulingKey) :
    uniquesOn (ops ++ ops') key = uniquesOn ops key + uniquesOn ops' key := by
  simp [uniquesOn]

open NonceReservation

namespace NonceTracker

theorem rewind_eq_true {t : NonceTracker} {key : SchedulingKey} {nonce : ℕ}
    (h : (t.rewind key nonce).1 = true) :
    t.current key = nonce + 1 ∧ (t.rewind key nonce).2 = t.reset key nonce := by
  by_cases hnext : t.current key = nonce + 1
  · simp [rewind, hnext]
  · simp [rewind, hnext] at h

theorem rewindOrdered_concat_unique (t : NonceTracker) (rs : List NonceReservation)
    (key : SchedulingKey) (nonce : ℕ) :
    t.rewindOrdered (rs ++ [⟨key, nonce, .unique⟩]) = t.rewindOrdered rs := by
  simp [rewindOrdered, rewindEach]

theorem rewindOrdered_concat_ordered (t : NonceTracker) (rs : List NonceReservation)
    (key : SchedulingKey) (nonce : ℕ) :
    t.rewindOrdered (rs ++ [⟨key, nonce, .ordered⟩]) =
      ((t.rewind key nonce).1 && ((t.rewind key nonce).2.rewindOrdered rs).1,
        ((t.rewind key nonce).2.rewindOrdered rs).2) := by
  simp [rewindOrdered, rewindEach]

/-- Only the newest reservations can be rewound. -/
theorem newest_of_rewindOrdered {t : NonceTracker} {rs : List NonceReservation}
    (h : (t.rewindOrdered rs).1 = true) : t.Newest rs := by
  induction rs using List.reverseRecOn generalizing t with
  | nil => exact fun key => ⟨t.current key, by simp⟩
  | append_singleton rs r ih =>
      obtain ⟨key, nonce, kind⟩ := r
      cases kind with
      | unique =>
          rw [rewindOrdered_concat_unique] at h
          intro k
          simpa using ih h k
      | ordered =>
          rw [rewindOrdered_concat_ordered, Bool.and_eq_true] at h
          obtain ⟨hcurrent, hreset⟩ := rewind_eq_true h.1
          have hrs := ih (hreset ▸ h.2)
          intro k
          obtain ⟨first, hrange, hfirst⟩ := hrs k
          rw [current_reset] at hfirst
          by_cases hk : k = key
          · subst hk
            rw [if_pos rfl] at hfirst
            refine ⟨first, ?_, ?_⟩
            · simp only [orderedOn_append, orderedOn_singleton_ordered, if_true, List.length_append,
                List.length_singleton, List.range'_concat, Nat.one_mul]
              rw [← hrange, hfirst]
            · simp only [orderedOn_append, orderedOn_singleton_ordered, if_true, List.length_append,
                List.length_singleton]
              omega
          · rw [if_neg hk] at hfirst
            exact ⟨first, by simpa [hk] using hrange, by simpa [hk] using hfirst⟩

/-- What a rewinding that succeeds gives back: each lane's ordered nonces. -/
theorem current_rewindOrdered {t : NonceTracker} {rs : List NonceReservation}
    (h : (t.rewindOrdered rs).1 = true) (key : SchedulingKey) :
    (t.rewindOrdered rs).2.current key + (orderedOn rs key).length = t.current key :=
  (newest_of_rewindOrdered h).rewindOrdered.2 key

end NonceTracker

/-- What an operation adds to a counter, and to the ordered nonces that can be given back. -/
theorem ContextOp.current_run (ctx : BuildContext) (op : ContextOp) (key : SchedulingKey) :
    (op.run ctx).nonces.current key + (orderedOn ctx.nonceReservations key).length =
      ctx.nonces.current key + op.fetches ctx key + uniquesOn [op] key +
        (orderedOn (op.run ctx).nonceReservations key).length := by
  cases op with
  | nextNonce k =>
      simp only [run, BuildContext.nextNonce, NonceTracker.next, NonceTracker.current_reset,
        orderedOn_append, orderedOn_singleton_ordered, List.length_append, fetches, uniquesOn]
      by_cases hk : key = k
      · simp [hk]
        omega
      · simp [hk]
  | nextUniqueNonce k =>
      simp only [run, BuildContext.nextUniqueNonce, NonceTracker.next, NonceTracker.current_reset,
        orderedOn_append, orderedOn_singleton_unique, List.append_nil, fetches, uniquesOn]
      by_cases hk : key = k
      · simp [hk]
      · simp [hk, Ne.symm hk]
  | reserveUniqueNonce k value =>
      simp [run, BuildContext.reserveUniqueNonce, fetches, uniquesOn]
  | initLane k nonce =>
      by_cases hseen : ctx.nonces.contains k = true
      · simp [run, fetches, uniquesOn, hseen]
      · have hzero := NonceTracker.current_of_not_contains (Bool.not_eq_true _ ▸ hseen)
        simp only [run, if_neg hseen, NonceTracker.current_reset, fetches]
        by_cases hk : key = k
        · simp [hk, hseen, hzero, uniquesOn]
        · simp [hk, Ne.symm hk, uniquesOn]

namespace BuildContext

theorem current_runOps (ctx : BuildContext) (ops : List ContextOp) (key : SchedulingKey) :
    (ctx.runOps ops).nonces.current key + (orderedOn ctx.nonceReservations key).length =
      ctx.nonces.current key + ctx.fetched key ops + uniquesOn ops key +
        (orderedOn (ctx.runOps ops).nonceReservations key).length := by
  induction ops generalizing ctx with
  | nil => simp [runOps, fetched, uniquesOn]
  | cons op ops ih =>
      have hop := ContextOp.current_run ctx op key
      have hops := ih (op.run ctx)
      have huniques : uniquesOn (op :: ops) key = uniquesOn [op] key + uniquesOn ops key :=
        uniquesOn_append [op] ops key
      have hrun : ctx.runOps (op :: ops) = (op.run ctx).runOps ops := rfl
      rw [hrun, huniques, fetched]
      omega

/-- Where the reservations of a context that had none can be given back, every key is where it was,
    but for its consume-once values. -/
theorem rewindOrdered_runOps {ctx : BuildContext} (hnone : ctx.nonceReservations = [])
    (ops : List ContextOp)
    (h : ((ctx.runOps ops).nonces.rewindOrdered (ctx.runOps ops).nonceReservations).1 = true)
    (key : SchedulingKey) :
    ((ctx.runOps ops).nonces.rewindOrdered (ctx.runOps ops).nonceReservations).2.current key =
      ctx.nonces.current key + ctx.fetched key ops + uniquesOn ops key := by
  have hback := NonceTracker.current_rewindOrdered h key
  have htaken := ctx.current_runOps ops key
  rw [hnone, orderedOn_nil, List.length_nil] at htaken
  omega

end BuildContext

/-! ## Consume-once values -/

/-- No consume-once value is handed out a second time. -/
def ConsumedOnce (handed : List NonceReservation) : Prop :=
  handed.Pairwise fun u w => u.kind = .unique → w.key = u.key → w.nonce ≠ u.nonce

/-- Consume-once values lie below their counter, and so do the ordered values that may still be given
    back, none of which is a consume-once value. -/
structure NonceTracker.Guards (t : NonceTracker) (handed reserved : List NonceReservation) :
    Prop where
  once : ConsumedOnce handed
  unique : ∀ u ∈ handed, u.kind = .unique → u.nonce < t.current u.key
  ordered : ∀ r ∈ reserved, r.kind = .ordered → r.nonce < t.current r.key
  apart : ∀ r ∈ reserved, r.kind = .ordered → ∀ u ∈ handed, u.kind = .unique → u.key = r.key →
    u.nonce ≠ r.nonce
  distinct : reserved.Pairwise fun r r' => r.kind = .ordered → r'.kind = .ordered →
    r.key = r'.key → r.nonce ≠ r'.nonce

namespace NonceTracker.Guards

variable {t t' : NonceTracker} {handed reserved reserved' : List NonceReservation}

theorem sublist (h : t.Guards handed reserved) (hsub : reserved'.Sublist reserved) :
    t.Guards handed reserved' :=
  ⟨h.once, h.unique, fun r hr => h.ordered r (hsub.subset hr),
    fun r hr => h.apart r (hsub.subset hr), h.distinct.sublist hsub⟩

theorem perm (h : t.Guards handed reserved) (hperm : reserved.Perm reserved') :
    t.Guards handed reserved' := by
  refine ⟨h.once, h.unique, fun r hr => h.ordered r (hperm.mem_iff.2 hr),
    fun r hr => h.apart r (hperm.mem_iff.2 hr), ?_⟩
  refine (hperm.pairwise_iff ?_).1 h.distinct
  intro r r' hrr hr' hr hkey
  exact (hrr hr hr' hkey.symm).symm

/-- Counters that are not lower guard as well. -/
theorem mono (h : t.Guards handed reserved) (hle : ∀ key, t.current key ≤ t'.current key) :
    t'.Guards handed reserved :=
  ⟨h.once, fun u hu hkind => (h.unique u hu hkind).trans_le (hle _),
    fun r hr hkind => (h.ordered r hr hkind).trans_le (hle _), h.apart, h.distinct⟩

/-- The next value of a key is above all that were handed out or reserved. -/
theorem next (h : t.Guards handed reserved) (key : SchedulingKey) (kind : NonceReservationKind) :
    (t.next key).2.Guards (handed ++ [⟨key, t.current key, kind⟩])
      (reserved ++ [⟨key, t.current key, kind⟩]) := by
  have hle : ∀ k, t.current k ≤ (t.next key).2.current k := by
    intro k
    simp only [NonceTracker.next, current_reset]
    split
    · next hk => rw [hk]; omega
    · exact Nat.le_refl _
  have hnew : t.current key < (t.next key).2.current key := by simp [NonceTracker.next]
  have hmono := h.mono hle
  refine ⟨?_, ?_, ?_, ?_, ?_⟩
  · refine List.pairwise_append.2 ⟨h.once, List.pairwise_singleton _ _, ?_⟩
    intro u hu w hw hkind hkey
    obtain rfl := List.mem_singleton.1 hw
    have := h.unique u hu hkind
    rw [← hkey] at this
    exact Nat.ne_of_gt this
  · exact List.forall_mem_append.2 ⟨hmono.unique, List.forall_mem_singleton.2 fun _ => hnew⟩
  · exact List.forall_mem_append.2 ⟨hmono.ordered, List.forall_mem_singleton.2 fun _ => hnew⟩
  · intro r hr hordered u hu hunique hkey
    rcases List.mem_append.1 hr with hr | hr <;> rcases List.mem_append.1 hu with hu | hu
    · exact h.apart r hr hordered u hu hunique hkey
    · obtain rfl := List.mem_singleton.1 hu
      have := h.ordered r hr hordered
      rw [← hkey] at this
      exact Nat.ne_of_gt this
    · obtain rfl := List.mem_singleton.1 hr
      have := h.unique u hu hunique
      rw [hkey] at this
      exact Nat.ne_of_lt this
    · obtain rfl := List.mem_singleton.1 hr
      obtain rfl := List.mem_singleton.1 hu
      rw [hordered] at hunique
      cases hunique
  · refine List.pairwise_append.2 ⟨h.distinct, List.pairwise_singleton _ _, ?_⟩
    intro r hr r' hr' hordered _ hkey
    obtain rfl := List.mem_singleton.1 hr'
    have := h.ordered r hr hordered
    rw [hkey] at this
    exact Nat.ne_of_lt this

theorem reserve (h : t.Guards handed reserved) (key : SchedulingKey) (value : ℕ) :
    t.Guards handed (reserved ++ [⟨key, value, .unique⟩]) := by
  refine ⟨h.once, h.unique, ?_, ?_, ?_⟩
  · exact List.forall_mem_append.2 ⟨h.ordered, List.forall_mem_singleton.2 nofun⟩
  · exact List.forall_mem_append.2 ⟨h.apart, List.forall_mem_singleton.2 nofun⟩
  · exact List.pairwise_append.2 ⟨h.distinct, List.pairwise_singleton _ _, fun _ _ r' hr' _ hkind =>
      by rw [List.mem_singleton.1 hr'] at hkind; cases hkind⟩

/-- One operation. -/
theorem run {ctx : BuildContext} {others : List NonceReservation}
    (h : ctx.nonces.Guards handed (others ++ ctx.nonceReservations)) (op : ContextOp) :
    (op.run ctx).nonces.Guards (handed ++ op.hands ctx)
      (others ++ (op.run ctx).nonceReservations) := by
  cases op with
  | nextNonce key =>
      show (ctx.nonces.next key).2.Guards _ (others ++ (ctx.nonceReservations ++ _))
      rw [← List.append_assoc]
      exact h.next key .ordered
  | nextUniqueNonce key =>
      show (ctx.nonces.next key).2.Guards _ (others ++ (ctx.nonceReservations ++ _))
      rw [← List.append_assoc]
      exact h.next key .unique
  | reserveUniqueNonce key value =>
      show ctx.nonces.Guards (handed ++ []) (others ++ (ctx.nonceReservations ++ _))
      rw [← List.append_assoc, List.append_nil]
      exact h.reserve key value
  | initLane key nonce =>
      simp only [ContextOp.run, ContextOp.hands, List.append_nil]
      split
      · exact h
      · rename_i hseen
        have hzero := current_of_not_contains (Bool.not_eq_true _ ▸ hseen)
        refine h.mono fun k => ?_
        simp only [current_reset]
        split
        · next hk =>
            rw [hk, hzero]
            exact Nat.zero_le _
        · exact Nat.le_refl _

theorem runOps {ctx : BuildContext} {others : List NonceReservation}
    (h : ctx.nonces.Guards handed (others ++ ctx.nonceReservations)) (ops : List ContextOp) :
    (ctx.runOps ops).nonces.Guards (handed ++ ctx.handed ops)
      (others ++ (ctx.runOps ops).nonceReservations) := by
  induction ops generalizing ctx handed with
  | nil => simpa [BuildContext.handed, BuildContext.runOps] using h
  | cons op ops ih =>
      have := ih (h.run op)
      rwa [List.append_assoc] at this

/-- Reservations that are rewound are no longer kept. -/
theorem rewindOrdered {others rs : List NonceReservation} (h : t.Guards handed (others ++ rs)) :
    (t.rewindOrdered rs).2.Guards handed others := by
  induction rs using List.reverseRecOn generalizing t with
  | nil => simpa [NonceTracker.rewindOrdered, rewindEach] using h
  | append_singleton rs r ih =>
      obtain ⟨key, nonce, kind⟩ := r
      have hrest : t.Guards handed (others ++ rs) :=
        h.sublist (by rw [← List.append_assoc]; exact List.sublist_append_left _ _)
      cases kind with
      | unique =>
          rw [rewindOrdered_concat_unique]
          exact ih hrest
      | ordered =>
          rw [rewindOrdered_concat_ordered]
          refine ih ?_
          by_cases hcurrent : t.current key = nonce + 1
          · have hreset : (t.rewind key nonce).2 = t.reset key nonce := by simp [rewind, hcurrent]
            rw [hreset]
            have hmem : (⟨key, nonce, .ordered⟩ : NonceReservation) ∈
                others ++ (rs ++ [⟨key, nonce, .ordered⟩]) := by simp
            refine ⟨hrest.once, fun u hu hunique => ?_, fun r hr hordered => ?_, hrest.apart,
              hrest.distinct⟩
            · have hlt := hrest.unique u hu hunique
              rw [current_reset]
              split
              · next hk =>
                  have hne := h.apart _ hmem rfl u hu hunique hk
                  rw [hk, hcurrent] at hlt
                  exact Nat.lt_of_le_of_ne (Nat.lt_succ_iff.1 hlt) hne
              · exact hlt
            · have hlt := hrest.ordered r hr hordered
              rw [current_reset]
              split
              · next hk =>
                  have hdistinct := h.distinct
                  rw [← List.append_assoc] at hdistinct
                  have hne := (List.pairwise_append.1 hdistinct).2.2 r hr _
                    (List.mem_singleton_self _) hordered rfl hk
                  rw [hk, hcurrent] at hlt
                  exact Nat.lt_of_le_of_ne (Nat.lt_succ_iff.1 hlt) hne
              · exact hlt
          · have hsame : (t.rewind key nonce).2 = t := by simp [rewind, hcurrent]
            rw [hsame]
            exact hrest

end NonceTracker.Guards

end TxGen
