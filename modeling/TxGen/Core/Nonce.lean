import TxGen.Core.GeneratedTx

set_option autoImplicit false

/-! # Nonce tracking

`NonceTracker` counts nonces per scheduling key, and a `BuildContext` records what one materialization
took from it, so that the caller can give it back. Counters are unbounded here; the code's are `u64`. -/

namespace TxGen

inductive NonceReservationKind
  /-- A chain nonce that orders transactions sharing the same scheduling lane. -/
  | ordered
  /-- A consume-once local counter used to make independently valid payloads unique. -/
  | unique
deriving DecidableEq, Repr

/-- One nonce value consumed from a tracker while materializing a transaction. -/
structure NonceReservation where
  key : SchedulingKey
  nonce : ℕ
  kind : NonceReservationKind
deriving DecidableEq, Repr

structure NonceTracker where
  nonces : SchedulingKey → Option ℕ := fun _ => none

namespace NonceTracker

/-- The current nonce for a key without incrementing. -/
def current (t : NonceTracker) (key : SchedulingKey) : ℕ := (t.nonces key).getD 0

/-- Check if a key has been initialized. -/
def contains (t : NonceTracker) (key : SchedulingKey) : Bool := (t.nonces key).isSome

def reset (t : NonceTracker) (key : SchedulingKey) (nonce : ℕ) : NonceTracker :=
  ⟨Function.update t.nonces key (some nonce)⟩

/-- The next nonce for a scheduling key, incrementing the counter. -/
def next (t : NonceTracker) (key : SchedulingKey) : ℕ × NonceTracker :=
  (t.current key, t.reset key (t.current key + 1))

/-- Rewind a just-reserved nonce when no later reservation used the same key. -/
def rewind (t : NonceTracker) (key : SchedulingKey) (nonce : ℕ) : Bool × NonceTracker :=
  if t.current key ≠ nonce + 1 then (false, t) else (true, t.reset key nonce)

@[simp] theorem current_reset (t : NonceTracker) (key k : SchedulingKey) (nonce : ℕ) :
    (t.reset key nonce).current k = if k = key then nonce else t.current k := by
  simp only [current, reset, Function.update_apply]
  split <;> rfl

@[simp] theorem contains_reset (t : NonceTracker) (key k : SchedulingKey) (nonce : ℕ) :
    (t.reset key nonce).contains k = (k = key || t.contains k) := by
  by_cases hk : k = key
  · simp [contains, reset, hk]
  · simp [contains, reset, hk]

/-- A lane that is not initialized counts from zero. -/
theorem current_of_not_contains {t : NonceTracker} {key : SchedulingKey}
    (h : t.contains key = false) : t.current key = 0 := by
  have hnone : t.nonces key = none := by simpa [contains] using h
  simp [current, hnone]

/-- The reservations in the order in which they are rewound. -/
def rewindEach (t : NonceTracker) : List NonceReservation → Bool × NonceTracker
  | [] => (true, t)
  | r :: rest =>
    match r.kind with
    | .ordered =>
      let (restored, t) := t.rewind r.key r.nonce
      let (restored', t) := t.rewindEach rest
      (restored && restored', t)
    | .unique => t.rewindEach rest

/-- Rewind ordered reservations newest first; returns whether every lane was restored. -/
def rewindOrdered (t : NonceTracker) (reservations : List NonceReservation) : Bool × NonceTracker :=
  t.rewindEach reservations.reverse

end NonceTracker

namespace NonceReservation

/-- The nonces that were reserved on a lane, oldest first. -/
def orderedOn (reservations : List NonceReservation) (key : SchedulingKey) : List ℕ :=
  (reservations.filter fun r => r.kind = .ordered ∧ r.key = key).map NonceReservation.nonce

def hasOrdered (reservations : List NonceReservation) : Bool :=
  reservations.any fun r => r.kind = .ordered

def orderedKeys (reservations : List NonceReservation) : List SchedulingKey :=
  (reservations.filter fun r => r.kind = .ordered).map NonceReservation.key

@[simp] theorem orderedOn_nil (key : SchedulingKey) : orderedOn [] key = [] := rfl

@[simp] theorem orderedOn_append (rs rs' : List NonceReservation) (key : SchedulingKey) :
    orderedOn (rs ++ rs') key = orderedOn rs key ++ orderedOn rs' key := by
  simp [orderedOn]

@[simp] theorem orderedOn_singleton_ordered (key k : SchedulingKey) (nonce : ℕ) :
    orderedOn [⟨key, nonce, .ordered⟩] k = if k = key then [nonce] else [] := by
  by_cases hk : k = key
  · simp [orderedOn, hk]
  · simp [orderedOn, Ne.symm hk, hk]

@[simp] theorem orderedOn_singleton_unique (key k : SchedulingKey) (nonce : ℕ) :
    orderedOn [⟨key, nonce, .unique⟩] k = [] := by
  simp [orderedOn]

theorem mem_orderedKeys {rs : List NonceReservation} {key : SchedulingKey} :
    key ∈ orderedKeys rs ↔ orderedOn rs key ≠ [] := by
  simp [orderedKeys, orderedOn, List.filter_eq_nil_iff, and_assoc]

theorem orderedOn_of_not_hasOrdered {rs : List NonceReservation} (h : hasOrdered rs = false)
    (key : SchedulingKey) : orderedOn rs key = [] := by
  unfold hasOrdered at h
  rw [List.any_eq_false] at h
  rw [orderedOn, List.map_eq_nil_iff, List.filter_eq_nil_iff]
  intro r hr
  have := h r hr
  simp only [decide_eq_true_eq] at this
  simp [this]

end NonceReservation

open NonceReservation

namespace NonceTracker

/-- The reservations are the newest ones of each of their lanes. -/
def Newest (t : NonceTracker) (reservations : List NonceReservation) : Prop :=
  ∀ key, ∃ first, orderedOn reservations key =
      List.range' first (orderedOn reservations key).length ∧
    t.current key = first + (orderedOn reservations key).length

/-- The newest reservations can be rewound, and each lane they used goes on where they began. -/
theorem Newest.rewindOrdered {t : NonceTracker} {reservations : List NonceReservation}
    (h : t.Newest reservations) : (t.rewindOrdered reservations).1 = true ∧
      ∀ key, (t.rewindOrdered reservations).2.current key + (orderedOn reservations key).length =
        t.current key := by
  unfold NonceTracker.rewindOrdered
  induction reservations using List.reverseRecOn generalizing t with
  | nil => simp [rewindEach]
  | append_singleton rs r ih =>
      obtain ⟨key, nonce, kind⟩ := r
      rw [List.reverse_append, List.reverse_singleton, List.singleton_append]
      cases kind with
      | unique =>
          have hrs : t.Newest rs := fun k => by simpa using h k
          simpa [rewindEach] using ih hrs
      | ordered =>
          -- the last reservation of its lane is the one that the counter has just passed
          obtain ⟨first, hrange, hcurrent⟩ := h key
          simp only [orderedOn_append, orderedOn_singleton_ordered, if_true, List.length_append,
            List.length_singleton] at hrange hcurrent
          rw [List.range'_concat, Nat.one_mul] at hrange
          obtain ⟨hinit, hlast⟩ := List.append_inj' hrange rfl
          have hnonce : nonce = first + (orderedOn rs key).length := by simpa using hlast
          have hrewind : t.rewind key nonce = (true, t.reset key nonce) := by
            rw [rewind, if_neg]
            omega
          have hrs : (t.reset key nonce).Newest rs := by
            intro k
            rw [current_reset]
            by_cases hk : k = key
            · subst hk
              exact ⟨first, hinit, by simpa using hnonce⟩
            · have := h k
              simp only [orderedOn_append, orderedOn_singleton_ordered, if_neg hk,
                List.append_nil] at this
              rwa [if_neg hk]
          obtain ⟨hok, hback⟩ := ih hrs
          simp only [rewindEach, hrewind, Bool.true_and]
          refine ⟨hok, fun k => ?_⟩
          have := hback k
          rw [current_reset] at this
          by_cases hk : k = key
          · subst hk
            simp only [orderedOn_append, orderedOn_singleton_ordered, if_true, List.length_append,
              List.length_singleton] at this ⊢
            omega
          · simp only [if_neg hk] at this
            simpa [hk] using this

/-- Rewinding leaves the other lanes alone. -/
theorem current_rewindEach_of_apart {t : NonceTracker} {reservations : List NonceReservation}
    {key : SchedulingKey} (h : ∀ r ∈ reservations, r.kind = .ordered → r.key ≠ key) :
    (t.rewindEach reservations).2.current key = t.current key := by
  induction reservations generalizing t with
  | nil => rfl
  | cons r rest ih =>
      obtain ⟨hfirst, hrest⟩ := List.forall_mem_cons.1 h
      obtain ⟨k, nonce, kind⟩ := r
      cases kind with
      | unique => exact ih hrest
      | ordered =>
          have hrewind : (t.rewind k nonce).2.current key = t.current key := by
            unfold rewind
            split
            · rfl
            · rw [current_reset, if_neg (Ne.symm (hfirst rfl))]
          exact (ih hrest).trans hrewind

/-- Rewinding initializes no lane. -/
theorem contains_rewindEach {t : NonceTracker} {reservations : List NonceReservation}
    {key : SchedulingKey} (h : t.contains key = true) :
    (t.rewindEach reservations).2.contains key = true := by
  induction reservations generalizing t with
  | nil => exact h
  | cons r rest ih =>
      obtain ⟨k, nonce, kind⟩ := r
      cases kind with
      | unique => exact ih h
      | ordered =>
          have hrewind : (t.rewind k nonce).2.contains key = true := by
            unfold rewind
            split
            · exact h
            · simp [h]
          exact ih hrewind

end NonceTracker

/-! ## Build contexts -/

/-- What a materialization may take nonces from, and what it took since the last drain. -/
structure BuildContext where
  nonces : NonceTracker
  nonceReservations : List NonceReservation := []
  uniqueNonceHint : Option ℕ := none
  denseUniqueNonceHint : Option ℕ := none
  deferSigning : Bool := false

namespace BuildContext

/-- Get the next nonce for a scheduling key. -/
def nextNonce (ctx : BuildContext) (key : SchedulingKey) : ℕ × BuildContext :=
  let (nonce, nonces) := ctx.nonces.next key
  (nonce, { ctx with
    nonces
    nonceReservations := ctx.nonceReservations ++ [⟨key, nonce, .ordered⟩] })

/-- Atomically consume a local uniqueness value without creating an ordering lane. -/
def nextUniqueNonce (ctx : BuildContext) (key : SchedulingKey) : ℕ × BuildContext :=
  let (nonce, nonces) := ctx.nonces.next key
  (nonce, { ctx with
    nonces
    nonceReservations := ctx.nonceReservations ++ [⟨key, nonce, .unique⟩] })

/-- Record an exact deterministic consume-once value. -/
def reserveUniqueNonce (ctx : BuildContext) (key : SchedulingKey) (value : ℕ) : BuildContext :=
  { ctx with nonceReservations := ctx.nonceReservations ++ [⟨key, value, .unique⟩] }

/-- Rewind nonce values consumed since the previous drain. -/
def rollbackNonceReservations (ctx : BuildContext) : Bool × BuildContext :=
  let (restored, nonces) := ctx.nonces.rewindOrdered ctx.nonceReservations
  (restored, { ctx with nonces, nonceReservations := [] })

end BuildContext

end TxGen
