import Mathlib

set_option autoImplicit false

/-! # Token buckets

A bucket gains credit at the rate of the call that fills it, up to the burst of that call, and each grant
takes one token out of it. Between two calls the rate may have changed: what counts is that no call within
a period has a higher rate than that period allows. -/

universe u

namespace TokenBucket

variable {K : Type u} [Field K] [LinearOrder K]

structure Bucket (K : Type u) where
  credit : K
  last : K

/-- A call, with the rate and the burst of its time. -/
structure Call (K : Type u) where
  time : K
  rate : K
  burst : K

def Bucket.refill (bucket : Bucket K) (call : Call K) : Bucket K where
  credit := min (bucket.credit + (call.time - bucket.last) * call.rate) call.burst
  last := call.time

/-- Take a token if there is one. -/
def Bucket.take (bucket : Bucket K) : Bool × Bucket K :=
  if 1 ≤ bucket.credit then (true, ⟨bucket.credit - 1, bucket.last⟩) else (false, bucket)

/-- Serve a call. -/
def Bucket.serve (bucket : Bucket K) (call : Call K) : Bool × Bucket K := (bucket.refill call).take

/-- The number of the calls that are granted. -/
def Bucket.grants : Bucket K → List (Call K) → ℕ
  | _, [] => 0
  | bucket, call :: calls =>
    (if (bucket.serve call).1 then 1 else 0) + grants (bucket.serve call).2 calls

variable {bucket : Bucket K} {call : Call K} {calls : List (Call K)} {R until' : K}

@[simp] theorem take_last (bucket : Bucket K) : bucket.take.2.last = bucket.last := by
  unfold Bucket.take
  split <;> rfl

@[simp] theorem serve_last (bucket : Bucket K) (call : Call K) :
    (bucket.serve call).2.last = call.time := take_last _

/-- A grant is paid with a token. -/
theorem take_credit (bucket : Bucket K) :
    bucket.take.2.credit + (if bucket.take.1 then 1 else 0 : ℕ) = bucket.credit := by
  unfold Bucket.take
  split <;> simp

/-- The calls of a period: in the order of their times, none before it begins or after it ends, and none
at a higher rate than the period allows. -/
structure Within (start until' R : K) (calls : List (Call K)) : Prop where
  ordered : calls.Pairwise fun call call' => call.time ≤ call'.time
  after : ∀ call ∈ calls, start ≤ call.time
  before : ∀ call ∈ calls, call.time ≤ until'
  rate_nonneg : ∀ call ∈ calls, 0 ≤ call.rate
  rate_le : ∀ call ∈ calls, call.rate ≤ R
  burst_nonneg : ∀ call ∈ calls, 0 ≤ call.burst

theorem Within.tail {start : K} (h : Within start until' R (call :: calls)) :
    Within call.time until' R calls where
  ordered := h.ordered.of_cons
  after := (List.pairwise_cons.1 h.ordered).1
  before := (List.forall_mem_cons.1 h.before).2
  rate_nonneg := (List.forall_mem_cons.1 h.rate_nonneg).2
  rate_le := (List.forall_mem_cons.1 h.rate_le).2
  burst_nonneg := (List.forall_mem_cons.1 h.burst_nonneg).2

variable [IsStrictOrderedRing K]

/-- What is granted from a call on is paid with what the call fills the bucket to, if the rest is. -/
theorem grants_cons_le_of_rest {gain : K}
    (hrest : ((bucket.serve call).2.grants calls : K) ≤ (bucket.serve call).2.credit + gain) :
    (bucket.grants (call :: calls) : K) ≤ (bucket.refill call).credit + gain := by
  have hpaid := take_credit (bucket.refill call)
  rw [Bucket.grants, Nat.cast_add]
  calc ((if (bucket.serve call).1 then 1 else 0 : ℕ) : K) + ((bucket.serve call).2.grants calls : K)
      ≤ (if (bucket.serve call).1 then 1 else 0 : ℕ) + ((bucket.serve call).2.credit + gain) := by
        gcongr
    _ = (bucket.refill call).credit + gain := by
        rw [← hpaid, Bucket.serve]
        ring

theorem take_credit_nonneg (h : 0 ≤ bucket.credit) : 0 ≤ bucket.take.2.credit := by
  unfold Bucket.take
  split
  · next hone => exact sub_nonneg.2 hone
  · exact h

theorem refill_credit_nonneg (hcredit : 0 ≤ bucket.credit) (htime : bucket.last ≤ call.time)
    (hrate : 0 ≤ call.rate) (hburst : 0 ≤ call.burst) : 0 ≤ (bucket.refill call).credit := by
  have hgain : 0 ≤ (call.time - bucket.last) * call.rate :=
    mul_nonneg (sub_nonneg.2 htime) hrate
  exact le_min (add_nonneg hcredit hgain) hburst

/-- The grants of a period are paid with the credit of its beginning and what its rate allows. -/
theorem grants_le (h : Within bucket.last until' R calls) (hcredit : 0 ≤ bucket.credit)
    (hR : 0 ≤ R) (huntil : bucket.last ≤ until') :
    (bucket.grants calls : K) ≤ bucket.credit + R * (until' - bucket.last) := by
  induction calls generalizing bucket with
  | nil =>
      have hgain : 0 ≤ R * (until' - bucket.last) := mul_nonneg hR (sub_nonneg.2 huntil)
      simpa [Bucket.grants] using add_nonneg hcredit hgain
  | cons call calls ih =>
      obtain ⟨hafter, -⟩ := List.forall_mem_cons.1 h.after
      obtain ⟨hbefore, -⟩ := List.forall_mem_cons.1 h.before
      obtain ⟨hrate, -⟩ := List.forall_mem_cons.1 h.rate_nonneg
      obtain ⟨hle, -⟩ := List.forall_mem_cons.1 h.rate_le
      obtain ⟨hburst, -⟩ := List.forall_mem_cons.1 h.burst_nonneg
      have hfilled : 0 ≤ (bucket.refill call).credit :=
        refill_credit_nonneg hcredit hafter hrate hburst
      have hrest : ((bucket.serve call).2.grants calls : K) ≤
          (bucket.serve call).2.credit + R * (until' - (bucket.serve call).2.last) :=
        ih (by simpa using h.tail) (take_credit_nonneg hfilled) (by simpa using hbefore)
      rw [serve_last] at hrest
      -- what the call gained, it gained at a rate that is allowed
      have hgain : (bucket.refill call).credit ≤ bucket.credit + R * (call.time - bucket.last) := by
        refine (min_le_left _ _).trans ?_
        rw [mul_comm R]
        gcongr
      calc (bucket.grants (call :: calls) : K)
          ≤ (bucket.refill call).credit + R * (until' - call.time) := grants_cons_le_of_rest hrest
        _ ≤ bucket.credit + R * (call.time - bucket.last) + R * (until' - call.time) := by gcongr
        _ = bucket.credit + R * (until' - bucket.last) := by ring

/-- Whatever the bucket held before, a period begins with the burst of its first call at most. -/
theorem grants_cons_le (h : Within bucket.last until' R (call :: calls)) (hcredit : 0 ≤ bucket.credit) :
    (bucket.grants (call :: calls) : K) ≤ call.burst + R * (until' - call.time) := by
  obtain ⟨hafter, -⟩ := List.forall_mem_cons.1 h.after
  obtain ⟨hbefore, -⟩ := List.forall_mem_cons.1 h.before
  obtain ⟨hrate, -⟩ := List.forall_mem_cons.1 h.rate_nonneg
  obtain ⟨hle, -⟩ := List.forall_mem_cons.1 h.rate_le
  obtain ⟨hburst, -⟩ := List.forall_mem_cons.1 h.burst_nonneg
  have hfilled := refill_credit_nonneg hcredit hafter hrate hburst
  have hrest : ((bucket.serve call).2.grants calls : K) ≤
      (bucket.serve call).2.credit + R * (until' - (bucket.serve call).2.last) :=
    grants_le (by simpa using h.tail) (take_credit_nonneg hfilled) (hrate.trans hle)
      (by simpa using hbefore)
  rw [serve_last] at hrest
  refine (grants_cons_le_of_rest hrest).trans ?_
  gcongr
  exact min_le_right _ _

/-- A call that comes when the missing credit is gained is granted, at the rate before or a higher one. -/
theorem take_after_delay {rate : K} (hrate : 0 < rate) (hcall : rate ≤ call.rate)
    (hburst : 1 ≤ call.burst) (hcredit : bucket.credit ≤ 1)
    (htime : call.time = bucket.last + (1 - bucket.credit) / rate) :
    (bucket.serve call).1 = true := by
  have hgain : 1 - bucket.credit ≤ (call.time - bucket.last) * call.rate := by
    calc 1 - bucket.credit = (1 - bucket.credit) / rate * rate := (div_mul_cancel₀ _ hrate.ne').symm
      _ ≤ (1 - bucket.credit) / rate * call.rate := by
          have : 0 ≤ (1 - bucket.credit) / rate := div_nonneg (sub_nonneg.2 hcredit) hrate.le
          gcongr
      _ = (call.time - bucket.last) * call.rate := by rw [htime, add_sub_cancel_left]
  have hfull : 1 ≤ (bucket.refill call).credit := le_min (by linarith) hburst
  rw [Bucket.serve, Bucket.take, if_pos hfull]

end TokenBucket
