import TxGen.Core.Build

set_option autoImplicit false

/-! # Operations on a build context

Whatever an adapter does with its context is a list of operations. After them the reservations can be
given back: a lane that was only used in order is then where it was, a consume-once value stays
consumed, and an ordered value that was taken before a consume-once value of the same key cannot be
given back. -/

namespace TxGen

/-- What an adapter does with its context. -/
inductive ContextOp
  | nextNonce (key : SchedulingKey)
  | nextUniqueNonce (key : SchedulingKey)
  | reserveUniqueNonce (key : SchedulingKey) (value : ℕ)
  /-- A lane that the tracker has not seen is given the nonce that the chain has for it. -/
  | initLane (key : SchedulingKey) (nonce : ℕ)
deriving DecidableEq

namespace ContextOp

def key : ContextOp → SchedulingKey
  | .nextNonce key | .nextUniqueNonce key | .reserveUniqueNonce key _ | .initLane key _ => key

def run (ctx : BuildContext) : ContextOp → BuildContext
  | .nextNonce key => (ctx.nextNonce key).2
  | .nextUniqueNonce key => (ctx.nextUniqueNonce key).2
  | .reserveUniqueNonce key value => ctx.reserveUniqueNonce key value
  | .initLane key nonce =>
    if ctx.nonces.contains key then ctx else { ctx with nonces := ctx.nonces.reset key nonce }

/-- The value that the tracker hands out, if any. -/
def hands (ctx : BuildContext) : ContextOp → List NonceReservation
  | .nextNonce key => [⟨key, ctx.nonces.current key, .ordered⟩]
  | .nextUniqueNonce key => [⟨key, ctx.nonces.current key, .unique⟩]
  | _ => []

/-- How far the counter of a key is set by an initialization. -/
def fetches (ctx : BuildContext) (key : SchedulingKey) : ContextOp → ℕ
  | .initLane k nonce => if k = key ∧ ctx.nonces.contains k = false then nonce else 0
  | _ => 0

end ContextOp

namespace BuildContext

def runOps (ctx : BuildContext) (ops : List ContextOp) : BuildContext := ops.foldl ContextOp.run ctx

/-- The values that are handed out, in order. -/
def handed (ctx : BuildContext) : List ContextOp → List NonceReservation
  | [] => []
  | op :: ops => op.hands ctx ++ handed (op.run ctx) ops

/-- The nonce that a key was initialized with, or zero. -/
def fetched (ctx : BuildContext) (key : SchedulingKey) : List ContextOp → ℕ
  | [] => 0
  | op :: ops => op.fetches ctx key + fetched (op.run ctx) key ops

@[simp] theorem runOps_append (ctx : BuildContext) (ops ops' : List ContextOp) :
    ctx.runOps (ops ++ ops') = (ctx.runOps ops).runOps ops' := by
  simp [runOps]

@[simp] theorem handed_append (ctx : BuildContext) (ops ops' : List ContextOp) :
    ctx.handed (ops ++ ops') = ctx.handed ops ++ (ctx.runOps ops).handed ops' := by
  induction ops generalizing ctx with
  | nil => rfl
  | cons op ops ih => simp [handed, ih, runOps]

@[simp] theorem fetched_append (ctx : BuildContext) (key : SchedulingKey)
    (ops ops' : List ContextOp) :
    ctx.fetched key (ops ++ ops') = ctx.fetched key ops + (ctx.runOps ops).fetched key ops' := by
  induction ops generalizing ctx with
  | nil => simp [fetched, runOps]
  | cons op ops ih => simp [fetched, ih, runOps, Nat.add_assoc]

end BuildContext

/-! ## Lanes that the tracker has seen -/

theorem ContextOp.contains_run {ctx : BuildContext} {key : SchedulingKey}
    (h : ctx.nonces.contains key = true) (op : ContextOp) :
    (op.run ctx).nonces.contains key = true := by
  cases op with
  | nextNonce k => simp [run, BuildContext.nextNonce, NonceTracker.next, h]
  | nextUniqueNonce k => simp [run, BuildContext.nextUniqueNonce, NonceTracker.next, h]
  | reserveUniqueNonce k value => exact h
  | initLane k nonce =>
      simp only [run]
      split
      · exact h
      · simp [h]

namespace BuildContext

theorem contains_runOps {ctx : BuildContext} {key : SchedulingKey}
    (h : ctx.nonces.contains key = true) (ops : List ContextOp) :
    (ctx.runOps ops).nonces.contains key = true := by
  induction ops generalizing ctx with
  | nil => exact h
  | cons op ops ih => exact ih (op.contains_run h)

theorem fetched_of_contains {ctx : BuildContext} {key : SchedulingKey}
    (h : ctx.nonces.contains key = true) (ops : List ContextOp) : ctx.fetched key ops = 0 := by
  induction ops generalizing ctx with
  | nil => rfl
  | cons op ops ih =>
      rw [fetched, ih (op.contains_run h), Nat.add_zero]
      cases op <;> simp only [ContextOp.fetches]
      rw [if_neg]
      rintro ⟨rfl, hunseen⟩
      simp [h] at hunseen

/-- What operations are handed depends on the counters of their own lanes only. -/
theorem handed_congr {ctx ctx' : BuildContext} {ops : List ContextOp}
    (h : ∀ op ∈ ops, ctx'.nonces.current op.key = ctx.nonces.current op.key ∧
      ctx.nonces.contains op.key = true ∧ ctx'.nonces.contains op.key = true) :
    ctx'.handed ops = ctx.handed ops := by
  induction ops generalizing ctx ctx' with
  | nil => rfl
  | cons op ops ih =>
      obtain ⟨hcurrent, hseen, hseen'⟩ := h op List.mem_cons_self
      have hhands : op.hands ctx' = op.hands ctx := by
        cases op with
        | nextNonce k | nextUniqueNonce k =>
            simpa [ContextOp.hands, ContextOp.key] using hcurrent
        | reserveUniqueNonce k value | initLane k nonce => rfl
      rw [handed, handed, hhands]
      congr 1
      refine ih fun next hnext => ?_
      obtain ⟨hsame, hin, hin'⟩ := h next (List.mem_cons_of_mem _ hnext)
      refine ⟨?_, op.contains_run hin, op.contains_run hin'⟩
      cases op with
      | nextNonce k | nextUniqueNonce k =>
          simp only [ContextOp.key] at hcurrent
          simp [ContextOp.run, nextNonce, nextUniqueNonce, NonceTracker.next, hcurrent, hsame]
      | reserveUniqueNonce k value => exact hsame
      | initLane k nonce =>
          simp only [ContextOp.key] at hseen hseen'
          simpa [ContextOp.run, hseen, hseen'] using hsame

end BuildContext

/-! ## Builds that are made of operations -/

namespace Build

variable {α β : Type}

/-- All that the build does with its context is a list of operations. -/
def Takes (x : Build α) : Prop :=
  ∃ ops : BuildContext → List ContextOp, ∀ ctx, (x ctx).2 = ctx.runOps (ops ctx)

theorem Takes.bind {x : Build α} {f : α → Build β} (hx : x.Takes) (hf : ∀ a, (f a).Takes) :
    (x >>= f).Takes := by
  obtain ⟨first, hfirst⟩ := hx
  choose second hsecond using hf
  refine ⟨fun ctx => first ctx ++ ((x ctx).1.toOption.map fun a => second a (x ctx).2).getD [],
    fun ctx => ?_⟩
  rw [BuildContext.runOps_append, ← hfirst ctx, Build.bind_run]
  rcases x ctx with ⟨e | a, ctx₁⟩
  · rfl
  · exact hsecond a ctx₁

/-- A build that leaves its context alone. -/
theorem takes_nothing {x : Build α} (h : ∀ ctx, (x ctx).2 = ctx) : x.Takes := ⟨fun _ => [], h⟩

theorem takes_pure (a : α) : (pure a : Build α).Takes := takes_nothing fun _ => rfl

theorem takes_lift (result : Except Report α) : (liftM result : Build α).Takes :=
  takes_nothing fun _ => rfl

theorem takes_get : get.Takes := takes_nothing fun _ => rfl

theorem takes_reserveUniqueNonce (key : SchedulingKey) (value : ℕ) :
    (reserveUniqueNonce key value).Takes := ⟨fun _ => [.reserveUniqueNonce key value], fun _ => rfl⟩

theorem takes_nextUniqueNonce (key : SchedulingKey) : (nextUniqueNonce key).Takes :=
  ⟨fun _ => [.nextUniqueNonce key], fun _ => rfl⟩

theorem takes_nextNonce (key : SchedulingKey) : (nextNonce key).Takes :=
  ⟨fun _ => [.nextNonce key], fun _ => rfl⟩

end Build

end TxGen
