import TxGen.Core.Nonce
import TxGen.Scenario.Name

set_option autoImplicit false

/-! # Builds

A step of a materialization works on a build context, and leaves it changed also when it fails. -/

namespace TxGen

/-- A step of a build: its result, and the context it leaves. -/
def Build (α : Type) : Type := BuildContext → Except Report α × BuildContext

namespace Build

instance : Monad Build where
  pure a := fun ctx => (.ok a, ctx)
  bind x f := fun ctx =>
    match x ctx with
    | (.ok a, ctx) => f a ctx
    | (.error e, ctx) => (.error e, ctx)

instance : MonadLift (Except Report) Build where
  monadLift result := fun ctx => (result, ctx)

def get : Build BuildContext := fun ctx => (.ok ctx, ctx)

def nextNonce (key : SchedulingKey) : Build ℕ := fun ctx =>
  let (nonce, ctx) := ctx.nextNonce key
  (.ok nonce, ctx)

def nextUniqueNonce (key : SchedulingKey) : Build ℕ := fun ctx =>
  let (nonce, ctx) := ctx.nextUniqueNonce key
  (.ok nonce, ctx)

def reserveUniqueNonce (key : SchedulingKey) (value : ℕ) : Build Unit := fun ctx =>
  (.ok (), ctx.reserveUniqueNonce key value)

/-- `ctx.nonces.reset` -/
def resetNonce (key : SchedulingKey) (nonce : ℕ) : Build Unit := fun ctx =>
  (.ok (), { ctx with nonces := ctx.nonces.reset key nonce })

variable {α β : Type} {ctx ctx' : BuildContext}

theorem bind_run (x : Build α) (f : α → Build β) (ctx : BuildContext) :
    (x >>= f) ctx = match x ctx with
      | (.ok a, ctx) => f a ctx
      | (.error e, ctx) => (.error e, ctx) := rfl

theorem lift_run (result : Except Report α) (ctx : BuildContext) :
    (liftM result : Build α) ctx = (result, ctx) := rfl

theorem bind_ok {x : Build α} {f : α → Build β} {b : β} :
    (x >>= f) ctx = (.ok b, ctx') ↔ ∃ a ctx₁, x ctx = (.ok a, ctx₁) ∧ f a ctx₁ = (.ok b, ctx') := by
  show (match x ctx with
    | (.ok a, ctx) => f a ctx
    | (.error e, ctx) => (.error e, ctx)) = _ ↔ _
  rcases hx : x ctx with ⟨e | a, ctx₁⟩ <;> simp

@[simp] theorem pure_ok {a b : α} : (pure a : Build α) ctx = (.ok b, ctx') ↔ a = b ∧ ctx = ctx' := by
  show ((.ok a, ctx) : Except Report α × BuildContext) = (.ok b, ctx') ↔ a = b ∧ ctx = ctx'
  simp

@[simp] theorem lift_ok {result : Except Report α} {a : α} :
    (liftM result : Build α) ctx = (.ok a, ctx') ↔ result = .ok a ∧ ctx = ctx' := by
  show ((result, ctx) : Except Report α × BuildContext) = (.ok a, ctx') ↔ result = .ok a ∧ ctx = ctx'
  simp

@[simp] theorem get_ok {c : BuildContext} : get ctx = (.ok c, ctx') ↔ c = ctx ∧ ctx' = ctx := by
  simp [get, eq_comm]

@[simp] theorem nextUniqueNonce_ok {key : SchedulingKey} {n : ℕ} :
    nextUniqueNonce key ctx = (.ok n, ctx') ↔
      n = ctx.nonces.current key ∧ ctx' = (ctx.nextUniqueNonce key).2 := by
  simp [nextUniqueNonce, BuildContext.nextUniqueNonce, NonceTracker.next, eq_comm]

@[simp] theorem reserveUniqueNonce_ok {key : SchedulingKey} {value : ℕ} {u : Unit} :
    reserveUniqueNonce key value ctx = (.ok u, ctx') ↔ ctx' = ctx.reserveUniqueNonce key value := by
  simp [reserveUniqueNonce, eq_comm]

end Build

end TxGen
