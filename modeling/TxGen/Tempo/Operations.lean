import TxGen.Core.ContextOps
import TxGen.Tempo.Request

set_option autoImplicit false

/-! # What a Tempo build does with its context

Each part of `build_request` is made of operations on the context. -/

namespace TxGen

namespace TempoAdapter

open Build

variable (adapter : TempoAdapter)

theorem takes_initLane (draws : Draws) (key : SchedulingKey) :
    (adapter.initLane draws key).Takes := by
  refine ⟨fun _ => if adapter.nonceRpc = some false then
    draws.laneNonce.toOption.toList.map (.initLane key) else [], fun ctx => ?_⟩
  unfold initLane
  show ((if ctx.nonces.contains key then _ else _ : Build Unit) ctx).2 = _
  rcases adapter.nonceRpc with _ | _ | _
  · split <;> rfl
  · cases draws.laneNonce with
    | error e => split <;> rfl
    | ok nonce =>
        show _ = if ctx.nonces.contains key then ctx
          else { ctx with nonces := ctx.nonces.reset key nonce }
        split <;> rfl
  · split <;> rfl

theorem takes_nextNonceLazy (draws : Draws) (key : SchedulingKey) :
    (adapter.nextNonceLazy draws key).Takes :=
  (adapter.takes_initLane draws key).bind fun _ => takes_nextNonce key

theorem takes_resolveNonce (template : TempoTemplate) (mode : TempoNonceMode)
    (key : SchedulingKey) (draws : Draws) :
    (adapter.resolveNonce template mode key draws).Takes := by
  have hlazy := adapter.takes_nextNonceLazy draws key
  unfold resolveNonce
  cases template.nonce with
  | none =>
      cases mode with
      | expiring => exact takes_pure 0
      | protocol => exact hlazy
      | parallel _ => exact hlazy
  | some nonce =>
      refine (takes_lift nonce).bind fun nonce => ?_
      dsimp only
      split
      · exact hlazy.bind fun _ => (takes_lift _).bind fun _ => takes_pure _
      · exact takes_pure _

theorem takes_encodedUniqueness : encodedUniqueness.Takes := by
  refine takes_get.bind fun ctx => ?_
  cases ctx.uniqueNonceHint with
  | some hint => exact (takes_reserveUniqueNonce _ _).bind fun _ => takes_lift _
  | none => exact (takes_nextUniqueNonce _).bind fun _ => takes_lift _

theorem takes_makeUnique (template : TempoTemplate) (mode : TempoNonceMode)
    (req : TempoTransactionRequest) : (makeUnique template mode req).Takes := by
  unfold makeUnique
  split
  · exact takes_encodedUniqueness.bind fun _ =>
      (takes_lift _).bind fun _ => (takes_lift _).bind fun _ => takes_pure _
  · exact takes_pure req

theorem takes_deriveInlineAccessSigner (auth : TempoAuthDef) :
    (adapter.deriveInlineAccessSigner auth).Takes := by
  refine (takes_lift _).bind fun source => takes_get.bind fun ctx => ?_
  cases ctx.denseUniqueNonceHint with
  | some hint =>
      exact (takes_lift _).bind fun _ => (takes_reserveUniqueNonce _ _).bind fun _ =>
        takes_lift _
  | none => exact (takes_nextUniqueNonce _).bind fun _ => takes_lift _

theorem takes_applyAuth (template : TempoTemplate) (selected : SelectedSigner) :
    (adapter.applyAuth template selected).Takes := by
  unfold applyAuth
  cases template.auth with
  | none => exact takes_pure _
  | some auth =>
      dsimp only
      cases auth.mode with
      | keychain => exact (takes_lift _).bind fun _ => takes_pure _
      | keyAuthorization =>
          exact (adapter.takes_deriveInlineAccessSigner auth).bind fun _ =>
            (takes_lift _).bind fun _ => takes_pure _

theorem takes_buildTempoRequest (template : TempoTemplate) (draws : Draws)
    (selected : SelectedSigner) (mode : TempoNonceMode) (key : SchedulingKey) (nonce : ℕ) :
    (adapter.buildTempoRequest template draws selected mode key nonce).Takes :=
  (takes_lift _).bind fun _ => takes_get.bind fun _ => (takes_lift _).bind fun _ =>
    (takes_lift _).bind fun _ => (takes_lift _).bind fun _ => (takes_lift _).bind fun _ =>
      (takes_makeUnique template mode _).bind fun _ =>
        (adapter.takes_applyAuth template selected).bind fun _ =>
          (takes_lift _).bind fun _ => takes_pure _

/-- A build takes nonces from its context, and does nothing else with it. -/
theorem takes_buildRequest (template : TempoTemplate) (draws : Draws) :
    (adapter.buildRequest template draws).Takes := by
  refine (takes_lift _).bind fun selected => (takes_lift _).bind fun _ =>
    (takes_lift _).bind fun mode => (takes_lift _).bind fun _ =>
      (adapter.takes_resolveNonce template mode _ draws).bind fun nonce => ?_
  split
  · exact adapter.takes_buildTempoRequest template draws selected mode _ nonce
  · exact (takes_lift _).bind fun _ => takes_pure _

end TempoAdapter

end TxGen
