import TxGen.Core.Rollback
import TxGen.Lib.System
import TxGen.Scenario.Yaml
import TxGen.Tempo.Operations

set_option autoImplicit false

/-! # Materializing one template

A template is parsed, a request is built from it and signed; what the build took from the nonce tracker
is given back when one of these fails. -/

namespace TxGen.Materialize

open NonceReservation

/-- What an adapter builds from a template. -/
structure TxRequest (ρ κ : Type) where
  request : ρ
  signerPool : String
  signerIndex : ℕ
  key : SchedulingKey
  signContext : κ
  lateSign : Option LateSignSpec := none

/-- A network adapter, with the accounts it signs for. Whatever a build does with its context, it does
    it by operations; these tell the values that it was handed from those that it only recorded. -/
structure NetworkAdapter (τ ρ κ : Type) where
  /-- `serde_yaml::from_value` -/
  parse : Yaml → Except Report τ
  buildRequest : τ → Build (TxRequest ρ κ)
  operations : τ → BuildContext → List ContextOp
  builds : ∀ template ctx, (buildRequest template ctx).2 = ctx.runOps (operations template ctx)
  getByIndex : String → ℕ → Except Report Address
  nonce : ρ → Option ℕ
  creates : ρ → Bool
  create : Address → ℕ → Address
  signRequest : κ → String → TxPhase → ρ → Address → SchedulingKey → List SchedulingKey →
    Except Report GeneratedTx

structure PreparedMaterializedTx (ρ κ : Type) where
  name : String
  phase : TxPhase
  txReq : TxRequest ρ κ
  inclusionKeys : List SchedulingKey
  sender : Address
  nonce : Option ℕ
  nonceReservations : List NonceReservation := []
  createdAddress : Option Address

structure MaterializedTx where
  generated : GeneratedTx
  sender : Address
  nonce : Option ℕ
  nonceReservations : List NonceReservation
  createdAddress : Option Address
deriving DecidableEq

/-- What one template is materialized with. -/
structure Invocation where
  name : String
  value : Yaml
  phase : TxPhase := .workload
  inclusionKeys : List SchedulingKey := []
  uniqueNonceHint : Option ℕ := none
  denseUniqueNonceHint : Option ℕ := none
  deferSigning : Bool := false

/-- Every materialization starts with nothing reserved. -/
def Invocation.context (call : Invocation) (nonces : NonceTracker) : BuildContext where
  nonces
  uniqueNonceHint := call.uniqueNonceHint
  denseUniqueNonceHint := call.denseUniqueNonceHint
  deferSigning := call.deferSigning

def unrecoverable : String := "failed to rewind nonce state after materialization"

/-- The failure is reported as one that left the nonces in a state of its own. -/
def Unrecoverable (e : Report) : Prop := e.head? = some unrecoverable

instance (e : Report) : Decidable (Unrecoverable e) := by unfold Unrecoverable; infer_instance

variable {τ ρ κ : Type} (adapter : NetworkAdapter τ ρ κ)

/-! ## The code -/

/-- `.wrap_err(message)` -/
def wrapBuildErr {α : Type} (x : Build α) (message : String) : Build α := fun ctx =>
  let (result, ctx) := x ctx
  (wrapErr result message, ctx)

def buildPreparedTemplate (call : Invocation) : Build (PreparedMaterializedTx ρ κ) := do
  let template ← wrapErr (adapter.parse call.value) s!"failed to parse template '{call.name}'"
  let txReq ← wrapBuildErr (adapter.buildRequest template)
    s!"failed to build request from template '{call.name}'"
  let sender ← adapter.getByIndex txReq.signerPool txReq.signerIndex
  let nonce := adapter.nonce txReq.request
  return {
    name := call.name
    phase := call.phase
    txReq
    inclusionKeys := dedupSchedulingKeys call.inclusionKeys
    sender
    nonce
    createdAddress := if adapter.creates txReq.request then nonce.map (adapter.create sender) else none }

/-- Build a request and commit its nonce reservations without performing the final signature. -/
def prepareMaterializedTemplate (call : Invocation) : Build (PreparedMaterializedTx ρ κ) := fun ctx =>
  match buildPreparedTemplate adapter call ctx with
  | (.ok prepared, ctx) =>
    (.ok { prepared with nonceReservations := ctx.nonceReservations },
      { ctx with nonceReservations := [] })
  | (.error e, ctx) =>
    let (restored, ctx) := ctx.rollbackNonceReservations
    (.error (if restored then e else unrecoverable :: e), ctx)

/-- The signed transaction, or the unsigned one that a worker signs later. -/
def generate (prepared : PreparedMaterializedTx ρ κ) : Except Report GeneratedTx :=
  match prepared.txReq.lateSign with
  | some lateSign =>
    if prepared.phase = .setup then
      bail "deferred signing is not supported for setup transactions"
    else .ok {
      phase := prepared.phase
      id := some prepared.name
      lateSign := some lateSign
      sender := some prepared.sender
      submissionKeys := [prepared.txReq.key]
      inclusionKeys := prepared.inclusionKeys }
  | none =>
    adapter.signRequest prepared.txReq.signContext prepared.name prepared.phase
      prepared.txReq.request prepared.sender prepared.txReq.key prepared.inclusionKeys

/-- Sign and encode a previously prepared adapter request. -/
def signPreparedMaterializedTemplate (prepared : PreparedMaterializedTx ρ κ) :
    Except Report MaterializedTx := do
  let generated ← generate adapter prepared
  bailIf (generated.schedulingKeys.toFinset ≠ (prepared.txReq.key :: prepared.inclusionKeys).toFinset)
    "transaction signer changed the prepared scheduling keys"
  return {
    generated
    sender := prepared.sender
    nonce := prepared.nonce
    nonceReservations := prepared.nonceReservations
    createdAddress := prepared.createdAddress }

/-- Parse, build, sign, and encode one already-materialized adapter template. -/
def materializeAndSignTemplate (call : Invocation) : Build MaterializedTx := do
  let prepared ← prepareMaterializedTemplate adapter call
  match signPreparedMaterializedTemplate adapter prepared with
  | .ok transaction => return transaction
  | .error e => fun ctx =>
    let (restored, nonces) := ctx.nonces.rewindOrdered prepared.nonceReservations
    (.error (if restored then e else unrecoverable :: e), { ctx with nonces })

/-! ## What a materialization leaves -/

/-- The operations of the build, if it comes to one. -/
def NetworkAdapter.operationsOf (call : Invocation) (ctx : BuildContext) : List ContextOp :=
  match adapter.parse call.value with
  | .ok template => adapter.operations template ctx
  | .error _ => []

/-- On success the reservations are handed on and the nonces stay taken; on failure they are rewound. -/
def Leaves (ctx : BuildContext) (ops : List ContextOp) (result : Except Report (List NonceReservation))
    (nonces : NonceTracker) : Prop :=
  let after := ctx.runOps ops
  match result with
  | .ok reservations => reservations = after.nonceReservations ∧ nonces = after.nonces
  | .error e =>
    let (restored, rewound) := after.nonces.rewindOrdered after.nonceReservations
    nonces = rewound ∧ (restored = true ∨ Unrecoverable e)

theorem wrapBuildErr_run {α : Type} (x : Build α) (message : String) (ctx : BuildContext) :
    wrapBuildErr x message ctx = (wrapErr (x ctx).1 message, (x ctx).2) := rfl

theorem buildPreparedTemplate_runs (call : Invocation) (ctx : BuildContext) :
    (buildPreparedTemplate adapter call ctx).2 = ctx.runOps (adapter.operationsOf call ctx) := by
  unfold buildPreparedTemplate NetworkAdapter.operationsOf
  cases adapter.parse call.value with
  | error e => rfl
  | ok template =>
      dsimp only
      rw [← adapter.builds template ctx, Build.bind_run, Build.lift_run]
      show ((wrapBuildErr (adapter.buildRequest template) _ >>= _) ctx).2 = _
      rw [Build.bind_run, wrapBuildErr_run]
      rcases adapter.buildRequest template ctx with ⟨e | txReq, after⟩
      · rfl
      · dsimp only [wrapErr, Except.mapError]
        rw [Build.bind_run, Build.lift_run]
        cases adapter.getByIndex txReq.signerPool txReq.signerIndex <;> rfl

theorem unrecoverable_or (restored : Bool) (e : Report) :
    restored = true ∨ Unrecoverable (if restored then e else unrecoverable :: e) := by
  cases restored
  · exact Or.inr rfl
  · exact Or.inl rfl

theorem prepareMaterializedTemplate_leaves (call : Invocation) (ctx : BuildContext) :
    Leaves ctx (adapter.operationsOf call ctx)
      ((prepareMaterializedTemplate adapter call ctx).1.map (·.nonceReservations))
      (prepareMaterializedTemplate adapter call ctx).2.nonces := by
  have hruns := buildPreparedTemplate_runs adapter call ctx
  unfold prepareMaterializedTemplate
  rcases hbuild : buildPreparedTemplate adapter call ctx with ⟨e | prepared, after⟩
  · rw [hbuild] at hruns
    simp only [Leaves, ← hruns, Except.map, BuildContext.rollbackNonceReservations, true_and]
    exact unrecoverable_or _ e
  · rw [hbuild] at hruns
    simp [Leaves, ← hruns, Except.map]

/-- The same when signing fails after the reservations were handed on. -/
theorem materializeAndSignTemplate_leaves (call : Invocation) (ctx : BuildContext) :
    Leaves ctx (adapter.operationsOf call ctx)
      ((materializeAndSignTemplate adapter call ctx).1.map (·.nonceReservations))
      (materializeAndSignTemplate adapter call ctx).2.nonces := by
  have hprepare := prepareMaterializedTemplate_leaves adapter call ctx
  unfold materializeAndSignTemplate
  rw [Build.bind_run]
  generalize prepareMaterializedTemplate adapter call ctx = result at hprepare ⊢
  obtain ⟨e | prepared, after⟩ := result
  · exact hprepare
  · obtain ⟨hreservations, hnonces⟩ := hprepare
    dsimp only at hreservations hnonces ⊢
    cases hsign : signPreparedMaterializedTemplate adapter prepared with
    | error e =>
        simp only [Leaves, Except.map, hreservations, hnonces, true_and]
        exact unrecoverable_or _ e
    | ok transaction =>
        have hkept : transaction.nonceReservations = prepared.nonceReservations := by
          unfold signPreparedMaterializedTemplate at hsign
          simp only [bind_eq_ok] at hsign
          obtain ⟨generated, -, -, -, hsign⟩ := hsign
          cases hsign
          rfl
        exact ⟨hkept.trans hreservations, hnonces⟩

/-! ## The adapters -/

/-- A template of the Ethereum adapter: its account, and the request it makes of a nonce. -/
structure EthereumTemplate (ρ : Type) where
  fromAccount : Except Report SelectedSigner
  request : ℕ → Except Report ρ

namespace EthereumTemplate

def buildRequest (template : EthereumTemplate ρ) : Build (TxRequest ρ Unit) := do
  let selected ← template.fromAccount
  let key : SchedulingKey := ⟨selected.address⟩
  let nonce ← Build.nextNonce key
  let request ← template.request nonce
  return {
    request
    signerPool := selected.pool
    signerIndex := selected.index
    key
    signContext := () }

def operations (template : EthereumTemplate ρ) (_ : BuildContext) : List ContextOp :=
  match template.fromAccount with
  | .ok selected => [.nextNonce ⟨selected.address⟩]
  | .error _ => []

theorem builds (template : EthereumTemplate ρ) (ctx : BuildContext) :
    (template.buildRequest ctx).2 = ctx.runOps (template.operations ctx) := by
  obtain ⟨account, request⟩ := template
  unfold buildRequest operations
  cases account with
  | error e => rfl
  | ok selected =>
      dsimp only
      rw [Build.bind_run, Build.lift_run]
      dsimp only
      rw [Build.bind_run]
      dsimp only [Build.nextNonce]
      rw [Build.bind_run, Build.lift_run]
      cases request (ctx.nextNonce ⟨selected.address⟩).1 <;> rfl

end EthereumTemplate

/-- What the Tempo adapter signs with, besides the account. -/
structure TempoSignContext where
  accessSigner : Option Address
  keyAuthorization : Option KeyAuthorization
  sponsor : Option SelectedSigner

def tempoBuildRequest (adapter : TempoAdapter) (template : TempoTemplate × Draws) :
    Build (TxRequest TempoTransactionRequest TempoSignContext) := do
  let built ← adapter.buildRequest template.1 template.2
  return {
    request := built.request
    signerPool := built.signer.pool
    signerIndex := built.signer.index
    key := built.key
    signContext := ⟨built.accessSigner, built.keyAuthorization, built.sponsor⟩
    lateSign := built.lateSign.map fun _ => ⟨"tempo_expiring_relative"⟩ }

/-- The Tempo adapter is one of those that only operate on their context. -/
theorem takes_tempoBuildRequest (adapter : TempoAdapter) (template : TempoTemplate × Draws) :
    (tempoBuildRequest adapter template).Takes :=
  (adapter.takes_buildRequest template.1 template.2).bind fun _ => Build.takes_pure _

/-! ## Runs -/

structure State where
  nonces : NonceTracker
  /-- what the materialized transactions hold that are neither settled nor rewound -/
  outstanding : List (List NonceReservation) := []
  /-- the values that builds were handed so far -/
  handed : List NonceReservation := []

inductive Label
  /-- The adapter prepares a lane that the next template selects. -/
  | prepareRequest (key : SchedulingKey) (nonce : ℕ)
  | prepare (call : Invocation)
  | materialize (call : Invocation)
  /-- An earlier transaction is not signed or not accepted. -/
  | rewind (i : ℕ)
  | settle (i : ℕ)

namespace State

def context (s : State) (call : Invocation) : BuildContext := call.context s.nonces

/-- What is left after a materialization. -/
def took (s : State) (call : Invocation) (result : Except Report (List NonceReservation))
    (nonces : NonceTracker) : State where
  nonces
  outstanding := match result with
    | .ok reservations => s.outstanding ++ [reservations]
    | .error _ => s.outstanding
  handed := s.handed ++ (s.context call).handed (adapter.operationsOf call (s.context call))

end State

def step (s : State) : Label → Option State
  | .prepareRequest key nonce =>
    some (if s.nonces.contains key then s else { s with nonces := s.nonces.reset key nonce })
  | .prepare call =>
    let (result, ctx) := prepareMaterializedTemplate adapter call (s.context call)
    some (s.took adapter call (result.map (·.nonceReservations)) ctx.nonces)
  | .materialize call =>
    let (result, ctx) := materializeAndSignTemplate adapter call (s.context call)
    some (s.took adapter call (result.map (·.nonceReservations)) ctx.nonces)
  | .rewind i =>
    s.outstanding[i]?.map fun reservations => { s with
      nonces := (s.nonces.rewindOrdered reservations).2
      outstanding := s.outstanding.eraseIdx i }
  | .settle i =>
    if i < s.outstanding.length then some { s with outstanding := s.outstanding.eraseIdx i } else none

def materializations (initial : NonceTracker) : System State Label where
  init := { nonces := initial }
  step := step adapter

variable {adapter} {s s' : State} {call : Invocation}

/-- The reservations that are still held are the ones that may be rewound. -/
def State.Guarded (s : State) : Prop := s.nonces.Guards s.handed s.outstanding.flatten

theorem State.Guarded.took (h : s.Guarded) {result : Except Report (List NonceReservation)}
    {nonces : NonceTracker}
    (hleaves : Leaves (s.context call) (adapter.operationsOf call (s.context call)) result nonces) :
    (s.took adapter call result nonces).Guarded := by
  have hstart : (s.context call).nonces.Guards s.handed
      (s.outstanding.flatten ++ (s.context call).nonceReservations) := by
    simpa [State.context, Invocation.context, State.Guarded] using h
  have hafter := hstart.runOps (adapter.operationsOf call (s.context call))
  cases result with
  | ok reservations =>
      obtain ⟨rfl, rfl⟩ := hleaves
      simpa [State.Guarded, State.took] using hafter
  | error e =>
      obtain ⟨rfl, -⟩ := hleaves
      exact hafter.rewindOrdered

theorem outstanding_perm {outstanding : List (List NonceReservation)} {i : ℕ}
    (hi : i < outstanding.length) :
    outstanding.flatten.Perm ((outstanding.eraseIdx i).flatten ++ outstanding[i]) :=
  ((List.getElem_cons_eraseIdx_perm hi).flatten.symm).trans List.perm_append_comm

theorem State.Guarded.step (h : s.Guarded) {l : Label} (hst : Materialize.step adapter s l = some s') :
    s'.Guarded := by
  cases l with
  | prepareRequest key nonce =>
      obtain rfl := Option.some.inj hst
      split
      · exact h
      · next hseen =>
          refine NonceTracker.Guards.mono h fun k => ?_
          have hzero := NonceTracker.current_of_not_contains (Bool.not_eq_true _ ▸ hseen)
          rw [NonceTracker.current_reset]
          split
          · next hk => rw [hk, hzero]; exact Nat.zero_le _
          · exact Nat.le_refl _
  | prepare call =>
      obtain rfl := Option.some.inj hst
      exact h.took (prepareMaterializedTemplate_leaves adapter call _)
  | materialize call =>
      obtain rfl := Option.some.inj hst
      exact h.took (materializeAndSignTemplate_leaves adapter call _)
  | rewind i =>
      simp only [Materialize.step, Option.map_eq_some_iff, List.getElem?_eq_some_iff] at hst
      obtain ⟨reservations, ⟨hi, rfl⟩, rfl⟩ := hst
      exact (NonceTracker.Guards.perm h (outstanding_perm hi)).rewindOrdered
  | settle i =>
      simp only [Materialize.step, Option.ite_none_right_eq_some, Option.some.injEq] at hst
      obtain ⟨hi, rfl⟩ := hst
      exact (NonceTracker.Guards.perm h (outstanding_perm hi)).sublist
        (List.sublist_append_left _ _)

theorem guarded_reachable {initial : NonceTracker} (h : (materializations adapter initial).Reachable s) :
    s.Guarded := by
  refine h.invariant ?_ fun s l s' hinv hst => hinv.step hst
  exact ⟨List.Pairwise.nil, nofun, nofun, nofun, List.Pairwise.nil⟩

/-! ## What a failure gives back -/

/-- Every counter is where it was (or where it was fetched), but for the consume-once values; the lanes
    that the tracker had seen and that lost none hand out the nonces that they would have handed out. -/
structure Restored (ctx : BuildContext) (ops : List ContextOp) (nonces : NonceTracker) : Prop where
  counter : ∀ key, nonces.current key =
    ctx.nonces.current key + ctx.fetched key ops + uniquesOn ops key
  later : ∀ later : List ContextOp,
    (∀ op ∈ later, ctx.nonces.contains op.key = true ∧ uniquesOn ops op.key = 0) →
      ({ ctx with nonces } : BuildContext).handed later = ctx.handed later

theorem Leaves.restored {ctx : BuildContext} (hnone : ctx.nonceReservations = [])
    {ops : List ContextOp} {e : Report} {nonces : NonceTracker}
    (h : Leaves ctx ops (.error e) nonces) (hreport : ¬ Unrecoverable e) :
    Restored ctx ops nonces := by
  obtain ⟨rfl, hrestored | hunrecoverable⟩ := h
  · have hcounter := BuildContext.rewindOrdered_runOps hnone ops hrestored
    refine ⟨hcounter, fun later hlater => BuildContext.handed_congr fun op hop => ?_⟩
    obtain ⟨hseen, huniques⟩ := hlater op hop
    refine ⟨(hcounter op.key).trans ?_, hseen,
      NonceTracker.contains_rewindEach (BuildContext.contains_runOps hseen ops)⟩
    rw [BuildContext.fetched_of_contains hseen, huniques]
    rfl
  · exact absurd hunrecoverable hreport

/-- What holds of the nonces whenever a materialization fails or is taken back. -/
structure Recovers (adapter : NetworkAdapter τ ρ κ) (s : State) : Prop where
  consumedOnce : ConsumedOnce s.handed
  prepare : ∀ call e ctx, prepareMaterializedTemplate adapter call (s.context call) = (.error e, ctx) →
    ¬ Unrecoverable e →
      Restored (s.context call) (adapter.operationsOf call (s.context call)) ctx.nonces
  materialize : ∀ call e ctx,
    materializeAndSignTemplate adapter call (s.context call) = (.error e, ctx) →
    ¬ Unrecoverable e →
      Restored (s.context call) (adapter.operationsOf call (s.context call)) ctx.nonces
  /-- A transaction that is rewound later gives back what it took from each lane. -/
  rewind : ∀ reservations ∈ s.outstanding, (s.nonces.rewindOrdered reservations).1 = true →
    ∀ key, (s.nonces.rewindOrdered reservations).2.current key +
      (orderedOn reservations key).length = s.nonces.current key

/-- In every run of materializations, a failed one leaves all but its consume-once values, and none of
    these is handed out again. -/
theorem failed_materialization_recovers {τ ρ κ : Type} (adapter : NetworkAdapter τ ρ κ)
    (initial : NonceTracker) {s : State} (h : (materializations adapter initial).Reachable s) :
    Recovers adapter s := by
  refine ⟨(guarded_reachable h).once, fun call e ctx hfail hreport => ?_,
    fun call e ctx hfail hreport => ?_, fun reservations _ hrestored key => ?_⟩
  · have hleaves := prepareMaterializedTemplate_leaves adapter call (s.context call)
    rw [hfail] at hleaves
    exact hleaves.restored rfl hreport
  · have hleaves := materializeAndSignTemplate_leaves adapter call (s.context call)
    rw [hfail] at hleaves
    exact hleaves.restored rfl hreport
  · exact NonceTracker.current_rewindOrdered hrestored key

namespace MaterializeSample

def lane : SchedulingKey := ⟨7⟩

/-- A template takes a nonce of the lane; where it is `true`, after a consume-once value of the same
    key, and its build fails then. -/
def laneAdapter : NetworkAdapter Bool ℕ Unit where
  parse
    | .bool fails => .ok fails
    | _ => bail "invalid type"
  buildRequest fails ctx :=
    if fails then (bail "missing gas limit", ((ctx.nextUniqueNonce lane).2.nextNonce lane).2)
    else (.ok ⟨(ctx.nextNonce lane).1, "main", 0, lane, (), none⟩, (ctx.nextNonce lane).2)
  operations fails _ := if fails then [.nextUniqueNonce lane, .nextNonce lane] else [.nextNonce lane]
  builds fails ctx := by cases fails <;> rfl
  getByIndex _ _ := .ok 7
  nonce := some
  creates _ := false
  create _ _ := 0
  signRequest _ name phase _ sender key inclusionKeys := .ok {
    phase
    id := some name
    sender := some sender
    submissionKeys := [key]
    inclusionKeys }

def transfer : Invocation := ⟨"transfer", .bool false, .workload, [], none, none, false⟩

def failing : Invocation := ⟨"approve", .bool true, .workload, [], none, none, false⟩

end MaterializeSample

open MaterializeSample in
theorem failed_materialization_recovers_sample :
    ∃ s, s.nonces.current lane = 3 ∧ s.handed.map (·.nonce) = [0, 1, 2, 2] ∧
      Recovers laneAdapter s := by
  have hcheck : ((materializations laneAdapter {}).exec { nonces := {} }
      [.materialize transfer, .materialize failing, .prepare transfer]).any (fun s => decide
        (s.nonces.current lane = 3 ∧ s.handed.map (·.nonce) = [0, 1, 2, 2])) = true := by
    decide
  obtain ⟨s, hrun, hcurrent, hhanded⟩ := System.run_of_check hcheck
  exact ⟨s, hcurrent, hhanded, failed_materialization_recovers laneAdapter {} ⟨_, hrun⟩⟩

open MaterializeSample in
/-- An ordered lane whose key also gave a consume-once value goes on behind that value, and the failure
    is reported as any other. -/
theorem failed_materialization_moves_a_lane :
    let ctx := failing.context {}
    let result := materializeAndSignTemplate laneAdapter failing ctx
    ContextOp.nextNonce lane ∈ laneAdapter.operationsOf failing ctx ∧
      result.1 = .error ["failed to build request from template 'approve'", "missing gas limit"] ∧
      ¬ Unrecoverable ["failed to build request from template 'approve'", "missing gas limit"] ∧
      ctx.nonces.current lane = 0 ∧ result.2.nonces.current lane = 1 :=
  ⟨by decide, rfl, by decide, rfl, rfl⟩

end TxGen.Materialize
