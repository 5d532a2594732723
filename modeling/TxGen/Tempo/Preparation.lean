import TxGen.Abi.Generators
import TxGen.Tempo.Request

set_option autoImplicit false

/-! # Preparing a Tempo request

`TempoAdapter::prepare_request` looks ahead: on a copy of the random number generator it draws the signer
and the nonce key of the build that follows, and fetches the nonce of their lane. Here a template is as it
is parsed, with its expressions still to be drawn; `evaluate` draws them in the order in which
`build_request` resolves them. -/

namespace TxGen

/-! ## Accounts -/

/-- Reference to an account in a pool. -/
structure AccountRef where
  pool : String
  select : SelectMode
deriving DecidableEq

/-- The accounts of a run, and what its random number generator, with states `ρ`, answers. -/
structure AccountManager (ρ : Type) where
  pools : List (String × List Address)
  /-- `random_range(0..len)` -/
  randomIndex : (len : ℕ) → 0 < len → ρ → Fin len × ρ
  /-- `fill_bytes`, for the 20 bytes of a scheduling key -/
  fillKey : ρ → SchedulingKey × ρ

namespace AccountManager

variable {ρ : Type} (accounts : AccountManager ρ)

def getPool (name : String) : Except Report (List Address) :=
  okOr (accounts.pools.lookup name) s!"account pool '{name}' not found"

def getByIndex (pool : String) (index : ℕ) : Except Report Address := do
  let signers ← accounts.getPool pool
  okOr signers[index]? s!"index {index} out of range for pool '{pool}'"

/-- Select a signer from a pool based on the account reference. -/
def selectSigner (account : AccountRef) : Draw ρ SelectedSigner := do
  let index ← match account.select with
    | .random => do
      let signers ← accounts.getPool account.pool
      if h : 0 < signers.length then do
        let index ← modifyGet (accounts.randomIndex signers.length h)
        pure index.val
      else liftM (m := Except Report) (bail s!"account pool '{account.pool}' is empty")
    | .index index => pure index
  let address ← accounts.getByIndex account.pool index
  return ⟨address, account.pool, index⟩

end AccountManager

/-! ## Templates that are not drawn yet -/

section

variable (ρ : Type)

structure TokenLimitSource where
  token : Address
  limit : Draw ρ U256
  period : ℕ := 0

structure TempoAuthSource where
  mode : TempoAuthMode
  accessKey : Option AccessKeyDef := none
  expiry : Option ℕ := none
  limits : Option (List (TokenLimitSource ρ)) := none
  allowedCalls : Option AllowedCallsDef := none
  witness : Option (Draw ρ (BitVec 256)) := none

/-- `TempoTemplate` with its expressions. -/
structure TempoSource where
  txType : TempoTxType
  fromAccount : AccountRef
  gasLimit : ℕ
  value : Draw ρ U256 := pure 0
  toAddress : Option (Draw ρ Address) := none
  input : Option (Draw ρ (List UInt8)) := none
  call : Option (Draw ρ EncodedCall) := none
  gasPrice : Option ℕ := none
  maxFeePerGas : Option ℕ := none
  maxPriorityFeePerGas : Option ℕ := none
  nonceKey : Option (Draw ρ U256) := none
  nonce : Option (Draw ρ ℕ) := none
  expiringNonce : Bool := false
  feeToken : Option (Draw ρ Address) := none
  sponsor : Option AccountRef := none
  validAfter : Option ℕ := none
  validBefore : Option ℕ := none
  validForSecs : Option ℕ := none
  calls : Option (List (Draw ρ EncodedCall)) := none
  auth : Option (TempoAuthSource ρ) := none

/-- A build context with its random number generator. -/
structure SeededContext where
  build : BuildContext
  rng : ρ

end

variable {ρ : Type}

/-! ## Drawing -/

/-- A value that is drawn, or why it is not. A build ends with the first draw that fails, so that it does
    not matter what is drawn after it. -/
def Draw.value {α : Type} (draw : Draw ρ α) : StateM ρ (GenValue α) := fun rng =>
  match draw rng with
  | .ok (a, rng) => (.ok a, rng)
  | .error e => (.error e, rng)

/-- The value of an expression that a build does not resolve. -/
def notResolved {α : Type} : GenValue α := .error []

/-- The fields of a template that say what is called. -/
structure CallFields where
  value : GenValue U256 := notResolved
  toAddress : Option (GenValue Address) := none
  input : Option (GenValue (List UInt8)) := none
  call : Option (GenValue EncodedCall) := none
  calls : Option (List (GenValue EncodedCall)) := none

namespace TempoSource

/-- What `resolve_calls` and `resolve_call_data` draw: with `calls` or `call` set, the other fields are
    not looked at. -/
def drawCalls (source : TempoSource ρ) : StateM ρ CallFields := do
  -- the fields as they are when nothing is drawn
  let unresolved : CallFields := {
    toAddress := source.toAddress.map fun _ => notResolved
    input := source.input.map fun _ => notResolved
    call := source.call.map fun _ => notResolved }
  match source.calls, source.call with
  | some calls, _ => return { unresolved with calls := some (← calls.mapM Draw.value) }
  | none, some call => return { unresolved with call := some (← Draw.value call) }
  | none, none => do
    let toAddress ← source.toAddress.mapM Draw.value
    let value ← Draw.value source.value
    let input ← source.input.mapM Draw.value
    return { unresolved with toAddress, value, input }

/-- Only an inline authorization resolves its limits and its witness. -/
def drawAuth (auth : TempoAuthSource ρ) : StateM ρ TempoAuthDef := do
  let drawLimit (limit : TokenLimitSource ρ) : StateM ρ TokenLimitDef := do
    let amount ← match auth.mode with
      | .keyAuthorization => Draw.value limit.limit
      | .keychain => pure notResolved
    return ⟨limit.token, amount, limit.period⟩
  let limits ← auth.limits.mapM fun limits => limits.mapM drawLimit
  let witness ← match auth.mode with
    | .keyAuthorization => auth.witness.mapM Draw.value
    | .keychain => pure (auth.witness.map fun _ => notResolved)
  return {
    mode := auth.mode
    accessKey := auth.accessKey
    expiry := auth.expiry
    limits
    allowedCalls := auth.allowedCalls
    witness }

/-- The random scheduling key of an expiring nonce. -/
def drawKey (accounts : AccountManager ρ) (mode : Except Report TempoNonceMode) :
    StateM ρ SchedulingKey :=
  if mode = .ok .expiring then modifyGet accounts.fillKey else pure ⟨0⟩

/-- The values that a build resolves, and the random key that an expiring one gets. -/
def evaluate (source : TempoSource ρ) (accounts : AccountManager ρ) :
    StateM ρ (TempoTemplate × SchedulingKey) := do
  let fromAccount ← Draw.value (accounts.selectSigner source.fromAccount)
  let nonceKey ← source.nonceKey.mapM Draw.value
  let selecting : TempoTemplate := {
    txType := source.txType
    fromAccount
    gasLimit := source.gasLimit
    nonceKey
    expiringNonce := source.expiringNonce }
  let randomKey ← drawKey accounts (resolveNonceMode selecting (source.txType = .tempo))
  let nonce ← source.nonce.mapM Draw.value
  let fields ← source.drawCalls
  let feeToken ← source.feeToken.mapM Draw.value
  let auth ← source.auth.mapM drawAuth
  let sponsor ← source.sponsor.mapM fun sponsor => Draw.value (accounts.selectSigner sponsor)
  return ({
    txType := source.txType
    fromAccount
    gasLimit := source.gasLimit
    value := fields.value
    toAddress := fields.toAddress
    input := fields.input
    call := fields.call
    gasPrice := source.gasPrice
    maxFeePerGas := source.maxFeePerGas
    maxPriorityFeePerGas := source.maxPriorityFeePerGas
    nonceKey
    nonce
    expiringNonce := source.expiringNonce
    feeToken
    sponsor
    validAfter := source.validAfter
    validBefore := source.validBefore
    validForSecs := source.validForSecs
    calls := fields.calls
    auth }, randomKey)

/-- The values that a build finds when it starts from a state of the random number generator. -/
def values (source : TempoSource ρ) (accounts : AccountManager ρ) (rng : ρ) : TempoTemplate :=
  (source.evaluate accounts rng).1.1

/-- The clock and the node are asked by the build, the random key is drawn. -/
def draws (source : TempoSource ρ) (accounts : AccountManager ρ) (rng : ρ)
    (now laneNonce : Except Report ℕ) : Draws :=
  ⟨now, laneNonce, (source.evaluate accounts rng).1.2⟩

def drawNonceKey (source : TempoSource ρ) : Draw ρ (Option U256) :=
  match source.nonceKey with
  | some nonceKey => do return some (← nonceKey)
  | none => pure none

/-- `resolve_nonce_mode` on a template that is not drawn yet -/
def drawNonceMode (source : TempoSource ρ) (isTempo : Bool) : Draw ρ TempoNonceMode :=
  if !isTempo then pure .protocol
  else do
    let resolvedNonceKey ← source.drawNonceKey
    if source.expiringNonce then
      bailIf resolvedNonceKey.isSome
        "expiring nonce templates must not set `nonce_key`; txgen sets the reserved key automatically"
      return .expiring
    else
      let key := resolvedNonceKey.getD 0
      return if key = tempoExpiringNonceKey then .expiring
        else if key = 0 then .protocol
        else .parallel key

end TempoSource

/-! ## Preparing and building -/

namespace TempoAdapter

variable (adapter : TempoAdapter) (accounts : AccountManager ρ)

/-- Preview only the signer and nonce-key choices. -/
def preview (source : TempoSource ρ) : Draw ρ (SelectedSigner × TempoNonceMode) := do
  let selected ← accounts.selectSigner source.fromAccount
  let mode ← source.drawNonceMode (source.txType = .tempo)
  return (selected, mode)

/-- The scheduling key and the nonce key of a lane; an expiring nonce has none. -/
def lane (sender : Address) : TempoNonceMode → Option (SchedulingKey × U256)
  | .protocol => some (⟨sender⟩, 0)
  | .parallel nonceKey => some (adapter.computeParallelSchedulingKey sender nonceKey, nonceKey)
  | .expiring => none

/-- What `prepare_request` does with the tracker, the preview drawing from the given state. The node
    answers `fetchLaneNonce` for pending or for latest state. -/
def prepareLane (parseTemplate : Yaml → Except Report (TempoSource ρ))
    (fetchLaneNonce : Address → U256 → Bool → Except Report ℕ) (value : Yaml) (previewRng : ρ) :
    Build Unit := do
  let template ←
    wrapErr (parseTemplate value) "failed to parse Tempo template while preparing nonce state"
  if template.expiringNonce then return ()
  else
    let ((selected, mode), _) ← preview accounts template previewRng
    match adapter.lane selected.address mode with
    | none => return ()
    | some (schedulingKey, nonceKey) =>
      if (← Build.get).nonces.contains schedulingKey then return ()
      else
        let pending ← okOr adapter.nonceRpc "online Tempo nonce provider is not initialized"
        let nonce ← fetchLaneNonce selected.address nonceKey pending
        Build.resetNonce schedulingKey nonce

/-- `prepare_request`: the preview draws from a copy of the generator. -/
def prepareRequest (parseTemplate : Yaml → Except Report (TempoSource ρ))
    (fetchLaneNonce : Address → U256 → Bool → Except Report ℕ) (value : Yaml)
    (ctx : SeededContext ρ) : Except Report Unit × SeededContext ρ :=
  let (result, build) :=
    adapter.prepareLane accounts parseTemplate fetchLaneNonce value ctx.rng ctx.build
  (result, { ctx with build })

/-- `build_request` on a template that is not drawn yet -/
def buildSource (source : TempoSource ρ) (now laneNonce : Except Report ℕ) (ctx : SeededContext ρ) :
    Except Report TempoTxRequest × BuildContext :=
  adapter.buildRequest (source.values accounts ctx.rng)
    (source.draws accounts ctx.rng now laneNonce) ctx.build

end TempoAdapter

end TxGen
