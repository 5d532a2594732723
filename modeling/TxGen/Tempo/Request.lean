import TxGen.Core.Build
import TxGen.Core.Bytes
import TxGen.Tempo.Template

set_option autoImplicit false

/-! # Building a Tempo request

`TempoAdapter::build_request`. What it does not compute itself is given: the context of a run
(`TempoAdapter`) and, for one build, what the clock, the node and the random number generator answer
(`Draws`). -/

namespace TxGen

/-! ## Checked arithmetic -/

/-- `checked_add` of integers of `width` bits -/
def checkedAdd (width a b : ℕ) : Option ℕ := if a + b < 2 ^ width then some (a + b) else none

/-- `checked_mul` -/
def checkedMul (width a b : ℕ) : Option ℕ := if a * b < 2 ^ width then some (a * b) else none

@[simp] theorem checkedAdd_eq_some {width a b c : ℕ} :
    checkedAdd width a b = some c ↔ a + b < 2 ^ width ∧ a + b = c := by
  simp [checkedAdd]

@[simp] theorem checkedMul_eq_some {width a b c : ℕ} :
    checkedMul width a b = some c ↔ a * b < 2 ^ width ∧ a * b = c := by
  simp [checkedMul]

/-! ## What is given -/

structure GasConfig where
  maxFeePerGas : ℕ
  maxPriorityFeePerGas : ℕ

/-- The access keys that a setup step authorized for the accounts of a pool. -/
structure TempoKeychainSetup where
  accountPool : String
  accessKeys : List Address

/-- The adapter and the constants of its chain. `nonceRpc` says, when there is a node to ask, whether
    lanes count pending nonces and were all prepared. -/
structure TempoAdapter where
  chainId : ℕ
  gas : GasConfig
  keychainSetups : List (String × TempoKeychainSetup) := []
  nonceRpc : Option Bool := none
  keccak256 : List UInt8 → BitVec 256
  deriveMnemonicSigner : String → ℕ → Except Report Address

/-- The answers that one build gets: seconds since the Unix epoch, the nonce of a lane on chain, and 20
    random bytes. -/
structure Draws where
  now : Except Report ℕ
  laneNonce : Except Report ℕ
  randomKey : SchedulingKey

/-! ## Nonces and validity -/

inductive TempoNonceMode
  | protocol
  | parallel (nonceKey : U256)
  | expiring
deriving DecidableEq

/-- `TEMPO_EXPIRING_NONCE_KEY`, the largest key -/
def tempoExpiringNonceKey : U256 := BitVec.allOnes 256

/-- `*b"tempo-expiring-seq!!"` -/
def expiringUniquenessCounterKey : SchedulingKey := ⟨0x74656d706f2d6578706972696e672d7365712121#160⟩

def inlineAccessKeyMnemonic : String := "test test test test test test test test test test test junk"

def inlineAccessKeyStartIndex : ℕ := 1000000

/-- Longest expiring-nonce validity window accepted on every hardfork. -/
def tempoExpiringNonceMaxExpirySecs : ℕ := 30

def validateTxTypeFields (template : TempoTemplate) : Except Report Unit :=
  if template.calls.isSome && (template.call.isSome || template.toAddress.isSome || template.input.isSome) then
    bail "`calls` cannot be combined with `call`, `to`, or `input`"
  else if template.txType = .tempo then
    bailIf template.gasPrice.isSome
      "`gas_price` is not supported for `type: tempo`; use `max_fee_per_gas`"
  else
    let tempoOnly := [
      ("calls", template.calls.isSome),
      ("nonce_key", template.nonceKey.isSome),
      ("expiring_nonce", template.expiringNonce),
      ("fee_token", template.feeToken.isSome),
      ("sponsor", template.sponsor.isSome),
      ("valid_after", template.validAfter.isSome),
      ("valid_before", template.validBefore.isSome),
      ("valid_for_secs", template.validForSecs.isSome),
      ("auth", template.auth.isSome)]
    match tempoOnly.find? Prod.snd with
    | some (field, _) => bail s!"`{field}` is only supported for `type: tempo` templates"
    | none => .ok ()

/-- `Option::transpose` -/
def transpose {α : Type} : Option (GenValue α) → Except Report (Option α)
  | none => .ok none
  | some value => value.map some

@[simp] theorem transpose_none {α : Type} : transpose (none : Option (GenValue α)) = .ok none := rfl

def resolveNonceMode (template : TempoTemplate) (isTempo : Bool) : Except Report TempoNonceMode :=
  if !isTempo then .ok .protocol
  else do
    let resolvedNonceKey ← transpose template.nonceKey
    if template.expiringNonce then
      bailIf resolvedNonceKey.isSome
        "expiring nonce templates must not set `nonce_key`; txgen sets the reserved key automatically"
      return .expiring
    else
      let key := resolvedNonceKey.getD 0
      return if key = tempoExpiringNonceKey then .expiring
        else if key = 0 then .protocol
        else .parallel key

def validateValidForSecs (validForSecs : ℕ) : Except Report Unit :=
  bailIf (validForSecs = 0 ∨ validForSecs > tempoExpiringNonceMaxExpirySecs)
    s!"Tempo expiring transactions require `valid_for_secs` in the range 1..={tempoExpiringNonceMaxExpirySecs}"

/-- Validate `valid_for_secs` and add it to the current Unix time. -/
def validBeforeFromNow (now : Except Report ℕ) (validForSecs : ℕ) : Except Report ℕ := do
  validateValidForSecs validForSecs
  let now ← now
  okOr ((checkedAdd 64 now validForSecs).filter (· ≠ 0))
    "Tempo expiring `valid_before` overflowed Unix time"

/-- The absolute `valid_before` of an expiring nonce template; `none` when signing is deferred. -/
def resolveExpiringValidBefore (template : TempoTemplate) (isLateSign : Bool)
    (now : Except Report ℕ) : Except Report (Option ℕ) :=
  match template.validBefore, template.validForSecs with
  | some _, some _ =>
    bail "expiring nonce templates must set either `valid_before` or `valid_for_secs`, not both"
  | none, none =>
    bail "expiring nonce templates require either `valid_before` or `valid_for_secs`"
  | some validBefore, none => .ok (some validBefore)
  | none, some validForSecs =>
    if isLateSign then do
      validateValidForSecs validForSecs
      return none
    else (validBeforeFromNow now validForSecs).map some

/-- Scenario identities use odd values and the counter even ones. -/
def encodedUniqueness : Build ℕ := do
  match (← Build.get).uniqueNonceHint with
  | some hint => do
    Build.reserveUniqueNonce expiringUniquenessCounterKey hint
    okOr ((checkedMul 64 hint 2).bind fun value => checkedAdd 64 value 1)
      "deterministic expiring nonce identity overflow"
  | none => do
    let counter ← Build.nextUniqueNonce expiringUniquenessCounterKey
    okOr (checkedMul 64 counter 2) "expiring nonce uniqueness counter overflow"

/-- Perturb the maximum fee, so that expiring nonce transactions differ. -/
def applyExpiringUniquenessBump (req : TempoTransactionRequest) :
    Build TempoTransactionRequest := do
  let encoded ← encodedUniqueness
  let bump := encoded + 1
  let maxFeePerGas ← okOr req.maxFeePerGas "Tempo expiring transactions require max_fee_per_gas"
  let maxFeePerGas ← okOr (checkedAdd 128 maxFeePerGas bump)
    "expiring nonce max_fee_per_gas overflowed uniqueness bump"
  return { req with maxFeePerGas := some maxFeePerGas }

namespace TempoAdapter

variable (adapter : TempoAdapter)

/-- The stable scheduling key of a 2D nonce lane. -/
def computeParallelSchedulingKey (sender : Address) (nonceKey : U256) : SchedulingKey :=
  let data := toBeBytes 20 sender.toNat ++ toBeBytes 32 nonceKey.toNat
  ⟨(adapter.keccak256 data).extractLsb' 96 160⟩

/-- Expiring nonces use a fresh random key per transaction. -/
def computeSchedulingKey (sender : Address) (mode : TempoNonceMode) (draws : Draws) : SchedulingKey :=
  match mode with
  | .protocol => ⟨sender⟩
  | .parallel nonceKey => adapter.computeParallelSchedulingKey sender nonceKey
  | .expiring => draws.randomKey

/-- Fetch the nonce of a lane that the tracker has not seen before. -/
def initLane (draws : Draws) (key : SchedulingKey) : Build Unit := do
  if (← Build.get).nonces.contains key then return ()
  else
    match adapter.nonceRpc with
    | some true =>
      liftM (m := Except Report) <|
        bail "online Tempo nonce lane was not prepared before synchronous materialization"
    | some false => do
      let nonce ← draws.laneNonce
      Build.resetNonce key nonce
    | none => return ()

def nextNonceLazy (draws : Draws) (key : SchedulingKey) : Build ℕ := do
  adapter.initLane draws key
  Build.nextNonce key

/-- The nonce of a request. -/
def resolveNonce (template : TempoTemplate) (mode : TempoNonceMode) (key : SchedulingKey)
    (draws : Draws) : Build ℕ := do
  match template.nonce with
  | some nonce => do
    let nonce ← nonce
    if mode ≠ .expiring ∧ adapter.nonceRpc = some true then
      let expected ← adapter.nextNonceLazy draws key
      bailIf (nonce ≠ expected)
        s!"explicit nonce {nonce} does not match pending nonce {expected} for the selected Tempo lane"
    return nonce
  | none =>
    match mode with
    | .expiring => return 0
    | _ => adapter.nextNonceLazy draws key

end TempoAdapter

/-! ## Calls -/

/-- Resolve `call`, or the raw `to`/`value`/`input` fields when it is unset. -/
def resolveCallData (template : TempoTemplate) : Except Report (TxKind × U256 × List UInt8) := do
  match template.call with
  | some call =>
    let encoded ← call
    return (.call encoded.target, encoded.value, encoded.input)
  | none =>
    let target ← transpose template.toAddress
    let value ← template.value
    let input ← transpose template.input
    return ((target.map TxKind.call).getD .create, value, input.getD [])

/-- The batched `calls` of a Tempo transaction, or its single call. -/
def resolveCalls (template : TempoTemplate) : Except Report (List Call) := do
  match template.calls with
  | none =>
    let (kind, value, input) ← resolveCallData template
    return [⟨kind, value, input⟩]
  | some callDefs =>
    let encoded ← callDefs.mapM id
    return encoded.map fun call => ⟨.call call.target, call.value, call.input⟩

/-- `build_transaction_request`, for the Ethereum types. -/
def TempoAdapter.buildTransactionRequest (adapter : TempoAdapter) (template : TempoTemplate)
    (nonce : ℕ) : Except Report TempoTransactionRequest := do
  let (kind, value, input) ← resolveCallData template
  let req : TempoTransactionRequest := {
    chainId := some adapter.chainId
    nonce := some nonce
    gasLimit := some template.gasLimit
    kind := some kind
    value := some value
    input := if input = [] then none else some input }
  let gasPrice := template.gasPrice.getD adapter.gas.maxFeePerGas
  return match template.txType with
    | .legacy => { req with gasPrice := some gasPrice }
    | .eip2930 => { req with gasPrice := some gasPrice, accessList := some [] }
    | _ => { req with
        maxFeePerGas := some (template.maxFeePerGas.getD adapter.gas.maxFeePerGas)
        maxPriorityFeePerGas :=
          some (template.maxPriorityFeePerGas.getD adapter.gas.maxPriorityFeePerGas) }

/-! ## Access keys -/

/-- Mnemonic and index window that inline access keys are derived from. -/
structure InlineAccessKeySource where
  mnemonic : String
  start : ℕ
  /-- Number of usable indices, or `none` when unbounded. -/
  len : Option ℕ

def inlineAccessKeySource (accessKey : Option AccessKeyDef) :
    Except Report InlineAccessKeySource := do
  let default := ⟨inlineAccessKeyMnemonic, inlineAccessKeyStartIndex, none⟩
  match accessKey with
  | none => return default
  | some accessKey =>
    bailIf accessKey.fromSetup.isSome
      "`auth.mode: key_authorization` does not support `access_key.from_setup`"
    bailIf accessKey.pair.isSome "`auth.mode: key_authorization` does not support `access_key.pair`"
    bailIf (accessKey.index.isSome ∧ accessKey.range.isSome)
      "inline access_key must set at most one of `index` or `range`"
    match accessKey.mnemonic with
    | none =>
      bailIf accessKey.hasInlineSourceFields
        "inline access_key `index` or `range` requires `mnemonic`"
      return default
    | some mnemonic =>
      match accessKey.index, accessKey.range with
      | some index, _ => return ⟨mnemonic, index, none⟩
      | none, some (first, last) =>
        bailIf (last < first) "inline access_key range end must be >= start"
        bailIf (last - first = 0) "inline access_key range must not be empty"
        return ⟨mnemonic, first, some (last - first)⟩
      | none, none => return ⟨mnemonic, inlineAccessKeyStartIndex, none⟩

def resolveTokenLimits (limits : Option (List TokenLimitDef)) :
    Except Report (Option (List TokenLimit)) :=
  match limits with
  | none => .ok none
  | some limits => do
    let limits ← limits.mapM fun limit => do
      let amount ← limit.limit
      return ⟨limit.token, amount, limit.period⟩
    return some limits

namespace TempoAdapter

variable (adapter : TempoAdapter)

def inlineAccessKeyCounterKey : SchedulingKey :=
  ⟨(adapter.keccak256 "txgen:tempo:inline-access-key".toUTF8.data.toList).extractLsb' 96 160⟩

/-- The access key with the given number. -/
def inlineAccessKey (source : InlineAccessKeySource) (offset : ℕ) : Except Report Address := do
  bailIf (2 ^ 32 ≤ offset) "inline key_authorization access-key counter exceeded u32"
  match source.len with
  | some len =>
    bailIf (len ≤ offset)
      s!"inline access_key range exhausted after {len} key(s); increase `access_key.range`"
  | none => pure ()
  let index ← okOr (checkedAdd 32 source.start offset)
    "inline key_authorization access-key index overflowed"
  adapter.deriveMnemonicSigner source.mnemonic index

def deriveInlineAccessSigner (auth : TempoAuthDef) : Build Address := do
  let source ← inlineAccessKeySource auth.accessKey
  let counterKey := adapter.inlineAccessKeyCounterKey
  let ctx ← Build.get
  let offset ← match ctx.denseUniqueNonceHint with
    | some hint => do
      let offset ← okOr (checkedAdd 64 (ctx.nonces.current counterKey) hint)
        "deterministic inline access-key identity overflow"
      Build.reserveUniqueNonce counterKey offset
      pure offset
    | none => Build.nextUniqueNonce counterKey
  adapter.inlineAccessKey source offset

def buildKeyAuthorization (auth : TempoAuthDef) (keyId : Address) :
    Except Report KeyAuthorization := do
  bailIf (auth.expiry = some 0) "key_authorization expiry must be greater than 0"
  let limits ← resolveTokenLimits auth.limits
  let witness ← transpose auth.witness
  return {
    chainId := adapter.chainId
    keyId
    expiry := auth.expiry
    limits
    allowedCalls := resolveAllowedCalls auth.allowedCalls
    witness }

def resolveSetupAccessSigner (auth : TempoAuthDef) (selected : SelectedSigner) :
    Except Report Address := do
  bailIf (auth.expiry.isSome ∨ auth.limits.isSome ∨ auth.allowedCalls.isSome ∨ auth.witness.isSome)
    "`auth.mode: keychain` uses restrictions from its setup step; put expiry, limits, allowed_calls, and witness on the setup or use `key_authorization`"
  let accessKey ← okOr auth.accessKey "`auth.mode: keychain` requires `access_key`"
  bailIf accessKey.deriveMode.isSome "`auth.mode: keychain` does not support `access_key.derive`"
  bailIf accessKey.hasInlineSourceFields
    "`auth.mode: keychain` does not support inline access-key `mnemonic`, `index`, or `range`"
  let setupId ← okOr accessKey.fromSetup "`auth.mode: keychain` requires `access_key.from_setup`"
  let setup ← okOr (adapter.keychainSetups.lookup setupId) s!"keychain setup step '{setupId}' not found"
  bailIf (setup.accountPool ≠ selected.pool)
    s!"keychain setup '{setupId}' was created for account pool '{setup.accountPool}', but template selected pool '{selected.pool}'"
  okOr setup.accessKeys[selected.index]?
    s!"selected account index {selected.index} has no paired access key in setup '{setupId}'"

/-- The access key that signs, and the authorization that is attached. -/
def applyAuth (template : TempoTemplate) (selected : SelectedSigner) :
    Build (Option Address × Option KeyAuthorization) := do
  match template.auth with
  | none => return (none, none)
  | some auth =>
    match auth.mode with
    | .keychain => do
      let accessSigner ← adapter.resolveSetupAccessSigner auth selected
      return (some accessSigner, none)
    | .keyAuthorization => do
      let accessSigner ← adapter.deriveInlineAccessSigner auth
      let authorization ← adapter.buildKeyAuthorization auth accessSigner
      return (some accessSigner, some authorization)

/-! ## The request -/

/-- `template.max_fee_per_gas`, or the default of the chain. -/
def baseMaxFee (template : TempoTemplate) : ℕ :=
  template.maxFeePerGas.getD adapter.gas.maxFeePerGas

def isLateSign (template : TempoTemplate) (mode : TempoNonceMode) (deferSigning : Bool) : Bool :=
  deferSigning && mode = .expiring && template.validForSecs.isSome && template.auth.isNone

/-- `NonZeroU64::new` -/
def nonZero (value : Option ℕ) (message : String) : Except Report (Option ℕ) := do
  bailIf (value = some 0) message
  return value

/-- The `valid_before` of a native request. -/
def resolveValidBefore (template : TempoTemplate) (mode : TempoNonceMode) (late : Bool)
    (draws : Draws) : Except Report (Option ℕ) :=
  match mode with
  | .expiring => resolveExpiringValidBefore template late draws.now
  | _ => .ok template.validBefore

/-- Only transactions without a nonce of their own are told apart by their fee. -/
def makeUnique (template : TempoTemplate) (mode : TempoNonceMode) (req : TempoTransactionRequest) :
    Build TempoTransactionRequest :=
  if mode = .expiring ∧ template.nonce = none then applyExpiringUniquenessBump req else pure req

/-- The native type. -/
def buildTempoRequest (template : TempoTemplate) (draws : Draws) (selected : SelectedSigner)
    (mode : TempoNonceMode) (key : SchedulingKey) (nonce : ℕ) : Build TempoTxRequest := do
  let calls ← resolveCalls template
  let late := isLateSign template mode (← Build.get).deferSigning
  let validBefore ← resolveValidBefore template mode late draws
  let feeToken ← transpose template.feeToken
  let validAfter ← nonZero template.validAfter
    "Tempo transactions require `valid_after` to be greater than 0"
  let validBefore ← nonZero validBefore
    "Tempo transactions require `valid_before` to be greater than 0"
  let req : TempoTransactionRequest := {
    chainId := some adapter.chainId
    nonce := some nonce
    gasLimit := some template.gasLimit
    maxFeePerGas := some (adapter.baseMaxFee template)
    maxPriorityFeePerGas :=
      some (template.maxPriorityFeePerGas.getD adapter.gas.maxPriorityFeePerGas)
    calls
    nonceKey := match mode with
      | .protocol => none
      | .parallel nonceKey => some nonceKey
      | .expiring => some tempoExpiringNonceKey
    feeToken
    validAfter
    validBefore }
  let req ← makeUnique template mode req
  let (accessSigner, keyAuthorization) ← adapter.applyAuth template selected
  let sponsor ← transpose template.sponsor
  return {
    request := { req with keyId := accessSigner }
    signer := selected
    key
    accessSigner
    keyAuthorization
    sponsor
    lateSign := if late then template.validForSecs else none }

def buildRequest (template : TempoTemplate) (draws : Draws) : Build TempoTxRequest := do
  let selected ← template.fromAccount
  validateTxTypeFields template
  let mode ← resolveNonceMode template (template.txType = .tempo)
  bailIf (mode ≠ .expiring ∧ template.validForSecs.isSome)
    s!"`valid_for_secs` is only supported for expiring Tempo transactions (got {template.validForSecs.getD 0}s on {template.txType.debug})"
  let key := adapter.computeSchedulingKey selected.address mode draws
  let nonce ← adapter.resolveNonce template mode key draws
  if template.txType = .tempo then
    adapter.buildTempoRequest template draws selected mode key nonce
  else
    let request ← adapter.buildTransactionRequest template nonce
    return { request, signer := selected, key }

end TempoAdapter

end TxGen
