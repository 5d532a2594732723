import TxGen.Core.Nonce
import TxGen.Scenario.Name

set_option autoImplicit false

/-! # Tempo templates

`TempoTemplate` as one build finds it: every generator expression stands with the value it gets in that
build. A signer is known by its address; secp256k1 is the only signature type. -/

namespace TxGen

abbrev U256 := BitVec 256

/-- What a generator expression evaluates to in one build, or why it fails. -/
abbrev GenValue (α : Type) := Except Report α

/-- A signer selected from a pool. -/
structure SelectedSigner where
  address : Address
  pool : String
  index : ℕ
deriving DecidableEq

inductive TxKind
  | create
  | call (target : Address)
deriving DecidableEq

/-- An encoded contract call. -/
structure EncodedCall where
  target : Address
  value : U256
  input : List UInt8
deriving DecidableEq

inductive TempoTxType
  | legacy
  | eip2930
  | eip1559
  | tempo
deriving DecidableEq

/-- `{:?}` -/
def TempoTxType.debug : TempoTxType → String
  | .legacy => "Legacy"
  | .eip2930 => "Eip2930"
  | .eip1559 => "Eip1559"
  | .tempo => "Tempo"

inductive TempoAuthMode
  /-- Sign with a pre-authorized access key. -/
  | keychain
  /-- Attach an inline key authorization and sign with the authorized access key. -/
  | keyAuthorization
deriving DecidableEq

/-- Access-key selection or derivation config; `pair` and `derive` have one mode each. -/
structure AccessKeyDef where
  fromSetup : Option String := none
  pair : Option Unit := none
  deriveMode : Option Unit := none
  mnemonic : Option String := none
  index : Option ℕ := none
  range : Option (ℕ × ℕ) := none

def AccessKeyDef.hasInlineSourceFields (k : AccessKeyDef) : Bool :=
  k.mnemonic.isSome || k.index.isSome || k.range.isSome

structure TokenLimitDef where
  token : Address
  limit : GenValue U256
  period : ℕ := 0

structure SelectorRule where
  selector : BitVec 32
  recipients : List Address := []
deriving DecidableEq

structure CallScope where
  target : Address
  selectorRules : List SelectorRule := []
deriving DecidableEq

inductive AllowedCallsDef
  | unrestricted
  /-- Scoped mode with no allowed calls. -/
  | denyAll
  | scopes (scopes : List CallScope)

/-- `none` means unrestricted; an empty list denies all calls. -/
def resolveAllowedCalls : Option AllowedCallsDef → Option (List CallScope)
  | none | some .unrestricted => none
  | some .denyAll => some []
  | some (.scopes scopes) => some scopes

structure TempoAuthDef where
  mode : TempoAuthMode
  accessKey : Option AccessKeyDef := none
  expiry : Option ℕ := none
  limits : Option (List TokenLimitDef) := none
  allowedCalls : Option AllowedCallsDef := none
  witness : Option (GenValue (BitVec 256)) := none

structure TempoTemplate where
  txType : TempoTxType
  fromAccount : GenValue SelectedSigner
  gasLimit : ℕ
  value : GenValue U256 := .ok 0
  toAddress : Option (GenValue Address) := none
  input : Option (GenValue (List UInt8)) := none
  call : Option (GenValue EncodedCall) := none
  gasPrice : Option ℕ := none
  maxFeePerGas : Option ℕ := none
  maxPriorityFeePerGas : Option ℕ := none
  nonceKey : Option (GenValue U256) := none
  nonce : Option (GenValue ℕ) := none
  expiringNonce : Bool := false
  feeToken : Option (GenValue Address) := none
  sponsor : Option (GenValue SelectedSigner) := none
  validAfter : Option ℕ := none
  validBefore : Option ℕ := none
  validForSecs : Option ℕ := none
  calls : Option (List (GenValue EncodedCall)) := none
  auth : Option TempoAuthDef := none

/-! ## Requests -/

structure Call where
  kind : TxKind
  value : U256
  input : List UInt8
deriving DecidableEq

structure TokenLimit where
  token : Address
  limit : U256
  period : ℕ
deriving DecidableEq

/-- The authorization of an access key, before it is signed. -/
structure KeyAuthorization where
  chainId : ℕ
  keyId : Address
  expiry : Option ℕ := none
  limits : Option (List TokenLimit) := none
  allowedCalls : Option (List CallScope) := none
  witness : Option (BitVec 256) := none
deriving DecidableEq

/-- `kind`, `value`, `input`, `gasPrice` and `accessList` are set for the Ethereum types only. -/
structure TempoTransactionRequest where
  chainId : Option ℕ := none
  nonce : Option ℕ := none
  gasLimit : Option ℕ := none
  maxFeePerGas : Option ℕ := none
  maxPriorityFeePerGas : Option ℕ := none
  calls : List Call := []
  nonceKey : Option U256 := none
  feeToken : Option Address := none
  validAfter : Option ℕ := none
  validBefore : Option ℕ := none
  keyId : Option Address := none
  kind : Option TxKind := none
  value : Option U256 := none
  input : Option (List UInt8) := none
  gasPrice : Option ℕ := none
  accessList : Option (List Address) := none
deriving DecidableEq

/-- What `build_request` returns: the request, who signs it, and what is attached to it when it is
    signed. `accessSigner` signs instead of the sender; `lateSign` is the window of a payload whose
    `valid_before` is assigned at send time. -/
structure TempoTxRequest where
  request : TempoTransactionRequest
  signer : SelectedSigner
  key : SchedulingKey
  accessSigner : Option Address := none
  keyAuthorization : Option KeyAuthorization := none
  sponsor : Option SelectedSigner := none
  lateSign : Option ℕ := none
deriving DecidableEq

end TxGen
