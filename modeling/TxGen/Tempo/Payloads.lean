import TxGen.Tempo.Operations

set_option autoImplicit false

/-! # What an expiring transaction signs

A build is numbered when its transaction is expiring and has no nonce of its own. This module says what
the transaction of a numbered build is: its terms, which the number does not touch, a maximum fee that
is the base fee plus the bump of the number, and a `valid_before` that may be left open until the
transaction is signed. -/

namespace TxGen

/-! ## Signed fields -/

/-- The fields of a native transaction that its signatures cover, and who pays its fee. -/
structure TempoTransaction where
  request : TempoTransactionRequest
  keyAuthorization : Option KeyAuthorization
  feePayer : Option Address
deriving DecidableEq

/-- `sign_request` or `sign_tempo_expiring`, up to the signatures. The key of the signature is not
    signed. -/
def TempoTxRequest.transaction (tx : TempoTxRequest) (now : Except Report ℕ) :
    Except Report TempoTransaction := do
  let validBefore ← match tx.lateSign with
    | some validForSecs => (validBeforeFromNow now validForSecs).map some
    | none => pure tx.request.validBefore
  return {
    request := { tx.request with validBefore, keyId := none }
    keyAuthorization := tx.keyAuthorization
    feePayer := tx.sponsor.map SelectedSigner.address }

/-! ## Numbers -/

/-- What tells the expiring transactions of a run apart. -/
inductive UniqueIdentity
  /-- The value of the local counter. -/
  | counter (n : ℕ)
  /-- The number of a scenario submission. -/
  | hint (n : ℕ)
deriving DecidableEq

namespace UniqueIdentity

def encoded : UniqueIdentity → ℕ
  | .counter n => 2 * n
  | .hint n => 2 * n + 1

def bump (identity : UniqueIdentity) : ℕ := identity.encoded + 1

/-- The two domains are disjoint, and each is numbered without repetition. -/
theorem bump_inj {a b : UniqueIdentity} : a.bump = b.bump ↔ a = b := by
  cases a <;> cases b <;> simp [bump, encoded] <;> omega

end UniqueIdentity

/-! ## Builds -/

/-- One call of `build_request`. -/
structure TempoBuild where
  template : TempoTemplate
  draws : Draws
  ctx : BuildContext

/-- What a numbered build signs, apart from the maximum fee and `valid_before`. -/
structure TempoTerms where
  gasLimit : ℕ
  maxPriorityFeePerGas : ℕ
  calls : List Call
  feeToken : Option Address
  validAfter : Option ℕ
  keyAuthorization : Option KeyAuthorization
  feePayer : Option Address
deriving DecidableEq

namespace TempoBuild

variable (b : TempoBuild)

/-- The transaction is expiring and has no nonce of its own. -/
def Numbered : Prop :=
  resolveNonceMode b.template (b.template.txType = .tempo) = .ok .expiring ∧ b.template.nonce = none

instance : Decidable b.Numbered := by
  unfold Numbered
  have : DecidableEq (Except Report TempoNonceMode) := inferInstance
  infer_instance

def sender : Except Report Address := b.template.fromAccount.map SelectedSigner.address

def identity : UniqueIdentity :=
  match b.ctx.uniqueNonceHint with
  | some hint => .hint hint
  | none => .counter (b.ctx.nonces.current expiringUniquenessCounterKey)

/-- The context after the number is taken. -/
def numberedCtx : BuildContext :=
  match b.ctx.uniqueNonceHint with
  | some hint => b.ctx.reserveUniqueNonce expiringUniquenessCounterKey hint
  | none => (b.ctx.nextUniqueNonce expiringUniquenessCounterKey).2

/-- A number of the counter is behind it once it is taken. -/
theorem current_numberedCtx {b : TempoBuild} {n : ℕ} (h : b.identity = .counter n) :
    b.numberedCtx.nonces.current expiringUniquenessCounterKey = n + 1 := by
  unfold identity at h
  unfold numberedCtx
  cases hhint : b.ctx.uniqueNonceHint with
  | some hint => simp [hhint] at h
  | none =>
      simp only [hhint, UniqueIdentity.counter.injEq] at h
      simp [BuildContext.nextUniqueNonce, NonceTracker.next, h]

/-- `valid_before`, for a transaction that is signed at the given time. -/
def validBefore (now : Except Report ℕ) : Except Report (Option ℕ) :=
  resolveExpiringValidBefore b.template false
    (if TempoAdapter.isLateSign b.template .expiring b.ctx.deferSigning then now else b.draws.now)

/-- Both transactions may be signed with the same `valid_before`. -/
def MayCoincide (a b : TempoBuild) : Prop :=
  ∃ now now' v, a.validBefore now = .ok v ∧ b.validBefore now' = .ok v

end TempoBuild

/-! ## Counters only advance -/

namespace Build

variable {α : Type}

/-- No counter is lower after the step, whether it fails or not. -/
def Advances (x : Build α) : Prop :=
  ∀ ctx key, ctx.nonces.current key ≤ (x ctx).2.nonces.current key

theorem current_le_run (ctx : BuildContext) (op : ContextOp) (key : SchedulingKey) :
    ctx.nonces.current key ≤ (op.run ctx).nonces.current key := by
  have hnext : ∀ k, ctx.nonces.current key ≤ (ctx.nonces.next k).2.current key := by
    intro k
    simp only [NonceTracker.next, NonceTracker.current_reset]
    split
    · next hk => rw [hk]; omega
    · exact le_rfl
  cases op with
  | nextNonce k => exact hnext k
  | nextUniqueNonce k => exact hnext k
  | reserveUniqueNonce => exact le_rfl
  | initLane k nonce =>
      simp only [ContextOp.run]
      split
      · exact le_rfl
      · -- only a lane without a counter is given one
        rename_i hseen
        simp only [NonceTracker.current_reset]
        split
        · next hk =>
            rw [hk, NonceTracker.current_of_not_contains (Bool.not_eq_true _ ▸ hseen)]
            exact Nat.zero_le _
        · exact le_rfl

/-- Operations lower no counter. -/
theorem Takes.advances {x : Build α} (h : x.Takes) : x.Advances := by
  obtain ⟨ops, hops⟩ := h
  intro ctx key
  rw [hops]
  generalize ops ctx = ops
  induction ops generalizing ctx with
  | nil => exact le_rfl
  | cons op ops ih => exact (current_le_run ctx op key).trans (ih (op.run ctx))

end Build

namespace TempoAdapter

variable (adapter : TempoAdapter)

theorem advances_applyAuth (template : TempoTemplate) (selected : SelectedSigner) :
    (adapter.applyAuth template selected).Advances :=
  (adapter.takes_applyAuth template selected).advances

/-- A build lowers no counter. -/
theorem advances_buildRequest (template : TempoTemplate) (draws : Draws) :
    (adapter.buildRequest template draws).Advances :=
  (adapter.takes_buildRequest template draws).advances

/-! ## Numbered builds -/

def terms (b : TempoBuild) : Except Report TempoTerms := do
  let selected ← b.template.fromAccount
  let calls ← resolveCalls b.template
  let feeToken ← transpose b.template.feeToken
  let (_, keyAuthorization) ← (adapter.applyAuth b.template selected b.numberedCtx).1
  let sponsor ← transpose b.template.sponsor
  return {
    gasLimit := b.template.gasLimit
    maxPriorityFeePerGas :=
      b.template.maxPriorityFeePerGas.getD adapter.gas.maxPriorityFeePerGas
    calls
    feeToken
    validAfter := b.template.validAfter
    keyAuthorization
    feePayer := sponsor.map SelectedSigner.address }

/-- The transaction with the given terms. -/
def expiringTransaction (terms : TempoTerms) (maxFeePerGas : ℕ) (validBefore : Option ℕ) :
    TempoTransaction where
  request := {
    chainId := some adapter.chainId
    nonce := some 0
    gasLimit := some terms.gasLimit
    maxFeePerGas := some maxFeePerGas
    maxPriorityFeePerGas := some terms.maxPriorityFeePerGas
    calls := terms.calls
    nonceKey := some tempoExpiringNonceKey
    feeToken := terms.feeToken
    validAfter := terms.validAfter
    validBefore }
  keyAuthorization := terms.keyAuthorization
  feePayer := terms.feePayer

/-- The maximum fee of a numbered build. -/
def bumpedMaxFee (b : TempoBuild) : ℕ := adapter.baseMaxFee b.template + b.identity.bump

/-- Neither the number nor the fee overflows. -/
def Fits (b : TempoBuild) : Prop :=
  b.identity.encoded < 2 ^ 64 ∧ adapter.bumpedMaxFee b < 2 ^ 128

theorem expiringTransaction_inj {t t' : TempoTerms} {fee fee' : ℕ} {v v' : Option ℕ} :
    adapter.expiringTransaction t fee v = adapter.expiringTransaction t' fee' v' ↔
      t = t' ∧ fee = fee' ∧ v = v' := by
  constructor
  · intro h
    obtain ⟨_, _, _, _, _, _, _⟩ := t
    obtain ⟨_, _, _, _, _, _, _⟩ := t'
    simp only [expiringTransaction, TempoTransaction.mk.injEq,
      TempoTransactionRequest.mk.injEq, Option.some.injEq, true_and, and_true] at h
    simp only [TempoTerms.mk.injEq]
    tauto
  · rintro ⟨rfl, rfl, rfl⟩
    rfl

/-- The number of a build is taken from its context. -/
theorem encodedUniqueness_ok {b : TempoBuild} {encoded : ℕ} {ctx' : BuildContext}
    (h : encodedUniqueness b.ctx = (.ok encoded, ctx')) :
    encoded = b.identity.encoded ∧ encoded < 2 ^ 64 ∧ ctx' = b.numberedCtx := by
  unfold encodedUniqueness at h
  simp only [Build.bind_ok, Build.get_ok] at h
  obtain ⟨_, _, ⟨rfl, rfl⟩, h⟩ := h
  unfold TempoBuild.identity TempoBuild.numberedCtx
  cases hhint : b.ctx.uniqueNonceHint with
  | some hint =>
      simp only [hhint, Build.bind_ok, Build.reserveUniqueNonce_ok, Build.lift_ok, okOr_eq_ok,
        Option.bind_eq_some_iff, checkedMul_eq_some, checkedAdd_eq_some] at h
      obtain ⟨_, _, rfl, ⟨_, ⟨_, rfl⟩, hlt, rfl⟩, rfl⟩ := h
      exact ⟨by simp only [UniqueIdentity.encoded]; omega, hlt, rfl⟩
  | none =>
      simp only [hhint, Build.bind_ok, Build.nextUniqueNonce_ok, Build.lift_ok, okOr_eq_ok,
        checkedMul_eq_some] at h
      obtain ⟨_, _, ⟨rfl, rfl⟩, ⟨hlt, rfl⟩, rfl⟩ := h
      exact ⟨by simp only [UniqueIdentity.encoded]; omega, hlt, rfl⟩

/-- The bump takes the number, and fails when something overflows. -/
theorem applyExpiringUniquenessBump_ok {b : TempoBuild} {req req' : TempoTransactionRequest}
    {ctx' : BuildContext} (h : applyExpiringUniquenessBump req b.ctx = (.ok req', ctx')) :
    ∃ fee, req.maxFeePerGas = some fee ∧ b.identity.encoded < 2 ^ 64 ∧
      fee + b.identity.bump < 2 ^ 128 ∧
      req' = { req with maxFeePerGas := some (fee + b.identity.bump) } ∧
      ctx' = b.numberedCtx := by
  unfold applyExpiringUniquenessBump at h
  simp only [Build.bind_ok, Build.lift_ok, okOr_eq_ok, checkedAdd_eq_some, Build.pure_ok] at h
  obtain ⟨encoded, _, hencoded, fee, _, ⟨hfee, rfl⟩, _, _, ⟨⟨hfits, rfl⟩, rfl⟩, rfl, rfl⟩ := h
  obtain ⟨rfl, hlt, rfl⟩ := encodedUniqueness_ok hencoded
  exact ⟨fee, hfee, hlt, hfits, rfl, rfl⟩

theorem nonZero_ok {value value' : Option ℕ} {message : String} :
    nonZero value message = .ok value' ↔ value ≠ some 0 ∧ value = value' := by
  unfold nonZero
  rw [bind_eq_ok]
  simp [pure, Except.pure]

/-- The window of a deferred payload stays open until it is signed. -/
theorem validBefore_of_late {b : TempoBuild} {validBefore : Option ℕ} (now : Except Report ℕ)
    (hlate : isLateSign b.template .expiring b.ctx.deferSigning = true)
    (h : resolveExpiringValidBefore b.template true b.draws.now = .ok validBefore) :
    ∃ secs, b.template.validForSecs = some secs ∧
      b.validBefore now = (validBeforeFromNow now secs).map some := by
  unfold TempoBuild.validBefore
  rw [if_pos hlate]
  unfold resolveExpiringValidBefore at h ⊢
  cases hbefore : b.template.validBefore <;> cases hsecs : b.template.validForSecs <;>
    simp_all [isLateSign]

/-- What a numbered build returns. -/
theorem buildTempoRequest_ok {b : TempoBuild} {selected : SelectedSigner} {key : SchedulingKey}
    {tx : TempoTxRequest} {ctx' : BuildContext} (hselected : b.template.fromAccount = .ok selected)
    (hnonce : b.template.nonce = none)
    (h : adapter.buildTempoRequest b.template b.draws selected .expiring key 0 b.ctx =
      (.ok tx, ctx')) :
    ∃ terms, adapter.terms b = .ok terms ∧ adapter.Fits b ∧ tx.signer = selected ∧
      (∀ key, b.numberedCtx.nonces.current key ≤ ctx'.nonces.current key) ∧
      ∀ now p, tx.transaction now = .ok p ↔ ∃ v, b.validBefore now = .ok v ∧
        p = adapter.expiringTransaction terms (adapter.bumpedMaxFee b) v := by
  unfold buildTempoRequest at h
  simp only [Build.bind_ok, Build.lift_ok, Build.get_ok, Build.pure_ok, nonZero_ok] at h
  obtain ⟨calls, _, ⟨hcalls, rfl⟩, _, _, ⟨rfl, rfl⟩, validBefore, _, ⟨hbefore, rfl⟩, feeToken, _,
    ⟨hfeeToken, rfl⟩, validAfter, _, ⟨⟨_, rfl⟩, rfl⟩, _, _, ⟨⟨_, rfl⟩, rfl⟩, req, ctx₁, hreq,
    ⟨accessSigner, keyAuthorization⟩, ctx₂, hauth, sponsor, _, ⟨hsponsor, rfl⟩, rfl, rfl⟩ := h
  rw [makeUnique, if_pos ⟨rfl, hnonce⟩] at hreq
  obtain ⟨fee, hfee, hencoded, hfits, rfl, rfl⟩ := applyExpiringUniquenessBump_ok hreq
  obtain rfl : adapter.baseMaxFee b.template = fee := Option.some.inj hfee
  have hterms : adapter.terms b = .ok {
      gasLimit := b.template.gasLimit
      maxPriorityFeePerGas :=
        b.template.maxPriorityFeePerGas.getD adapter.gas.maxPriorityFeePerGas
      calls
      feeToken
      validAfter := b.template.validAfter
      keyAuthorization
      feePayer := sponsor.map SelectedSigner.address } := by
    simp only [terms, bind_eq_ok]
    exact ⟨_, hselected, _, hcalls, _, hfeeToken, (accessSigner, keyAuthorization),
      congrArg Prod.fst hauth, _, hsponsor, rfl⟩
  have hadvances : ∀ key, b.numberedCtx.nonces.current key ≤ ctx₂.nonces.current key := by
    intro key
    have := adapter.advances_applyAuth b.template selected b.numberedCtx key
    rwa [hauth] at this
  refine ⟨_, hterms, ⟨hencoded, hfits⟩, rfl, hadvances, fun now p => ?_⟩
  by_cases hlate : isLateSign b.template .expiring b.ctx.deferSigning = true
  · rw [hlate] at hbefore
    obtain ⟨secs, hsecs, hopen⟩ := validBefore_of_late now hlate hbefore
    simp only [TempoTxRequest.transaction, hlate, if_true, hsecs, hopen, bind_eq_ok]
    constructor
    · rintro ⟨v, hv, hp⟩
      exact ⟨v, hv, (Except.ok.inj hp).symm⟩
    · rintro ⟨v, hv, rfl⟩
      exact ⟨v, hv, rfl⟩
  · rw [Bool.not_eq_true] at hlate
    rw [hlate] at hbefore
    have hset : b.validBefore now = .ok validBefore := by
      rw [TempoBuild.validBefore, hlate]
      exact hbefore
    simp only [TempoTxRequest.transaction, hlate, hset]
    constructor
    · intro hp
      exact ⟨validBefore, rfl, (Except.ok.inj hp).symm⟩
    · rintro ⟨v, hv, rfl⟩
      obtain rfl : validBefore = v := Except.ok.inj hv
      rfl

/-- **A numbered build.** It signs its terms, with the base fee plus the bump of its number. -/
theorem buildRequest_ok {b : TempoBuild} {tx : TempoTxRequest} {ctx' : BuildContext}
    (hb : b.Numbered) (h : adapter.buildRequest b.template b.draws b.ctx = (.ok tx, ctx')) :
    ∃ terms, adapter.terms b = .ok terms ∧ adapter.Fits b ∧ b.sender = .ok tx.signer.address ∧
      (∀ key, b.numberedCtx.nonces.current key ≤ ctx'.nonces.current key) ∧
      ∀ now p, tx.transaction now = .ok p ↔ ∃ v, b.validBefore now = .ok v ∧
        p = adapter.expiringTransaction terms (adapter.bumpedMaxFee b) v := by
  obtain ⟨hmode, hnonce⟩ := hb
  have htempo : b.template.txType = .tempo := by
    by_contra hne
    simp [resolveNonceMode, hne] at hmode
  unfold buildRequest at h
  simp only [Build.bind_ok, Build.lift_ok, htempo, if_true] at h
  rw [htempo] at hmode
  obtain ⟨selected, _, ⟨hselected, rfl⟩, _, _, ⟨_, rfl⟩, mode, _, ⟨hmode', rfl⟩, _, _, ⟨_, rfl⟩,
    nonce, _, hres, h⟩ := h
  obtain rfl : .expiring = mode := Except.ok.inj (hmode.symm.trans hmode')
  obtain ⟨rfl, rfl⟩ : 0 = nonce ∧ b.ctx = _ := by simpa [resolveNonce, hnonce] using hres
  obtain ⟨terms, hterms, hfits, rfl, hadvances, hsigned⟩ :=
    buildTempoRequest_ok adapter hselected hnonce h
  exact ⟨terms, hterms, hfits, by rw [TempoBuild.sender, hselected]; rfl, hadvances, hsigned⟩

end TempoAdapter

end TxGen
