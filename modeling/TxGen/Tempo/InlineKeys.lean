import TxGen.Tempo.Payloads

set_option autoImplicit false

/-! # The inline access key of a build

A build that uses an inline access key takes the last of its reservations for it. -/

namespace TxGen

/-! ## What the parts of a build preserve -/

namespace Build

variable {α β : Type} {I : BuildContext → Prop}

/-- What holds of the context before the step holds after it, whether it fails or not. -/
def Preserves (I : BuildContext → Prop) (x : Build α) : Prop := ∀ ctx, I ctx → I (x ctx).2

theorem Preserves.bind {x : Build α} {f : α → Build β} (hx : x.Preserves I)
    (hf : ∀ a, (f a).Preserves I) : (x >>= f).Preserves I := by
  intro ctx hctx
  have hfirst := hx ctx hctx
  rw [bind_run]
  rcases hrun : x ctx with ⟨e | a, ctx₁⟩
  · rwa [hrun] at hfirst
  · rw [hrun] at hfirst
    exact hf a ctx₁ hfirst

theorem preserves_pure (a : α) : (pure a : Build α).Preserves I := fun _ h => h

theorem preserves_lift (result : Except Report α) : (liftM result : Build α).Preserves I :=
  fun _ h => h

theorem preserves_get : get.Preserves I := fun _ h => h

/-- The rest of a build with a result that is known. -/
theorem Preserves.lift_bind {result : Except Report α} {f : α → Build β}
    (hf : ∀ a, result = .ok a → (f a).Preserves I) : (liftM result >>= f).Preserves I := by
  intro ctx hctx
  rw [bind_run, lift_run]
  cases hresult : result with
  | error e => exact hctx
  | ok a => exact hf a hresult ctx hctx

/-- What every operation preserves, a build preserves. -/
theorem Takes.preserves {x : Build α} (h : x.Takes) (hI : ∀ ctx op, I ctx → I (ContextOp.run ctx op)) :
    x.Preserves I := by
  obtain ⟨ops, hops⟩ := h
  intro ctx hctx
  rw [hops]
  generalize ops ctx = ops
  induction ops generalizing ctx with
  | nil => exact hctx
  | cons op ops ih => exact ih (op.run ctx) (hI ctx op hctx)

end Build

/-- The authentication of a template that uses an inline access key. -/
def TempoTemplate.inlineAuth (template : TempoTemplate) : Option TempoAuthDef :=
  template.auth.filter (·.mode = .keyAuthorization)

theorem TempoTemplate.inlineAuth_eq_some {template : TempoTemplate} {auth : TempoAuthDef} :
    template.inlineAuth = some auth ↔ template.auth = some auth ∧ auth.mode = .keyAuthorization := by
  simp [inlineAuth, Option.filter_eq_some_iff]

namespace TempoAdapter

open Build

variable (adapter : TempoAdapter)

/-- The key of the nonces of a build. -/
def laneKey (template : TempoTemplate) (draws : Draws) : Except Report SchedulingKey := do
  let selected ← template.fromAccount
  let mode ← resolveNonceMode template (template.txType = .tempo)
  return adapter.computeSchedulingKey selected.address mode draws

theorem laneKey_ok {template : TempoTemplate} {draws : Draws} {selected : SelectedSigner}
    {mode : TempoNonceMode} (hselected : template.fromAccount = .ok selected)
    (hmode : resolveNonceMode template (template.txType = .tempo) = .ok mode) :
    adapter.laneKey template draws =
      .ok (adapter.computeSchedulingKey selected.address mode draws) := by
  simp only [laneKey, hselected, hmode]
  rfl

section

variable {adapter} {I : BuildContext → Prop} {template : TempoTemplate} {draws : Draws}

/-- The nonce is taken from its lane only. -/
theorem preserves_resolveNonce {mode : TempoNonceMode} {key : SchedulingKey}
    (hreset : ∀ ctx nonce, I ctx → I { ctx with nonces := ctx.nonces.reset key nonce })
    (hnext : ∀ ctx, I ctx → I (ctx.nextNonce key).2) :
    (adapter.resolveNonce template mode key draws).Preserves I := by
  have hinit : (adapter.initLane draws key).Preserves I := by
    refine preserves_get.bind fun ctx => ?_
    split
    · exact preserves_pure _
    · split
      · exact preserves_lift _
      · exact (preserves_lift _).bind fun nonce ctx => hreset ctx nonce
      · exact preserves_pure _
  have hlazy : (adapter.nextNonceLazy draws key).Preserves I := hinit.bind fun _ ctx => hnext ctx
  unfold resolveNonce
  cases template.nonce with
  | none =>
      cases mode with
      | expiring => exact preserves_pure 0
      | protocol => exact hlazy
      | parallel _ => exact hlazy
  | some nonce =>
      refine (preserves_lift nonce).bind fun nonce => ?_
      dsimp only
      split
      · exact hlazy.bind fun _ => (preserves_lift _).bind fun _ => preserves_pure _
      · exact preserves_pure _

/-- With a number of its own a build leaves the uniqueness counter alone. -/
theorem preserves_makeUnique {mode : TempoNonceMode} {req : TempoTransactionRequest}
    (hhint : ∀ ctx, I ctx → ctx.uniqueNonceHint.isSome = true)
    (hreserve : ∀ ctx key value, I ctx → I (ctx.reserveUniqueNonce key value)) :
    (makeUnique template mode req).Preserves I := by
  have hencoded : encodedUniqueness.Preserves I := by
    intro ctx hctx
    obtain ⟨hint, hsome⟩ := Option.isSome_iff_exists.1 (hhint ctx hctx)
    have hrun : (encodedUniqueness ctx).2 = ctx.reserveUniqueNonce expiringUniquenessCounterKey hint := by
      rw [encodedUniqueness, bind_run]
      simp only [Build.get, hsome]
      rfl
    rw [hrun]
    exact hreserve ctx _ _ hctx
  unfold makeUnique
  split
  · exact hencoded.bind fun _ =>
      (preserves_lift _).bind fun _ => (preserves_lift _).bind fun _ => preserves_pure _
  · exact preserves_pure req

/-- With a number in its group a build leaves the counter of the access keys alone. -/
theorem preserves_applyAuth {selected : SelectedSigner}
    (hhint : template.inlineAuth ≠ none → ∀ ctx, I ctx → ctx.denseUniqueNonceHint.isSome = true)
    (hreserve : ∀ ctx key value, I ctx → I (ctx.reserveUniqueNonce key value)) :
    (adapter.applyAuth template selected).Preserves I := by
  unfold applyAuth
  cases hauth : template.auth with
  | none => exact preserves_pure _
  | some auth =>
      dsimp only
      cases hmode : auth.mode with
      | keychain => exact (preserves_lift _).bind fun _ => preserves_pure _
      | keyAuthorization =>
          refine Preserves.bind ?_ fun _ => (preserves_lift _).bind fun _ => preserves_pure _
          refine (preserves_lift _).bind fun source ctx hctx => ?_
          have hinline : template.inlineAuth ≠ none := by
            rw [TempoTemplate.inlineAuth_eq_some.2 ⟨hauth, hmode⟩]
            simp
          obtain ⟨hint, hsome⟩ := Option.isSome_iff_exists.1 (hhint hinline ctx hctx)
          rw [bind_run]
          simp only [Build.get, hsome]
          refine Preserves.bind (preserves_lift _) (fun offset => ?_) ctx hctx
          exact Preserves.bind (fun ctx h => hreserve ctx _ _ h) fun _ =>
            (preserves_pure _).bind fun _ => preserves_lift _

/-- What each part of a build preserves. -/
theorem preserves_buildRequest
    (hnonce : ∀ mode key, adapter.laneKey template draws = .ok key →
      (adapter.resolveNonce template mode key draws).Preserves I)
    (hunique : ∀ mode req, (makeUnique template mode req).Preserves I)
    (hauth : ∀ selected, (adapter.applyAuth template selected).Preserves I) :
    (adapter.buildRequest template draws).Preserves I := by
  refine Preserves.lift_bind fun selected hselected => (preserves_lift _).bind fun _ =>
    Preserves.lift_bind fun mode hmode => (preserves_lift _).bind fun _ =>
      (hnonce mode _ (adapter.laneKey_ok hselected hmode)).bind fun nonce => ?_
  split
  · refine (preserves_lift _).bind fun _ => preserves_get.bind fun _ => (preserves_lift _).bind fun _ =>
      (preserves_lift _).bind fun _ => (preserves_lift _).bind fun _ => (preserves_lift _).bind fun _ =>
        (hunique mode _).bind fun _ => (hauth selected).bind fun _ =>
          (preserves_lift _).bind fun _ => preserves_pure _
  · exact (preserves_lift _).bind fun _ => preserves_pure _

end

end TempoAdapter

/-! ## The key -/

/-- The index that an inline access key is derived from, with the mnemonic and the start. -/
structure InlineKey where
  mnemonic : String
  start : ℕ
  index : ℕ
deriving DecidableEq

namespace TempoAdapter

variable (adapter : TempoAdapter)

/-- What a build took last from the counter of the access keys. -/
def inlineOffset (reservations : List NonceReservation) : Option ℕ :=
  ((reservations.filter fun r => r.key = adapter.inlineAccessKeyCounterKey ∧ r.kind = .unique).getLast?).map
    (·.nonce)

def inlineKey (auth : TempoAuthDef) (reservations : List NonceReservation) : Option InlineKey :=
  match inlineAccessKeySource auth.accessKey, adapter.inlineOffset reservations with
  | .ok source, some offset => some ⟨source.mnemonic, source.start, source.start + offset⟩
  | _, _ => none

@[simp] theorem inlineOffset_concat (reservations : List NonceReservation) (offset : ℕ) :
    adapter.inlineOffset (reservations ++ [⟨adapter.inlineAccessKeyCounterKey, offset, .unique⟩]) =
      some offset := by
  simp [inlineOffset, List.filter_append]

/-- The source allows the offset, and the index is a `u32`. -/
structure InRange (source : InlineAccessKeySource) (offset : ℕ) : Prop where
  index : source.start + offset < 2 ^ 32
  length : ∀ len, source.len = some len → offset < len

theorem inlineAccessKey_ok {source : InlineAccessKeySource} {offset : ℕ} {signer : Address} :
    adapter.inlineAccessKey source offset = .ok signer ↔ InRange source offset ∧
      adapter.deriveMnemonicSigner source.mnemonic (source.start + offset) = .ok signer := by
  unfold inlineAccessKey
  cases hlen : source.len with
  | none =>
      simp only [bind_eq_ok, bailIf_eq_ok, okOr_eq_ok, checkedAdd_eq_some]
      constructor
      · rintro ⟨_, hu32, _, ⟨hindex, rfl⟩, hsigner⟩
        exact ⟨⟨hindex, by simp [hlen]⟩, hsigner⟩
      · rintro ⟨hrange, hsigner⟩
        have := hrange.index
        exact ⟨(), by omega, _, ⟨hrange.index, rfl⟩, hsigner⟩
  | some len =>
      simp only [bind_eq_ok, bailIf_eq_ok, okOr_eq_ok, checkedAdd_eq_some]
      constructor
      · rintro ⟨_, hu32, _, hlength, _, ⟨hindex, rfl⟩, hsigner⟩
        refine ⟨⟨hindex, fun len' hlen' => ?_⟩, hsigner⟩
        obtain rfl := Option.some.inj (hlen.symm.trans hlen')
        exact Nat.lt_of_not_le hlength
      · rintro ⟨hrange, hsigner⟩
        have := hrange.index
        exact ⟨(), by omega, (), Nat.not_le.2 (hrange.length len hlen), _, ⟨hrange.index, rfl⟩, hsigner⟩

/-- A key that is out of range is an error. -/
theorem inlineAccessKey_error {source : InlineAccessKeySource} {offset : ℕ}
    (h : ¬ InRange source offset) : ∃ e, adapter.inlineAccessKey source offset = .error e := by
  cases hres : adapter.inlineAccessKey source offset with
  | error e => exact ⟨e, rfl⟩
  | ok signer => exact absurd (adapter.inlineAccessKey_ok.1 hres).1 h

/-- How a build got its access key from the context that it authenticated in. -/
structure Derives (auth : TempoAuthDef) (ctx ctx' : BuildContext) (signer : Option Address)
    (offset : ℕ) : Prop where
  key : ∃ source address, inlineAccessKeySource auth.accessKey = .ok source ∧
    adapter.inlineKey auth ctx'.nonceReservations =
      some ⟨source.mnemonic, source.start, source.start + offset⟩ ∧ InRange source offset ∧
    adapter.deriveMnemonicSigner source.mnemonic (source.start + offset) = .ok address ∧
    signer = some address
  hint : ∀ hint, ctx.denseUniqueNonceHint = some hint →
    offset = ctx.nonces.current adapter.inlineAccessKeyCounterKey + hint
  counter : ctx.denseUniqueNonceHint = none →
    offset = ctx.nonces.current adapter.inlineAccessKeyCounterKey ∧
      ctx'.nonces.current adapter.inlineAccessKeyCounterKey = offset + 1

theorem applyAuth_derives {template : TempoTemplate} {auth : TempoAuthDef}
    {selected : SelectedSigner} {ctx ctx' : BuildContext} {signer : Option Address}
    {authorization : Option KeyAuthorization} (hauth : template.inlineAuth = some auth)
    (h : adapter.applyAuth template selected ctx = (.ok (signer, authorization), ctx')) :
    ∃ offset, adapter.Derives auth ctx ctx' signer offset := by
  obtain ⟨hsome, hmode⟩ := TempoTemplate.inlineAuth_eq_some.1 hauth
  unfold applyAuth at h
  simp only [hsome, hmode, Build.bind_ok, Build.lift_ok, Build.pure_ok] at h
  obtain ⟨address, ctx₂, hderive, _, _, ⟨_, rfl⟩, heq, rfl⟩ := h
  obtain ⟨rfl, -⟩ := Prod.mk.inj heq
  simp only [deriveInlineAccessSigner, Build.bind_ok, Build.lift_ok] at hderive
  obtain ⟨source, _, ⟨hsource, rfl⟩, _, ctx₁, hget, hderive⟩ := hderive
  obtain ⟨rfl, rfl⟩ := Build.get_ok.1 hget
  cases hdense : ctx₁.denseUniqueNonceHint with
  | some hint =>
      simp only [hdense, Build.bind_ok, Build.lift_ok, Build.reserveUniqueNonce_ok,
        Build.pure_ok, okOr_eq_ok, checkedAdd_eq_some] at hderive
      obtain ⟨offset, _, ⟨⟨-, rfl⟩, rfl⟩, _, _, rfl, _, _, ⟨rfl, rfl⟩, hkey, rfl⟩ := hderive
      obtain ⟨hrange, hsigner⟩ := adapter.inlineAccessKey_ok.1 hkey
      refine ⟨_, ⟨source, address, hsource, ?_, hrange, hsigner, rfl⟩, fun hint' h => ?_, ?_⟩
      · simp [inlineKey, hsource, BuildContext.reserveUniqueNonce]
      · rw [← Option.some.inj (hdense.symm.trans h)]
      · simp [hdense]
  | none =>
      simp only [hdense, Build.bind_ok, Build.lift_ok, Build.nextUniqueNonce_ok] at hderive
      obtain ⟨offset, _, ⟨rfl, rfl⟩, hkey, rfl⟩ := hderive
      obtain ⟨hrange, hsigner⟩ := adapter.inlineAccessKey_ok.1 hkey
      refine ⟨_, ⟨source, address, hsource, ?_, hrange, hsigner, rfl⟩, ?_, fun _ => ⟨rfl, ?_⟩⟩
      · simp [inlineKey, hsource, BuildContext.nextUniqueNonce, NonceTracker.next]
      · simp [hdense]
      · simp [BuildContext.nextUniqueNonce, NonceTracker.next]

omit adapter in
/-- Only the native type has an authentication. -/
theorem tempo_of_auth {template : TempoTemplate} {u : Unit}
    (h : validateTxTypeFields template = .ok u) (hauth : template.auth.isSome = true) :
    template.txType = .tempo := by
  by_contra hne
  unfold validateTxTypeFields at h
  split at h
  · cases h
  · dsimp only at h
    split at h
    · cases h
    · next hnone =>
        rw [List.find?_eq_none] at hnone
        exact hnone ("auth", template.auth.isSome) (by simp) hauth

/-- A build with an inline access key derives it in a context that the parts before have left. -/
theorem buildRequest_derives {I : BuildContext → Prop} {template : TempoTemplate} {draws : Draws}
    {auth : TempoAuthDef} {ctx ctx' : BuildContext} {tx : TempoTxRequest}
    (hnonce : ∀ mode key, adapter.laneKey template draws = .ok key →
      (adapter.resolveNonce template mode key draws).Preserves I)
    (hunique : ∀ mode req, (makeUnique template mode req).Preserves I)
    (hauth : template.inlineAuth = some auth) (hctx : I ctx)
    (h : adapter.buildRequest template draws ctx = (.ok tx, ctx')) :
    ∃ ctx₁ offset, I ctx₁ ∧ adapter.Derives auth ctx₁ ctx' tx.accessSigner offset := by
  unfold buildRequest at h
  simp only [Build.bind_ok, Build.lift_ok] at h
  obtain ⟨selected, _, ⟨hselected, rfl⟩, _, _, ⟨hvalid, rfl⟩, mode, _, ⟨hmode, rfl⟩, _, _, ⟨_, rfl⟩,
    nonce, ctxNonce, hresolve, h⟩ := h
  have htempo := tempo_of_auth hvalid (by rw [(TempoTemplate.inlineAuth_eq_some.1 hauth).1]; rfl)
  rw [if_pos htempo] at h
  unfold buildTempoRequest at h
  simp only [Build.bind_ok, Build.lift_ok, Build.get_ok, Build.pure_ok] at h
  obtain ⟨calls, _, ⟨_, rfl⟩, _, _, ⟨rfl, rfl⟩, _, _, ⟨_, rfl⟩, _, _, ⟨_, rfl⟩, _, _, ⟨_, rfl⟩, _, _,
    ⟨_, rfl⟩, req, ctxUnique, hreq, ⟨signer, authorization⟩, ctxAuth, happly, _, _, ⟨_, rfl⟩, rfl,
    rfl⟩ := h
  obtain ⟨offset, hderives⟩ := adapter.applyAuth_derives hauth happly
  have hI := hnonce mode _ (adapter.laneKey_ok hselected hmode) ctx hctx
  rw [hresolve] at hI
  have hI' := (congrArg (fun result => I result.2) hreq).mp (hunique mode _ _ hI)
  exact ⟨ctxUnique, offset, hI', hderives⟩

end TempoAdapter

end TxGen
