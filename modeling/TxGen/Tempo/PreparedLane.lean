import TxGen.Core.Rollback
import TxGen.Tempo.Preparation

set_option autoImplicit false

/-! # The prepared lane

A build selects what its preparation has previewed. It asks the tracker for that lane only, finds it
there, and gives back what it took from it when it fails. -/

namespace TxGen

variable {ρ : Type}

/-! ## The preview -/

namespace TempoSource

variable (source : TempoSource ρ) (accounts : AccountManager ρ)

@[simp] theorem values_txType (rng : ρ) :
    (source.values accounts rng).txType = source.txType := rfl

@[simp] theorem values_expiringNonce (rng : ρ) :
    (source.values accounts rng).expiringNonce = source.expiringNonce := rfl

theorem values_fromAccount (rng : ρ) : (source.values accounts rng).fromAccount =
    (Draw.value (accounts.selectSigner source.fromAccount) rng).1 := rfl

theorem values_nonceKey (rng : ρ) : (source.values accounts rng).nonceKey =
    (source.nonceKey.mapM Draw.value
      (Draw.value (accounts.selectSigner source.fromAccount) rng).2).1 := rfl

end TempoSource

namespace Draw

theorem value_of_ok {α : Type} {draw : Draw ρ α} {rng rng' : ρ} {a : α}
    (h : draw rng = .ok (a, rng')) : draw.value rng = (.ok a, rng') := by
  simp [value, h]

end Draw

namespace TempoSource

theorem transpose_of_draw {source : TempoSource ρ} {rng rng' : ρ} {key : Option U256}
    (h : source.drawNonceKey rng = .ok (key, rng')) :
    transpose (source.nonceKey.mapM Draw.value rng).1 = .ok key := by
  unfold drawNonceKey at h
  cases hsource : source.nonceKey with
  | none =>
      rw [hsource] at h
      rw [← (Draw.pure_ok.1 h).1]
      rfl
  | some nonceKey =>
      rw [hsource] at h
      obtain ⟨a, rng₁, ha, hsome⟩ := Draw.bind_ok.1 h
      rw [← (Draw.pure_ok.1 hsome).1]
      show transpose (some (nonceKey.value rng).1) = _
      rw [Draw.value_of_ok ha]
      rfl

/-- The mode that is drawn is the mode of a template with the drawn nonce key. -/
theorem resolveNonceMode_of_draw {source : TempoSource ρ} {isTempo : Bool} {rng rng' : ρ}
    {mode : TempoNonceMode} (h : source.drawNonceMode isTempo rng = .ok (mode, rng'))
    {template : TempoTemplate} (hexpiring : template.expiringNonce = source.expiringNonce)
    (hkey : template.nonceKey = (source.nonceKey.mapM Draw.value rng).1) :
    resolveNonceMode template isTempo = .ok mode := by
  unfold drawNonceMode at h
  unfold resolveNonceMode
  split at h
  · next hother =>
      rw [if_pos hother, (Draw.pure_ok.1 h).1]
  · next hother =>
      rw [if_neg hother, hkey, hexpiring]
      obtain ⟨key, rng₁, hdraw, h⟩ := Draw.bind_ok.1 h
      rw [transpose_of_draw hdraw]
      show (if source.expiringNonce = true then _ else _ : Except Report TempoNonceMode) = _
      split at h
      · next hset =>
          rw [if_pos hset]
          obtain ⟨_, _, hbail, h⟩ := Draw.bind_ok.1 h
          rw [(Draw.lift_ok.1 hbail).1, ← (Draw.pure_ok.1 h).1]
          rfl
      · next hset =>
          rw [if_neg hset, ← (Draw.pure_ok.1 h).1]
          rfl

/-- **The preview agrees with the build.** What is previewed is what the build that starts from the same
    state of the random number generator selects. -/
theorem preview_agrees {source : TempoSource ρ} {accounts : AccountManager ρ} {rng rng' : ρ}
    {selected : SelectedSigner} {mode : TempoNonceMode}
    (h : TempoAdapter.preview accounts source rng = .ok ((selected, mode), rng')) :
    (source.values accounts rng).fromAccount = .ok selected ∧
      resolveNonceMode (source.values accounts rng) (source.txType = .tempo) = .ok mode := by
  obtain ⟨signer, rng₁, hsigner, h⟩ := Draw.bind_ok.1 h
  obtain ⟨drawn, rng₂, hmode, h⟩ := Draw.bind_ok.1 h
  obtain ⟨hpair, -⟩ := Draw.pure_ok.1 h
  obtain ⟨rfl, rfl⟩ := Prod.mk.inj hpair
  have hvalue := Draw.value_of_ok hsigner
  refine ⟨by rw [values_fromAccount, hvalue], ?_⟩
  refine resolveNonceMode_of_draw hmode rfl ?_
  rw [values_nonceKey, hvalue]

end TempoSource

/-! ## Asking for the lane -/

namespace TempoAdapter

open Build

variable (adapter : TempoAdapter)

/-- `resolveNonce`, with the nonce of a lane as it is given. -/
def resolveNonceVia (laneNonce : SchedulingKey → Build ℕ) (template : TempoTemplate)
    (mode : TempoNonceMode) (key : SchedulingKey) : Build ℕ := do
  match template.nonce with
  | some nonce => do
    let nonce ← nonce
    if mode ≠ .expiring ∧ adapter.nonceRpc = some true then
      let expected ← laneNonce key
      bailIf (nonce ≠ expected)
        s!"explicit nonce {nonce} does not match pending nonce {expected} for the selected Tempo lane"
    return nonce
  | none =>
    match mode with
    | .expiring => return 0
    | _ => laneNonce key

/-- `buildRequest`, with the nonce of a lane as it is given. -/
def buildRequestVia (laneNonce : SchedulingKey → Build ℕ) (template : TempoTemplate)
    (draws : Draws) : Build TempoTxRequest := do
  let selected ← template.fromAccount
  validateTxTypeFields template
  let mode ← resolveNonceMode template (template.txType = .tempo)
  bailIf (mode ≠ .expiring ∧ template.validForSecs.isSome)
    s!"`valid_for_secs` is only supported for expiring Tempo transactions (got {template.validForSecs.getD 0}s on {template.txType.debug})"
  let key := adapter.computeSchedulingKey selected.address mode draws
  let nonce ← adapter.resolveNonceVia laneNonce template mode key
  if template.txType = .tempo then
    adapter.buildTempoRequest template draws selected mode key nonce
  else
    let request ← adapter.buildTransactionRequest template nonce
    return { request, signer := selected, key }

/-- What `buildRequest` does once it has its nonce. -/
def finishRequest (template : TempoTemplate) (draws : Draws) (selected : SelectedSigner)
    (mode : TempoNonceMode) (key : SchedulingKey) (nonce : ℕ) : Build TempoTxRequest :=
  if template.txType = .tempo then
    adapter.buildTempoRequest template draws selected mode key nonce
  else do
    let request ← adapter.buildTransactionRequest template nonce
    return { request, signer := selected, key }

theorem buildRequest_eq_via (template : TempoTemplate) (draws : Draws) :
    adapter.buildRequest template draws =
      adapter.buildRequestVia (adapter.nextNonceLazy draws) template draws := rfl

theorem nextNonceLazy_of_contains (draws : Draws) {key : SchedulingKey} {ctx : BuildContext}
    (h : ctx.nonces.contains key = true) :
    adapter.nextNonceLazy draws key ctx = nextNonce key ctx := by
  have hinit : adapter.initLane draws key ctx = (.ok (), ctx) := by
    show (if ctx.nonces.contains key then _ else _ : Build Unit) ctx = _
    rw [if_pos h]
    rfl
  rw [nextNonceLazy, bind_run, hinit]

/-- The selections of a build, before it resolves its nonce. -/
structure Selects (template : TempoTemplate) (selected : SelectedSigner) (mode : TempoNonceMode) :
    Prop where
  signer : template.fromAccount = .ok selected
  fields : validateTxTypeFields template = .ok ()
  mode : resolveNonceMode template (template.txType = .tempo) = .ok mode

/-- Either a build ends before it resolves its nonce, with its context as it was, or it has selected. -/
theorem buildRequestVia_cases (template : TempoTemplate) (draws : Draws) (ctx : BuildContext) :
    (∃ e, ∀ laneNonce, adapter.buildRequestVia laneNonce template draws ctx = (.error e, ctx)) ∨
      ∃ selected mode, Selects template selected mode ∧ ∀ laneNonce,
        adapter.buildRequestVia laneNonce template draws ctx =
          (adapter.resolveNonceVia laneNonce template mode
            (adapter.computeSchedulingKey selected.address mode draws) >>=
              adapter.finishRequest template draws selected mode
                (adapter.computeSchedulingKey selected.address mode draws)) ctx := by
  unfold buildRequestVia
  simp only [bind_run, lift_run]
  cases hsigner : template.fromAccount with
  | error e => exact .inl ⟨e, fun _ => rfl⟩
  | ok selected =>
      cases hfields : validateTxTypeFields template with
      | error e => exact .inl ⟨e, fun _ => rfl⟩
      | ok _ =>
          cases hmode : resolveNonceMode template (template.txType = .tempo) with
          | error e => exact .inl ⟨e, fun _ => rfl⟩
          | ok mode =>
              dsimp only
              by_cases hvalid : mode ≠ .expiring ∧ template.validForSecs.isSome
              · exact .inl ⟨_, fun _ => by rw [bailIf, if_pos hvalid]; rfl⟩
              · refine .inr ⟨selected, mode, ⟨hsigner, hfields, hmode⟩, fun laneNonce => ?_⟩
                rw [bailIf, if_neg hvalid]
                rfl

/-- The nonce of a lane is asked for at most once, before anything is done with the context. -/
theorem resolveNonceVia_congr {laneNonce laneNonce' : SchedulingKey → Build ℕ}
    (template : TempoTemplate) {mode : TempoNonceMode} {key : SchedulingKey} {ctx : BuildContext}
    (h : mode ≠ .expiring → laneNonce key ctx = laneNonce' key ctx) :
    adapter.resolveNonceVia laneNonce template mode key ctx =
      adapter.resolveNonceVia laneNonce' template mode key ctx := by
  unfold resolveNonceVia
  cases template.nonce with
  | none =>
      cases mode with
      | expiring => rfl
      | protocol | parallel _ => exact h (by simp)
  | some nonce =>
      cases nonce with
      | error e => rfl
      | ok nonce =>
          simp only [bind_run, lift_run]
          split
          · next hpending => rw [bind_run, bind_run, h hpending.1]
          · rfl

theorem buildRequestVia_congr {laneNonce laneNonce' : SchedulingKey → Build ℕ}
    {template : TempoTemplate} {draws : Draws} {ctx : BuildContext}
    (h : ∀ selected mode, Selects template selected mode → mode ≠ .expiring →
      laneNonce (adapter.computeSchedulingKey selected.address mode draws) ctx =
        laneNonce' (adapter.computeSchedulingKey selected.address mode draws) ctx) :
    adapter.buildRequestVia laneNonce template draws ctx =
      adapter.buildRequestVia laneNonce' template draws ctx := by
  rcases adapter.buildRequestVia_cases template draws ctx with
    ⟨e, hfailed⟩ | ⟨selected, mode, hselects, hbuild⟩
  · rw [hfailed, hfailed]
  · rw [hbuild, hbuild, bind_run, bind_run,
      adapter.resolveNonceVia_congr template (h selected mode hselects)]

end TempoAdapter

/-! ## Builds that spare a lane -/

namespace Build

variable {α β : Type} {key lane : SchedulingKey}

/-- The build leaves a lane alone, and reserves consume-once values only. -/
def Spares (lane : SchedulingKey) (x : Build α) : Prop :=
  ∀ ctx, (x ctx).2.nonces.nonces lane = ctx.nonces.nonces lane ∧
    ∃ uniques : List NonceReservation, (∀ r ∈ uniques, r.kind = .unique) ∧
      (x ctx).2.nonceReservations = ctx.nonceReservations ++ uniques

theorem Spares.bind {x : Build α} {f : α → Build β} (hx : x.Spares lane)
    (hf : ∀ a, (f a).Spares lane) : (x >>= f).Spares lane := by
  intro ctx
  have hspared := hx ctx
  rw [bind_run]
  rcases hres : x ctx with ⟨e | a, ctx₁⟩
  all_goals
    rw [hres] at hspared
    obtain ⟨hlane, uniques, hunique, hreserved⟩ := hspared
  · exact ⟨hlane, uniques, hunique, hreserved⟩
  · obtain ⟨hlane', uniques', hunique', hreserved'⟩ := hf a ctx₁
    refine ⟨hlane'.trans hlane, uniques ++ uniques', ?_, ?_⟩
    · exact List.forall_mem_append.2 ⟨hunique, hunique'⟩
    · rw [hreserved', hreserved, List.append_assoc]

/-- A build that leaves its context alone. -/
theorem spares_nothing {x : Build α} (h : ∀ ctx, (x ctx).2 = ctx) : x.Spares lane := by
  intro ctx
  rw [h ctx]
  exact ⟨rfl, [], nofun, (List.append_nil _).symm⟩

theorem spares_pure (a : α) : (pure a : Build α).Spares lane := spares_nothing fun _ => rfl

theorem spares_lift (result : Except Report α) : (liftM result : Build α).Spares lane :=
  spares_nothing fun _ => rfl

theorem spares_get : get.Spares lane := spares_nothing fun _ => rfl

theorem spares_reserveUniqueNonce (value : ℕ) : (reserveUniqueNonce key value).Spares lane :=
  fun _ => ⟨rfl, [⟨key, value, .unique⟩], by simp, rfl⟩

/-- A consume-once value of another key. -/
theorem spares_nextUniqueNonce (h : lane ≠ key) : (nextUniqueNonce key).Spares lane := by
  intro ctx
  refine ⟨?_, [⟨key, ctx.nonces.current key, .unique⟩], by simp, rfl⟩
  simp [nextUniqueNonce, BuildContext.nextUniqueNonce, NonceTracker.next, NonceTracker.reset, h]

end Build

namespace TempoAdapter

open Build

variable (adapter : TempoAdapter) {lane : SchedulingKey}

theorem spares_deriveInlineAccessSigner (auth : TempoAuthDef)
    (h : lane ≠ adapter.inlineAccessKeyCounterKey) :
    (adapter.deriveInlineAccessSigner auth).Spares lane := by
  refine (spares_lift _).bind fun source => spares_get.bind fun ctx => ?_
  cases ctx.denseUniqueNonceHint with
  | some hint =>
      exact (spares_lift _).bind fun _ => (spares_reserveUniqueNonce _).bind fun _ =>
        spares_lift _
  | none => exact (spares_nextUniqueNonce h).bind fun _ => spares_lift _

theorem spares_applyAuth (template : TempoTemplate) (selected : SelectedSigner)
    (h : lane ≠ adapter.inlineAccessKeyCounterKey) :
    (adapter.applyAuth template selected).Spares lane := by
  unfold applyAuth
  cases template.auth with
  | none => exact spares_pure _
  | some auth =>
      dsimp only
      cases auth.mode with
      | keychain => exact (spares_lift _).bind fun _ => spares_pure _
      | keyAuthorization =>
          exact (adapter.spares_deriveInlineAccessSigner auth h).bind fun _ =>
            (spares_lift _).bind fun _ => spares_pure _

/-- Once a build has the nonce of its lane, it does not come back to it. -/
theorem spares_buildTempoRequest (template : TempoTemplate) (draws : Draws)
    (selected : SelectedSigner) {mode : TempoNonceMode} (key : SchedulingKey) (nonce : ℕ)
    (hmode : mode ≠ .expiring) (h : lane ≠ adapter.inlineAccessKeyCounterKey) :
    (adapter.buildTempoRequest template draws selected mode key nonce).Spares lane := by
  have hunique (req : TempoTransactionRequest) : (makeUnique template mode req).Spares lane := by
    rw [makeUnique, if_neg fun hexpiring => hmode hexpiring.1]
    exact spares_pure req
  exact (spares_lift _).bind fun _ => spares_get.bind fun _ => (spares_lift _).bind fun _ =>
    (spares_lift _).bind fun _ => (spares_lift _).bind fun _ => (spares_lift _).bind fun _ =>
      (hunique _).bind fun _ => (adapter.spares_applyAuth template selected h).bind fun _ =>
        (spares_lift _).bind fun _ => spares_pure _

theorem spares_finishRequest (template : TempoTemplate) (draws : Draws)
    (selected : SelectedSigner) {mode : TempoNonceMode} (key : SchedulingKey) (nonce : ℕ)
    (hmode : mode ≠ .expiring) (h : lane ≠ adapter.inlineAccessKeyCounterKey) :
    (adapter.finishRequest template draws selected mode key nonce).Spares lane := by
  unfold finishRequest
  split
  · exact adapter.spares_buildTempoRequest template draws selected key nonce hmode h
  · exact (spares_lift _).bind fun _ => spares_pure _

end TempoAdapter

/-! ## Giving the lane back -/

/-- What a failed build leaves of the lane it asked for: the lane is still known, and it is as it was
    once what the build took is rewound. Where nothing was reserved before the build, that is
    `rollback_nonce_reservations`. -/
structure BuildContext.Recovers (ctx failed : BuildContext) (lane : SchedulingKey) : Prop where
  seen : failed.nonces.contains lane = true
  rewound : ∃ taken, failed.nonceReservations = ctx.nonceReservations ++ taken ∧
    (failed.nonces.rewindOrdered taken).1 = true ∧
    (failed.nonces.rewindOrdered taken).2.nonces lane = ctx.nonces.nonces lane
  rollback : ctx.nonceReservations = [] → failed.rollbackNonceReservations.1 = true ∧
    failed.rollbackNonceReservations.2.nonces.nonces lane = ctx.nonces.nonces lane

namespace NonceTracker

theorem rewindOrdered_append_uniques (t : NonceTracker) (rs : List NonceReservation)
    {uniques : List NonceReservation} (h : ∀ r ∈ uniques, r.kind = .unique) :
    t.rewindOrdered (rs ++ uniques) = t.rewindOrdered rs := by
  induction uniques using List.reverseRecOn with
  | nil => rw [List.append_nil]
  | append_singleton uniques r ih =>
      obtain ⟨hrest, hr⟩ := List.forall_mem_append.1 h
      obtain ⟨key, nonce, kind⟩ := r
      obtain rfl : kind = .unique := hr _ (List.mem_singleton_self _)
      rw [← List.append_assoc, rewindOrdered_concat_unique, ih hrest]

theorem nonces_of_contains {t : NonceTracker} {key : SchedulingKey} (h : t.contains key = true) :
    t.nonces key = some (t.current key) := by
  obtain ⟨nonce, hnonce⟩ := Option.isSome_iff_exists.1 h
  simp [current, hnonce]

end NonceTracker

namespace BuildContext

variable {ctx taken failed : BuildContext} {lane : SchedulingKey}

theorem Recovers.of_rewound (hseen : failed.nonces.contains lane = true)
    (hrewound : ∃ taken, failed.nonceReservations = ctx.nonceReservations ++ taken ∧
      (failed.nonces.rewindOrdered taken).1 = true ∧
      (failed.nonces.rewindOrdered taken).2.nonces lane = ctx.nonces.nonces lane) :
    ctx.Recovers failed lane := by
  refine ⟨hseen, hrewound, fun hnone => ?_⟩
  obtain ⟨taken, hreserved, hok, hback⟩ := hrewound
  rw [hnone, List.nil_append] at hreserved
  show (failed.nonces.rewindOrdered failed.nonceReservations).1 = true ∧
    (failed.nonces.rewindOrdered failed.nonceReservations).2.nonces lane = _
  rw [hreserved]
  exact ⟨hok, hback⟩

/-- Nothing was taken from the lane. -/
theorem Recovers.of_untaken (hlane : ctx.nonces.contains lane = true)
    (hsame : failed.nonces.nonces lane = ctx.nonces.nonces lane)
    {uniques : List NonceReservation} (hunique : ∀ r ∈ uniques, r.kind = .unique)
    (hreserved : failed.nonceReservations = ctx.nonceReservations ++ uniques) :
    ctx.Recovers failed lane := by
  refine .of_rewound ?_ ⟨uniques, hreserved, ?_⟩
  · rw [NonceTracker.contains, hsame]
    exact hlane
  · have hrewind := failed.nonces.rewindOrdered_append_uniques [] hunique
    rw [List.nil_append] at hrewind
    rw [hrewind]
    exact ⟨rfl, hsame⟩

/-- One ordered nonce was taken from the lane. -/
theorem Recovers.of_taken (hlane : ctx.nonces.contains lane = true)
    (hnext : failed.nonces.nonces lane = (ctx.nextNonce lane).2.nonces.nonces lane)
    {uniques : List NonceReservation} (hunique : ∀ r ∈ uniques, r.kind = .unique)
    (hreserved : failed.nonceReservations =
      (ctx.nextNonce lane).2.nonceReservations ++ uniques) :
    ctx.Recovers failed lane := by
  have hnonce : failed.nonces.nonces lane = some (ctx.nonces.current lane + 1) := by
    rw [hnext]
    simp [nextNonce, NonceTracker.next, NonceTracker.reset]
  have hcurrent : failed.nonces.current lane = ctx.nonces.current lane + 1 := by
    simp [NonceTracker.current, hnonce]
  refine .of_rewound (by simp [NonceTracker.contains, hnonce])
    ⟨[⟨lane, ctx.nonces.current lane, .ordered⟩] ++ uniques, ?_, ?_⟩
  · rw [hreserved, ← List.append_assoc]
    rfl
  · -- the consume-once values are skipped, and the nonce is the newest one of its lane
    have hrewind : failed.nonces.rewind lane (ctx.nonces.current lane) =
        (true, failed.nonces.reset lane (ctx.nonces.current lane)) := by
      simp [NonceTracker.rewind, hcurrent]
    rw [NonceTracker.rewindOrdered_append_uniques _ _ hunique]
    simp [NonceTracker.rewindOrdered, NonceTracker.rewindEach, hrewind, NonceTracker.reset,
      NonceTracker.nonces_of_contains hlane]

end BuildContext

/-! ## The build -/

/-- The nonce key that a request of a mode has. -/
def TempoNonceMode.requestKey : TempoNonceMode → Option U256
  | .protocol => none
  | .parallel nonceKey => some nonceKey
  | .expiring => some tempoExpiringNonceKey

namespace TempoAdapter

open Build

variable (adapter : TempoAdapter)

/-- `expiring_nonce` is for native transactions, whose mode it decides. -/
theorem Selects.expiring {template : TempoTemplate} {selected : SelectedSigner}
    {mode : TempoNonceMode} (h : Selects template selected mode)
    (hexpiring : template.expiringNonce = true) : mode = .expiring := by
  have htempo : template.txType = .tempo := by
    by_contra hother
    have hfields := h.fields
    simp only [validateTxTypeFields, if_neg hother] at hfields
    split at hfields
    · simp [bail] at hfields
    · split at hfields
      · simp [bail] at hfields
      · next hnone =>
          rw [List.find?_eq_none] at hnone
          exact hnone ("expiring_nonce", template.expiringNonce) (by simp) hexpiring
  have hmode := h.mode
  simp only [resolveNonceMode, htempo, decide_true, Bool.not_true, Bool.false_eq_true, if_false,
    hexpiring, if_true] at hmode
  obtain ⟨key, -, hmode⟩ := bind_eq_ok.1 hmode
  obtain ⟨_, -, hmode⟩ := bind_eq_ok.1 hmode
  exact (Except.ok.inj hmode).symm

/-- Where the tracker knows the lane, the nonce comes from the lane, and at most that is taken. -/
theorem resolveNonceVia_nextNonce (template : TempoTemplate) {mode : TempoNonceMode}
    (hmode : mode ≠ .expiring) (key : SchedulingKey) (ctx : BuildContext) :
    ((adapter.resolveNonceVia nextNonce template mode key ctx).2 = ctx ∨
      (adapter.resolveNonceVia nextNonce template mode key ctx).2 = (ctx.nextNonce key).2) ∧
    ∀ nonce, (adapter.resolveNonceVia nextNonce template mode key ctx).1 = .ok nonce →
      template.nonce = none ∨ adapter.nonceRpc = some true → nonce = ctx.nonces.current key := by
  have htaken : nextNonce key ctx = (.ok (ctx.nonces.current key), (ctx.nextNonce key).2) := rfl
  unfold resolveNonceVia
  cases template.nonce with
  | none =>
      cases mode with
      | expiring => exact absurd rfl hmode
      | protocol | parallel _ =>
          refine ⟨.inr rfl, fun nonce h _ => ?_⟩
          exact (Except.ok.inj h).symm
  | some explicit =>
      cases explicit with
      | error e => exact ⟨.inl rfl, by rintro _ ⟨⟩⟩
      | ok explicit =>
          simp only [bind_run, lift_run]
          split
          · -- the explicit nonce is compared with the one that the lane hands out
            simp only [bind_run, htaken, lift_run]
            by_cases hsame : explicit = ctx.nonces.current key
            · rw [bailIf, if_neg (not_not_intro hsame)]
              exact ⟨.inr rfl, fun nonce h _ => (Except.ok.inj h).symm.trans hsame⟩
            · rw [bailIf, if_pos hsame]
              exact ⟨.inr rfl, by rintro _ ⟨⟩⟩
          · next hpending =>
              refine ⟨.inl rfl, fun nonce _ hasks => ?_⟩
              rcases hasks with hnone | hpends
              · simp at hnone
              · exact absurd ⟨hmode, hpends⟩ hpending

/-- A build that knows its lane can give it back. -/
theorem buildRequestVia_recovers {template : TempoTemplate} {draws : Draws}
    {selected : SelectedSigner} {mode : TempoNonceMode} {ctx : BuildContext} {key : SchedulingKey}
    (hsigner : template.fromAccount = .ok selected)
    (hresolves : resolveNonceMode template (template.txType = .tempo) = .ok mode)
    (hmode : mode ≠ .expiring)
    (hkey : adapter.computeSchedulingKey selected.address mode draws = key)
    (hseen : ctx.nonces.contains key = true) (hapart : key ≠ adapter.inlineAccessKeyCounterKey) :
    ctx.Recovers (adapter.buildRequestVia nextNonce template draws ctx).2 key := by
  have hself : ctx.Recovers ctx key :=
    .of_untaken hseen rfl (List.forall_mem_nil _) (List.append_nil _).symm
  rcases adapter.buildRequestVia_cases template draws ctx with
    ⟨e, hfailed⟩ | ⟨signer, mode', hselects, hbuild⟩
  · rw [hfailed]
    exact hself
  · obtain rfl := Except.ok.inj (hselects.signer.symm.trans hsigner)
    obtain rfl := Except.ok.inj (hselects.mode.symm.trans hresolves)
    rw [hbuild nextNonce, hkey, bind_run]
    obtain ⟨htaken, -⟩ := adapter.resolveNonceVia_nextNonce template hmode key ctx
    rcases hnonce : adapter.resolveNonceVia nextNonce template mode' key ctx with ⟨e | nonce, ctx₁⟩
    all_goals rw [hnonce] at htaken
    · rcases htaken with rfl | rfl
      · exact hself
      · exact .of_taken hseen rfl (List.forall_mem_nil _) (List.append_nil _).symm
    · -- what follows spares the lane
      obtain ⟨hlane, uniques, hunique, hreserved⟩ :=
        adapter.spares_finishRequest template draws signer key nonce hmode hapart ctx₁
      rcases htaken with rfl | rfl
      · exact .of_untaken hseen hlane hunique hreserved
      · exact .of_taken hseen hlane hunique hreserved

theorem makeUnique_nonce {template : TempoTemplate} {mode : TempoNonceMode}
    {req req' : TempoTransactionRequest} {ctx ctx' : BuildContext}
    (h : makeUnique template mode req ctx = (.ok req', ctx')) :
    req'.nonce = req.nonce ∧ req'.nonceKey = req.nonceKey := by
  unfold makeUnique at h
  split at h
  · simp only [applyExpiringUniquenessBump, bind_ok, lift_ok, pure_ok] at h
    obtain ⟨_, _, _, _, _, _, _, _, _, rfl, _⟩ := h
    exact ⟨rfl, rfl⟩
  · obtain ⟨rfl, -⟩ := pure_ok.1 h
    exact ⟨rfl, rfl⟩

/-- What a native request has from the selections of its build. -/
theorem buildTempoRequest_selected {template : TempoTemplate} {draws : Draws}
    {selected : SelectedSigner} {mode : TempoNonceMode} {key : SchedulingKey} {nonce : ℕ}
    {ctx ctx' : BuildContext} {tx : TempoTxRequest}
    (h : adapter.buildTempoRequest template draws selected mode key nonce ctx = (.ok tx, ctx')) :
    tx.signer = selected ∧ tx.key = key ∧ tx.request.nonceKey = mode.requestKey ∧
      tx.request.nonce = some nonce := by
  unfold buildTempoRequest at h
  simp only [bind_ok, lift_ok, get_ok, pure_ok] at h
  obtain ⟨_, _, -, _, _, -, _, _, -, _, _, -, _, _, -, _, _, -, req, _, hunique, _, _, -, _, _, -,
    rfl, -⟩ := h
  obtain ⟨hnonce, hkey⟩ := makeUnique_nonce hunique
  refine ⟨rfl, rfl, ?_, hnonce⟩
  rw [hkey]
  cases mode <;> rfl

theorem buildTransactionRequest_nonce {template : TempoTemplate} {nonce : ℕ}
    {req : TempoTransactionRequest} (h : adapter.buildTransactionRequest template nonce = .ok req) :
    req.nonceKey = none ∧ req.nonce = some nonce := by
  unfold buildTransactionRequest at h
  obtain ⟨_, -, h⟩ := bind_eq_ok.1 h
  obtain rfl := Except.ok.inj h
  cases template.txType <;> exact ⟨rfl, rfl⟩

theorem finishRequest_selected {template : TempoTemplate} {draws : Draws}
    {selected : SelectedSigner} {mode : TempoNonceMode} {key : SchedulingKey} {nonce : ℕ}
    {ctx ctx' : BuildContext} {tx : TempoTxRequest}
    (hresolves : resolveNonceMode template (template.txType = .tempo) = .ok mode)
    (h : adapter.finishRequest template draws selected mode key nonce ctx = (.ok tx, ctx')) :
    tx.signer = selected ∧ tx.key = key ∧ tx.request.nonceKey = mode.requestKey ∧
      tx.request.nonce = some nonce := by
  unfold finishRequest at h
  split at h
  · exact adapter.buildTempoRequest_selected h
  · next hother =>
      -- the Ethereum types count protocol nonces
      simp only [resolveNonceMode, hother, decide_false, Bool.not_false, if_true] at hresolves
      obtain rfl := Except.ok.inj hresolves
      simp only [bind_ok, lift_ok, pure_ok] at h
      obtain ⟨req, _, ⟨hreq, -⟩, rfl, -⟩ := h
      obtain ⟨hkey, hnonce⟩ := adapter.buildTransactionRequest_nonce hreq
      exact ⟨rfl, rfl, hkey, hnonce⟩

/-- A build that succeeds has the selections of its template. -/
theorem buildRequestVia_selected {laneNonce : SchedulingKey → Build ℕ} {template : TempoTemplate}
    {draws : Draws} {selected : SelectedSigner} {mode : TempoNonceMode} {ctx ctx' : BuildContext}
    {tx : TempoTxRequest} (hsigner : template.fromAccount = .ok selected)
    (hresolves : resolveNonceMode template (template.txType = .tempo) = .ok mode)
    (h : adapter.buildRequestVia laneNonce template draws ctx = (.ok tx, ctx')) :
    tx.signer = selected ∧ tx.key = adapter.computeSchedulingKey selected.address mode draws ∧
      tx.request.nonceKey = mode.requestKey ∧ ∃ nonce, tx.request.nonce = some nonce ∧
        (adapter.resolveNonceVia laneNonce template mode
          (adapter.computeSchedulingKey selected.address mode draws) ctx).1 = .ok nonce := by
  rcases adapter.buildRequestVia_cases template draws ctx with
    ⟨e, hfailed⟩ | ⟨signer, mode', hselects, hbuild⟩
  · rw [hfailed] at h
    simp at h
  · obtain rfl := Except.ok.inj (hselects.signer.symm.trans hsigner)
    obtain rfl := Except.ok.inj (hselects.mode.symm.trans hresolves)
    rw [hbuild laneNonce] at h
    obtain ⟨nonce, ctx₁, hnonce, h⟩ := bind_ok.1 h
    obtain ⟨hsame, hkey, hrequest, hset⟩ := adapter.finishRequest_selected hresolves h
    exact ⟨hsame, hkey, hrequest, nonce, hset, by rw [hnonce]⟩

end TempoAdapter

/-! ## The preparation -/

namespace TempoAdapter

open Build

variable (adapter : TempoAdapter) (accounts : AccountManager ρ)
  (parseTemplate : Yaml → Except Report (TempoSource ρ))
  (fetchLaneNonce : Address → U256 → Bool → Except Report ℕ)

theorem computeSchedulingKey_of_lane {sender : Address} {mode : TempoNonceMode}
    {key : SchedulingKey} {nonceKey : U256} (h : adapter.lane sender mode = some (key, nonceKey))
    (draws : Draws) : mode ≠ .expiring ∧ adapter.computeSchedulingKey sender mode draws = key := by
  cases mode with
  | expiring => cases h
  | protocol | parallel _ => exact ⟨nofun, congrArg Prod.fst (Option.some.inj h)⟩

/-- The lane of a mode is known after its preparation, which has fetched it if it was new. -/
structure LaneReady (selected : SelectedSigner) (key : SchedulingKey) (nonceKey : U256)
    (ctx ctx' : BuildContext) : Prop where
  known : ctx.nonces.contains key = true → ctx' = ctx
  fetched : ctx.nonces.contains key = false → ∃ pending nonce, adapter.nonceRpc = some pending ∧
    fetchLaneNonce selected.address nonceKey pending = .ok nonce ∧
    ctx' = { ctx with nonces := ctx.nonces.reset key nonce }

/-- A preparation does nothing but initialize a lane that the tracker does not know. -/
theorem prepareLane_ctx (value : Yaml) (rng : ρ) (ctx : BuildContext) :
    (adapter.prepareLane accounts parseTemplate fetchLaneNonce value rng ctx).2 = ctx ∨
      ∃ key nonce, ctx.nonces.contains key = false ∧
        (adapter.prepareLane accounts parseTemplate fetchLaneNonce value rng ctx).2 =
          { ctx with nonces := ctx.nonces.reset key nonce } := by
  unfold prepareLane
  simp only [bind_run, lift_run]
  cases wrapErr (parseTemplate value)
      "failed to parse Tempo template while preparing nonce state" with
  | error e => exact .inl rfl
  | ok template =>
      dsimp only
      split
      · exact .inl rfl
      · simp only [bind_run, lift_run]
        rcases preview accounts template rng with e | ⟨⟨selected, mode⟩, _⟩
        · exact .inl rfl
        · dsimp only
          rcases adapter.lane selected.address mode with _ | ⟨key, nonceKey⟩
          · exact .inl rfl
          · simp only [bind_run, Build.get]
            split
            · exact .inl rfl
            · next hunseen =>
                simp only [bind_run, lift_run]
                cases okOr adapter.nonceRpc "online Tempo nonce provider is not initialized" with
                | error e => exact .inl rfl
                | ok pending =>
                    dsimp only
                    cases fetchLaneNonce selected.address nonceKey pending with
                    | error e => exact .inl rfl
                    | ok nonce => exact .inr ⟨key, nonce, by simpa using hunseen, rfl⟩

/-- A preparation that succeeds has previewed the build, and the lane it found is ready. -/
theorem prepareLane_ok {value : Yaml} {rng : ρ} {ctx ctx' : BuildContext}
    (h : adapter.prepareLane accounts parseTemplate fetchLaneNonce value rng ctx = (.ok (), ctx')) :
    ∃ source, parseTemplate value = .ok source ∧ (source.expiringNonce = true ∨
      ∃ selected mode rng', preview accounts source rng = .ok ((selected, mode), rng') ∧
        ∀ key nonceKey, adapter.lane selected.address mode = some (key, nonceKey) →
          adapter.LaneReady fetchLaneNonce selected key nonceKey ctx ctx') := by
  unfold prepareLane at h
  obtain ⟨source, _, hparsed, h⟩ := bind_ok.1 h
  obtain ⟨hparse, rfl⟩ := lift_ok.1 hparsed
  refine ⟨source, wrapErr_eq_ok.1 hparse, ?_⟩
  split at h
  · next hexpiring => exact .inl hexpiring
  · obtain ⟨⟨⟨selected, mode⟩, rng'⟩, _, hpreview, h⟩ := bind_ok.1 h
    obtain ⟨hdraw, rfl⟩ := lift_ok.1 hpreview
    refine .inr ⟨selected, mode, rng', hdraw, fun key nonceKey hlane => ?_⟩
    simp only [hlane] at h
    obtain ⟨c, _, hget, hknown⟩ := bind_ok.1 h
    obtain ⟨rfl, rfl⟩ := get_ok.1 hget
    split at hknown
    · next hseen =>
        obtain ⟨-, rfl⟩ := pure_ok.1 hknown
        exact ⟨fun _ => rfl, fun hunseen => by rw [hseen] at hunseen; cases hunseen⟩
    · next hunseen =>
        obtain ⟨pending, _, hpending, hasked⟩ := bind_ok.1 hknown
        obtain ⟨hrpc, rfl⟩ := lift_ok.1 hpending
        obtain ⟨nonce, _, hnonce, hreset⟩ := bind_ok.1 hasked
        obtain ⟨hfetch, rfl⟩ := lift_ok.1 hnonce
        refine ⟨fun hseen => absurd hseen hunseen, fun _ =>
          ⟨pending, nonce, okOr_eq_ok.1 hrpc, hfetch, ?_⟩⟩
        exact (congrArg Prod.snd hreset).symm

/-! ## The lane is used -/

/-- The build that follows a preparation works on the lane that was prepared. `ctx'` is the context after
    the preparation of `ctx`, and `template` holds the values that the build draws. -/
structure UsesLane (template : TempoTemplate) (draws : Draws) (selected : SelectedSigner)
    (mode : TempoNonceMode) (key : SchedulingKey) (nonceKey : U256) (ctx ctx' : BuildContext) :
    Prop where
  ready : adapter.LaneReady fetchLaneNonce selected key nonceKey ctx ctx'
  seen : ctx'.nonces.contains key = true
  built : ∀ tx c, adapter.buildRequest template draws ctx' = (.ok tx, c) →
    tx.signer = selected ∧ tx.key = key ∧ tx.request.nonceKey = mode.requestKey ∧
      (template.nonce = none ∨ adapter.nonceRpc = some true →
        tx.request.nonce = some (ctx'.nonces.current key))
  /-- Keccak keeps the lane apart from the counter of the inline access keys. -/
  failed : key ≠ adapter.inlineAccessKeyCounterKey → ∀ e c,
    adapter.buildRequest template draws ctx' = (.error e, c) → ctx'.Recovers c key

theorem LaneReady.seen {selected : SelectedSigner} {key : SchedulingKey} {nonceKey : U256}
    {ctx ctx' : BuildContext} (h : adapter.LaneReady fetchLaneNonce selected key nonceKey ctx ctx') :
    ctx'.nonces.contains key = true := by
  cases hseen : ctx.nonces.contains key with
  | true =>
      rw [h.known hseen]
      exact hseen
  | false =>
      obtain ⟨_, nonce, -, -, hctx⟩ := h.fetched hseen
      simp [hctx]

/-- A build whose lanes are all known does not ask the node for any. -/
theorem buildRequest_known {template : TempoTemplate} {draws : Draws} {ctx : BuildContext}
    (h : ∀ selected mode, Selects template selected mode → mode ≠ .expiring →
      ctx.nonces.contains (adapter.computeSchedulingKey selected.address mode draws) = true) :
    adapter.buildRequest template draws ctx = adapter.buildRequestVia nextNonce template draws ctx := by
  rw [buildRequest_eq_via]
  exact adapter.buildRequestVia_congr fun selected mode hselects hmode =>
    adapter.nextNonceLazy_of_contains draws (h selected mode hselects hmode)

/-- **The prepared lane is the lane that is used.** `prepare_request` changes neither the random number
    generator nor a lane that the tracker knows. After it succeeds, the build on the same context is the
    build that takes the nonce of its lane without the check of `next_nonce_lazy`, so that it cannot fail
    there; it selects the signer and the mode of the preview; and the lane of that mode is the one it
    uses, and gives back when it fails. -/
theorem prepared_lane_used (value : Yaml) (ctx : SeededContext ρ) :
    let prepared := adapter.prepareRequest accounts parseTemplate fetchLaneNonce value ctx
    (prepared.2.rng = ctx.rng ∧ ∀ key, ctx.build.nonces.contains key = true →
      prepared.2.build.nonces.nonces key = ctx.build.nonces.nonces key) ∧
    (prepared.1 = .ok () → ∃ source, parseTemplate value = .ok source ∧ ∀ now laneNonce,
      let template := source.values accounts prepared.2.rng
      let draws := source.draws accounts prepared.2.rng now laneNonce
      adapter.buildSource accounts source now laneNonce prepared.2 =
        adapter.buildRequestVia nextNonce template draws prepared.2.build ∧
      (source.expiringNonce = false → ∃ selected mode, template.fromAccount = .ok selected ∧
        resolveNonceMode template (template.txType = .tempo) = .ok mode ∧
        ∀ key nonceKey, adapter.lane selected.address mode = some (key, nonceKey) →
          adapter.UsesLane fetchLaneNonce template draws selected mode key nonceKey ctx.build
            prepared.2.build)) := by
  intro prepared
  refine ⟨⟨rfl, fun key hseen => ?_⟩, fun hok => ?_⟩
  · rcases adapter.prepareLane_ctx accounts parseTemplate fetchLaneNonce value ctx.rng ctx.build with
      hsame | ⟨lane, nonce, hunseen, hreset⟩
    · exact congrArg (fun c => c.nonces.nonces key) hsame
    · have hne : key ≠ lane := by
        rintro rfl
        rw [hseen] at hunseen
        cases hunseen
      refine (congrArg (fun c => c.nonces.nonces key) hreset).trans ?_
      simp [NonceTracker.reset, hne]
  · obtain ⟨source, hparsed, hprepared⟩ :=
      adapter.prepareLane_ok accounts parseTemplate fetchLaneNonce (Prod.ext hok rfl)
    refine ⟨source, hparsed, fun now laneNonce => ?_⟩
    intro template draws
    rcases hprepared with hexpiring | ⟨selected, mode, rng', hpreview, hready⟩
    · -- the template says that its nonce expires, and the build selects no lane
      refine ⟨adapter.buildRequest_known fun signer mode hselects hmode => ?_, fun hlane => ?_⟩
      · exact absurd (hselects.expiring hexpiring) hmode
      · rw [hexpiring] at hlane
        cases hlane
    · obtain ⟨hsigner, hmode⟩ := TempoSource.preview_agrees hpreview
      have hknown : adapter.buildRequest template draws prepared.2.build =
          adapter.buildRequestVia nextNonce template draws prepared.2.build := by
        refine adapter.buildRequest_known fun signer mode' hselects hne => ?_
        obtain rfl := Except.ok.inj (hselects.signer.symm.trans hsigner)
        obtain rfl := Except.ok.inj (hselects.mode.symm.trans hmode)
        cases hlane : adapter.lane signer.address mode' with
        | none => cases mode' <;> simp_all [lane]
        | some found =>
            obtain ⟨key, nonceKey⟩ := found
            rw [(adapter.computeSchedulingKey_of_lane hlane draws).2]
            exact (hready key nonceKey hlane).seen
      refine ⟨hknown, fun _ => ⟨selected, mode, hsigner, hmode, fun key nonceKey hlane => ?_⟩⟩
      obtain ⟨hne, hkey⟩ := adapter.computeSchedulingKey_of_lane hlane draws
      have hseen := (hready key nonceKey hlane).seen
      refine ⟨hready key nonceKey hlane, hseen, fun tx c hbuild => ?_, fun hapart e c hbuild => ?_⟩
      · rw [hknown] at hbuild
        obtain ⟨hsame, htx, hrequest, nonce, hset, hnonce⟩ :=
          adapter.buildRequestVia_selected hsigner hmode hbuild
        rw [hkey] at htx hnonce
        refine ⟨hsame, htx, hrequest, fun hasks => ?_⟩
        rw [hset, (adapter.resolveNonceVia_nextNonce _ hne key _).2 nonce hnonce hasks]
      · have hback : prepared.2.build.Recovers
            (adapter.buildRequestVia nextNonce template draws prepared.2.build).2 key :=
          adapter.buildRequestVia_recovers hsigner hmode hne hkey hseen hapart
        rw [← hknown, hbuild] at hback
        exact hback

end TempoAdapter

namespace PreparationSample

def sender : Address := 0xf39Fd6e51aad88F6F4ce6aB8827279cffFb92266#160

/-- The digests of the sender with the nonce key 42, and of the name of the inline access keys. -/
def digest (data : List UInt8) : BitVec 256 :=
  if data = toBeBytes 20 sender.toNat ++ toBeBytes 32 42 then
    0x9a570a94d70a6117ef24b56e6fb2b998133486162be606e34f4b19088e0c0d34#256
  else 0x4de058d379ad1b6b011b2ef974dffe1498b959fc08ec3b3b2f0919282831149f#256

/-- An adapter whose node counts pending nonces. -/
def tempo : TempoAdapter where
  chainId := 1
  gas := ⟨1000000000, 1000000000⟩
  nonceRpc := some true
  keccak256 := digest
  deriveMnemonicSigner _ _ := bail "no mnemonic"

def users : AccountManager ℕ where
  pools := [("users", [sender])]
  randomIndex _ hlen rng := (⟨0, hlen⟩, rng + 1)
  fillKey rng := (⟨0⟩, rng + 1)

/-- A transfer whose nonce key is a choice of 42 alone. -/
def transfer : TempoSource ℕ where
  txType := .tempo
  fromAccount := ⟨"users", .index 0⟩
  gasLimit := 21000
  toAddress := some (pure 1)
  nonceKey := some fun rng => .ok (42, rng + 1)

def prepared : Except Report Unit × SeededContext ℕ :=
  tempo.prepareRequest users (fun _ => .ok transfer) (fun _ _ _ => .ok 7) .null ⟨{ nonces := {} }, 5⟩

end PreparationSample

open PreparationSample in
/-- The build takes the nonce 7 that was fetched for the lane of its nonce key. -/
theorem prepared_lane_used_sample : ∃ tx c,
    tempo.buildSource users transfer (.ok 0) (.ok 0) prepared.2 = (.ok tx, c) ∧
      tx.key = ⟨0x9a570a94d70a6117ef24b56e6fb2b99813348616#160⟩ ∧ tx.request.nonceKey = some 42 ∧
      tx.request.nonce = some 7 := by
  obtain ⟨-, hused⟩ := tempo.prepared_lane_used users (fun _ => .ok transfer) (fun _ _ _ => .ok 7)
    .null ⟨{ nonces := {} }, 5⟩
  obtain ⟨source, hsource, hused⟩ := hused (by decide)
  obtain rfl := Except.ok.inj hsource
  obtain ⟨-, hlane⟩ := hused (.ok 0) (.ok 0)
  obtain ⟨selected, mode, hselected, hmode, hlane⟩ := hlane rfl
  obtain rfl : ⟨sender, "users", 0⟩ = selected := Except.ok.inj hselected
  obtain rfl : .parallel 42 = mode := Except.ok.inj hmode
  have hlane := hlane ⟨0x9a570a94d70a6117ef24b56e6fb2b99813348616#160⟩ 42 (by decide)
  have hbuilds : (tempo.buildSource users transfer (.ok 0) (.ok 0) prepared.2).1.isOk = true := by
    decide
  rcases hbuild : tempo.buildSource users transfer (.ok 0) (.ok 0) prepared.2 with ⟨e | tx, c⟩
  · rw [hbuild] at hbuilds
    cases hbuilds
  · obtain ⟨-, hkey, hrequest, hnonce⟩ := hlane.built tx c hbuild
    refine ⟨tx, c, rfl, hkey, hrequest, ?_⟩
    rw [hnonce (.inr rfl)]
    decide

end TxGen
