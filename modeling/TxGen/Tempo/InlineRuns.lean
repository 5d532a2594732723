import TxGen.Abi.Types
import TxGen.Lib.System
import TxGen.Scenario.Identities
import TxGen.Tempo.Detection
import TxGen.Tempo.InlineKeys

set_option autoImplicit false

/-! # Inline access keys of a run

The builds of one chain share a tracker. Setup takes the inline access keys from the counter one after
the other; after it the counter stays, and a submission whose template is seen to use one takes the key
at its place in the group, counted from there. -/

namespace TxGen

/-- A chain of a scenario. `parseTemplate` parses a template with what its generators draw in an attempt;
    where it finds an inline access key, the key is written in the template. -/
structure TempoScenario where
  adapter : TempoAdapter
  abi : Abi DynSolType DynSolValue
  chain : String
  steps : List StepDef
  templates : String → Option Yaml
  bindings : Bindings
  parseTemplate : ℕ → Yaml → Except Report TempoTemplate
  written : ∀ attempt value template, parseTemplate attempt value = .ok template →
    template.inlineAuth ≠ none → TemplateWritten value
  distinctKeys : ∀ i submit, submitAt steps i = some submit → submit.withValue.distinctKeys = true

/-- A transaction and what it took from the tracker; `submission` is the instance and the step, unless
    the setup built it. -/
structure InlineBuild where
  submission : Option (ℕ × ℕ)
  template : TempoTemplate
  tx : TempoTxRequest
  reservations : List NonceReservation

structure InlineRun where
  nonces : NonceTracker := {}
  /-- Setup is over. -/
  scenario : Bool := false
  failed : Bool := false
  built : List InlineBuild := []

def InlineBuild.key (adapter : TempoAdapter) (b : InlineBuild) : Option InlineKey :=
  b.template.inlineAuth.bind (adapter.inlineKey · b.reservations)

namespace TempoScenario

variable (chain : TempoScenario)

def uniqueNonceGroup (submit : SubmitStep) : Except Report (Option String) :=
  match chain.templates submit.template with
  | some template => .ok (scenarioUniqueNonceGroup template submit.withValue)
  | none => bail "submit template references were validated"

/-- The template of a submission, as its attempt sees it. -/
def templateOf (submit : SubmitStep) (ctx : RuntimeContext) (attempt : ℕ) :
    Except Report TempoTemplate := do
  let template ← okOr (chain.templates submit.template) "template not found"
  let value ← materializedTemplate chain.abi ctx chain.bindings template submit.withValue
  chain.parseTemplate attempt value

/-- What an attempt of a submission is built from. -/
def attemptOf (inst stepIndex : ℕ) (submit : SubmitStep) (ctx : RuntimeContext) (attempt : ℕ)
    (nonces : NonceTracker) : Except Report (TempoTemplate × BuildContext) := do
  let hint ← uniqueNonceHint chain.chain chain.steps inst stepIndex
  let dense ← denseUniqueNonceHint chain.uniqueNonceGroup chain.chain chain.steps inst stepIndex submit
  let template ← chain.templateOf submit ctx attempt
  return (template, {
    nonces
    uniqueNonceHint := some hint
    denseUniqueNonceHint := dense
    deferSigning := true })

end TempoScenario

/-! ## Runs -/

namespace InlineRun

inductive Label
  /-- A transaction of the setup. -/
  | build (template : TempoTemplate) (draws : Draws) (deferSigning : Bool)
  /-- The setup is done, and scenario instances start. -/
  | startInstances
  /-- A lane is given the nonce that the chain has for it. -/
  | prepare (key : SchedulingKey) (nonce : ℕ)
  /-- An attempt of a submission. -/
  | submit (inst stepIndex : ℕ) (ctx : RuntimeContext) (attempt : ℕ) (draws : Draws)
  /-- A submission failed, and gives its nonces back. -/
  | rewind (position : ℕ)

def build (adapter : TempoAdapter) (s : InlineRun) (template : TempoTemplate) (draws : Draws)
    (deferSigning : Bool) : InlineRun :=
  match adapter.buildRequest template draws { nonces := s.nonces, deferSigning } with
  | (.ok tx, ctx) => { s with
      nonces := ctx.nonces
      built := s.built ++ [⟨none, template, tx, ctx.nonceReservations⟩] }
  | (.error _, ctx) => { s with nonces := ctx.nonces, failed := true }

def attempt (adapter : TempoAdapter) (s : InlineRun) (submission : ℕ × ℕ) (template : TempoTemplate)
    (draws : Draws) (ctx : BuildContext) : InlineRun :=
  match adapter.buildRequest template draws ctx with
  | (.ok tx, ctx) => { s with
      nonces := ctx.nonces
      built := s.built ++ [⟨some submission, template, tx, ctx.nonceReservations⟩] }
  | (.error _, ctx) => { s with nonces := ctx.rollbackNonceReservations.2.nonces }

variable (chain : TempoScenario)

def step (s : InlineRun) : Label → Option InlineRun
  | .build template draws deferSigning =>
    if s.failed ∨ s.scenario then none else some (s.build chain.adapter template draws deferSigning)
  | .startInstances => if s.failed ∨ s.scenario then none else some { s with scenario := true }
  | .prepare key nonce =>
    if ¬ s.scenario then none
    else some (if s.nonces.contains key then s else { s with nonces := s.nonces.reset key nonce })
  | .submit inst stepIndex ctx attempt draws =>
    match submitAt chain.steps stepIndex with
    | none => none
    | some submit =>
      if s.scenario ∧ submit.chain = chain.chain then
        match chain.attemptOf inst stepIndex submit ctx attempt s.nonces with
        | .error _ => some s
        | .ok (template, ctx) => some (s.attempt chain.adapter (inst, stepIndex) template draws ctx)
      else none
  | .rewind position =>
    match s.built[position]? with
    | some b => if b.submission.isSome then
        some { s with nonces := (s.nonces.rewindOrdered b.reservations).2 } else none
    | none => none

end InlineRun

/-- The builds of one chain, with the nonces that the run starts from. -/
def inlineSystem (chain : TempoScenario) (nonces : NonceTracker) :
    System InlineRun InlineRun.Label where
  init := { nonces }
  step := InlineRun.step chain

namespace InlineRun

/-! ## When keys are used once -/

/-- A submission that uses an inline access key has an overlay that is not as a whole an expression, and a
    template with named fields; and no lane has the key of the counter. -/
def Seen (chain : TempoScenario) : InlineRun → Label → Prop
  | _, .prepare key _ => key ≠ chain.adapter.inlineAccessKeyCounterKey
  | _, .submit _ stepIndex ctx attempt draws => ∀ submit value template,
      submitAt chain.steps stepIndex = some submit →
      chain.templates submit.template = some value →
      chain.templateOf submit ctx attempt = .ok template →
      (template.inlineAuth ≠ none → submit.withValue.untagRef.isExpression = false ∧
        (value.merge submit.withValue).untagRef.isSequence = false) ∧
      chain.adapter.laneKey template draws ≠ .ok chain.adapter.inlineAccessKeyCounterKey
  | _, _ => True

/-- The keys of the two builds are different, unless one repeats the submission of the other. -/
def Apart (adapter : TempoAdapter) (x y : InlineBuild) : Prop :=
  ∀ k k', x.key adapter = some k → y.key adapter = some k' → k.mnemonic = k'.mnemonic →
    k.start = k'.start → k.index = k'.index → x.submission = y.submission ∧ x.submission ≠ none

/-- A build with an inline access key signs with the key at its index, which is in its range. -/
def Derived (adapter : TempoAdapter) (x : InlineBuild) : Prop :=
  ∀ auth, x.template.inlineAuth = some auth → ∃ source offset address,
    inlineAccessKeySource auth.accessKey = .ok source ∧
    x.key adapter = some ⟨source.mnemonic, source.start, source.start + offset⟩ ∧
    TempoAdapter.InRange source offset ∧
    adapter.deriveMnemonicSigner source.mnemonic (source.start + offset) = .ok address ∧
    x.tx.accessSigner = some address

/-! ## What a step of the setup does -/

section

variable {adapter : TempoAdapter} {template : TempoTemplate} {draws : Draws} {ctx ctx' : BuildContext}
  {tx : TempoTxRequest} {submission : Option (ℕ × ℕ)}

/-- The key of a build, from how it got its access key. -/
theorem key_of_derives {auth : TempoAuthDef} {offset : ℕ} (submission : Option (ℕ × ℕ)) (hauth : template.inlineAuth = some auth)
    (h : adapter.Derives auth ctx ctx' tx.accessSigner offset) :
    ∃ source, inlineAccessKeySource auth.accessKey = .ok source ∧
      InlineBuild.key adapter ⟨submission, template, tx, ctx'.nonceReservations⟩ =
        some ⟨source.mnemonic, source.start, source.start + offset⟩ := by
  obtain ⟨source, _, hsource, hkey, -⟩ := h.key
  exact ⟨source, hsource, by simp [InlineBuild.key, hauth, hkey]⟩

theorem derived_of_derives {auth : TempoAuthDef} {offset : ℕ}
    (hauth : template.inlineAuth = some auth)
    (h : adapter.Derives auth ctx ctx' tx.accessSigner offset) :
    Derived adapter ⟨submission, template, tx, ctx'.nonceReservations⟩ := by
  intro auth' hauth'
  obtain rfl := Option.some.inj (hauth.symm.trans hauth')
  obtain ⟨source, address, hsource, hkey, hrange, hsigner, htx⟩ := h.key
  refine ⟨source, offset, address, hsource, ?_, hrange, hsigner, htx⟩
  simp [InlineBuild.key, hauth, hkey]

theorem derived_of_none (hauth : template.inlineAuth = none) :
    Derived adapter ⟨submission, template, tx, ctx'.nonceReservations⟩ := by
  intro auth hauth'
  rw [hauth] at hauth'
  cases hauth'

/-- The operations of a build leave its numbers alone, and move the counter on. -/
theorem setup_preserved (n : ℕ) (c : BuildContext) (op : ContextOp)
    (hc : c.denseUniqueNonceHint = none ∧ n ≤ c.nonces.current adapter.inlineAccessKeyCounterKey) :
    (op.run c).denseUniqueNonceHint = none ∧
      n ≤ (op.run c).nonces.current adapter.inlineAccessKeyCounterKey := by
  refine ⟨?_, hc.2.trans (Build.current_le_run c op _)⟩
  cases op with
  | initLane key nonce =>
      simp only [ContextOp.run]
      split
      · exact hc.1
      · exact hc.1
  | _ => exact hc.1

/-- The setup only moves the counter on. -/
theorem current_le_buildRequest (adapter : TempoAdapter) (template : TempoTemplate) (draws : Draws)
    {ctx : BuildContext} (hdense : ctx.denseUniqueNonceHint = none) :
    ctx.nonces.current adapter.inlineAccessKeyCounterKey ≤
      (adapter.buildRequest template draws ctx).2.nonces.current adapter.inlineAccessKeyCounterKey :=
  ((adapter.takes_buildRequest template draws).preserves (setup_preserved _) ctx ⟨hdense, le_rfl⟩).2

/-- An inline access key of the setup is at a place that the counter passes. -/
theorem setup_derives {auth : TempoAuthDef} (hdense : ctx.denseUniqueNonceHint = none)
    (hauth : template.inlineAuth = some auth)
    (h : adapter.buildRequest template draws ctx = (.ok tx, ctx')) :
    ∃ ctx₁ offset, adapter.Derives auth ctx₁ ctx' tx.accessSigner offset ∧
      ctx.nonces.current adapter.inlineAccessKeyCounterKey ≤ offset ∧
      offset < ctx'.nonces.current adapter.inlineAccessKeyCounterKey := by
  obtain ⟨ctx₁, offset, ⟨hdense₁, hle⟩, hderives⟩ := adapter.buildRequest_derives
    (fun mode key _ => (adapter.takes_resolveNonce template mode key draws).preserves
      (setup_preserved _))
    (fun mode req => (TempoAdapter.takes_makeUnique template mode req).preserves (setup_preserved _))
    hauth ⟨hdense, le_rfl⟩ h
  obtain ⟨rfl, hnext⟩ := hderives.counter hdense₁
  exact ⟨ctx₁, _, hderives, hle, by omega⟩

/-- The key of a build of the setup is at a place that the counter passes. -/
theorem setup_key {k : InlineKey} (hdense : ctx.denseUniqueNonceHint = none)
    (h : adapter.buildRequest template draws ctx = (.ok tx, ctx'))
    (hk : InlineBuild.key adapter ⟨none, template, tx, ctx'.nonceReservations⟩ = some k) :
    k.start + ctx.nonces.current adapter.inlineAccessKeyCounterKey ≤ k.index ∧
      k.index < k.start + ctx'.nonces.current adapter.inlineAccessKeyCounterKey := by
  cases hauth : template.inlineAuth with
  | none =>
      rw [InlineBuild.key, hauth] at hk
      cases hk
  | some auth =>
      obtain ⟨_, offset, hderives, hge, hlt⟩ := setup_derives hdense hauth h
      obtain ⟨source, -, hkey⟩ := key_of_derives none hauth hderives
      obtain rfl := Option.some.inj (hkey.symm.trans hk)
      exact ⟨Nat.add_le_add_left hge _, Nat.add_lt_add_left hlt _⟩

theorem setup_derived (hdense : ctx.denseUniqueNonceHint = none)
    (h : adapter.buildRequest template draws ctx = (.ok tx, ctx')) :
    Derived adapter ⟨none, template, tx, ctx'.nonceReservations⟩ := by
  cases hauth : template.inlineAuth with
  | none => exact derived_of_none hauth
  | some auth =>
      obtain ⟨_, offset, hderives, -⟩ := setup_derives hdense hauth h
      exact derived_of_derives hauth hderives

/-! ## What a submission does -/

/-- The build has the numbers `hint` and `dense`, the counter is at `n`, and its nonces are of other
    lanes. -/
structure Reserved (adapter : TempoAdapter) (hint : ℕ) (dense : Option ℕ) (n : ℕ)
    (ctx : BuildContext) : Prop where
  hint : ctx.uniqueNonceHint = some hint
  dense : ctx.denseUniqueNonceHint = dense
  counter : ctx.nonces.current adapter.inlineAccessKeyCounterKey = n
  apart : ∀ r ∈ ctx.nonceReservations, r.kind = .ordered → r.key ≠ adapter.inlineAccessKeyCounterKey

variable {hint n : ℕ} {dense : Option ℕ}

theorem Reserved.reserveUniqueNonce {c : BuildContext} (h : Reserved adapter hint dense n c)
    (key : SchedulingKey) (value : ℕ) : Reserved adapter hint dense n (c.reserveUniqueNonce key value) := by
  refine ⟨h.hint, h.dense, h.counter, List.forall_mem_append.2 ⟨h.apart, ?_⟩⟩
  simp

theorem Reserved.resolveNonce {mode : TempoNonceMode} {key : SchedulingKey}
    (hkey : key ≠ adapter.inlineAccessKeyCounterKey) :
    (adapter.resolveNonce template mode key draws).Preserves (Reserved adapter hint dense n) := by
  refine adapter.preserves_resolveNonce (fun c nonce hc => ⟨hc.hint, hc.dense, ?_, hc.apart⟩)
    fun c hc => ⟨hc.hint, hc.dense, ?_, List.forall_mem_append.2 ⟨hc.apart, ?_⟩⟩
  · simpa [hkey.symm] using hc.counter
  · simpa [BuildContext.nextNonce, NonceTracker.next, hkey.symm] using hc.counter
  · simpa using hkey

theorem Reserved.makeUnique {mode : TempoNonceMode} {req : TempoTransactionRequest} :
    (TempoAdapter.makeUnique template mode req).Preserves (Reserved adapter hint dense n) :=
  TempoAdapter.preserves_makeUnique (fun c hc => by simp [hc.hint]) fun c key value hc =>
    hc.reserveUniqueNonce key value

/-- A submission leaves the counter alone. -/
theorem Reserved.buildRequest
    (hlane : adapter.laneKey template draws ≠ .ok adapter.inlineAccessKeyCounterKey)
    (hdense : template.inlineAuth ≠ none → dense.isSome = true) :
    (adapter.buildRequest template draws).Preserves (Reserved adapter hint dense n) := by
  refine adapter.preserves_buildRequest (fun mode key hkey => Reserved.resolveNonce ?_)
    (fun mode req => Reserved.makeUnique) fun selected => ?_
  · rintro rfl
    exact hlane hkey
  · exact adapter.preserves_applyAuth (fun hinline c hc => by rw [hc.dense]; exact hdense hinline)
      fun c key value hc => hc.reserveUniqueNonce key value

/-- An inline access key of a submission is at its place in the group, counted from the counter. -/
theorem submission_derives {auth : TempoAuthDef} {place : ℕ}
    (hctx : Reserved adapter hint (some place) n ctx)
    (hlane : adapter.laneKey template draws ≠ .ok adapter.inlineAccessKeyCounterKey)
    (hauth : template.inlineAuth = some auth)
    (h : adapter.buildRequest template draws ctx = (.ok tx, ctx')) :
    ∃ ctx₁, adapter.Derives auth ctx₁ ctx' tx.accessSigner (n + place) := by
  obtain ⟨ctx₁, offset, hctx₁, hderives⟩ := adapter.buildRequest_derives
    (fun mode key hkey => Reserved.resolveNonce fun he => hlane (he ▸ hkey))
    (fun mode req => Reserved.makeUnique) hauth hctx h
  have hoffset := hderives.hint place hctx₁.dense
  rw [hctx₁.counter] at hoffset
  exact ⟨ctx₁, hoffset ▸ hderives⟩

end

end InlineRun

/-! ## Places in the group -/

namespace TempoScenario

variable {chain : TempoScenario}

/-- The submission has a place among those with an inline access key. -/
structure Placed (chain : TempoScenario) (inst stepIndex place : ℕ) : Prop where
  member : Rank.IsMember (StepDef.inGroup chain.uniqueNonceGroup chain.chain inlineAccessKeyGroup)
    chain.steps stepIndex
  identity : denseIdentity chain.uniqueNonceGroup chain.chain chain.steps inst stepIndex =
    .ok (some place)

/-- A place is the place of one submission. -/
theorem Placed.unique {inst inst' i j place : ℕ} (h : chain.Placed inst i place)
    (h' : chain.Placed inst' j place) : inst = inst' ∧ i = j := by
  have hgroups : ∃ groups, chainGroups chain.uniqueNonceGroup chain.chain chain.steps 0 = .ok groups := by
    have hidentity := h.identity
    unfold denseIdentity at hidentity
    split at hidentity
    · simp only [denseUniqueNonceHint, bind_eq_ok] at hidentity
      obtain ⟨group, -, hidentity⟩ := hidentity
      cases group with
      | none => cases hidentity
      | some group =>
          obtain ⟨groups, hgroups, -⟩ := bind_eq_ok.1 hidentity
          exact ⟨groups, hgroups⟩
    · cases hidentity
  obtain ⟨groups, hgroups⟩ := hgroups
  exact ((denseIdentity_dense hgroups _).injective h.member h'.member h.identity h'.identity).1 rfl

theorem attemptOf_ok {inst stepIndex attempt : ℕ} {submit : SubmitStep} {ctx : RuntimeContext}
    {nonces : NonceTracker} {template : TempoTemplate} {context : BuildContext}
    (h : chain.attemptOf inst stepIndex submit ctx attempt nonces = .ok (template, context)) :
    ∃ hint dense, chain.templateOf submit ctx attempt = .ok template ∧
      denseUniqueNonceHint chain.uniqueNonceGroup chain.chain chain.steps inst stepIndex submit =
        .ok dense ∧
      context = {
        nonces
        uniqueNonceHint := some hint
        denseUniqueNonceHint := dense
        deferSigning := true } := by
  simp only [attemptOf, bind_eq_ok] at h
  obtain ⟨hint, -, dense, hdense, template', htemplate, heq⟩ := h
  obtain ⟨rfl, rfl⟩ := Prod.mk.inj (Except.ok.inj heq)
  exact ⟨hint, dense, htemplate, hdense, rfl⟩

/-- A template that uses an inline access key has its step in the group. -/
theorem group_of_templateOf {stepIndex attempt : ℕ} {submit : SubmitStep} {ctx : RuntimeContext}
    {value : Yaml} {template : TempoTemplate} (hsubmit : submitAt chain.steps stepIndex = some submit)
    (hvalue : chain.templates submit.template = some value)
    (htemplate : chain.templateOf submit ctx attempt = .ok template)
    (hinline : template.inlineAuth ≠ none) (hplain : submit.withValue.untagRef.isExpression = false)
    (hfields : (value.merge submit.withValue).untagRef.isSequence = false) :
    chain.uniqueNonceGroup submit = .ok (some inlineAccessKeyGroup) := by
  simp only [templateOf, hvalue, bind_eq_ok] at htemplate
  obtain ⟨_, heq, final, hfinal, hparse⟩ := htemplate
  obtain rfl := Except.ok.inj heq
  simp only [uniqueNonceGroup, hvalue]
  rw [detected_of_materialized chain.abi ctx chain.bindings hfinal
    (chain.distinctKeys stepIndex submit hsubmit) hplain hfields
    (chain.written attempt final template hparse hinline)]

theorem templates_of_templateOf {attempt : ℕ} {submit : SubmitStep} {ctx : RuntimeContext}
    {template : TempoTemplate} (h : chain.templateOf submit ctx attempt = .ok template) :
    ∃ value, chain.templates submit.template = some value := by
  simp only [templateOf, bind_eq_ok, okOr_eq_ok] at h
  obtain ⟨value, hvalue, -⟩ := h
  exact ⟨value, hvalue⟩

/-- The place of a submission whose step is in the group. -/
theorem placed_of_group {inst stepIndex : ℕ} {submit : SubmitStep} {dense : Option ℕ}
    (hsubmit : submitAt chain.steps stepIndex = some submit) (hchain : submit.chain = chain.chain)
    (hgroup : chain.uniqueNonceGroup submit = .ok (some inlineAccessKeyGroup))
    (hdense : denseUniqueNonceHint chain.uniqueNonceGroup chain.chain chain.steps inst stepIndex submit =
      .ok dense) : ∃ place, dense = some place ∧ chain.Placed inst stepIndex place := by
  obtain ⟨step, hstep, haction⟩ : ∃ step, chain.steps[stepIndex]? = some step ∧
      step.action = .submit submit := by
    unfold submitAt at hsubmit
    split at hsubmit
    · next submit' hmap =>
        obtain ⟨step, hstep, haction⟩ := Option.map_eq_some_iff.1 hmap
        exact ⟨step, hstep, by rw [haction, Option.some.inj hsubmit]⟩
    · cases hsubmit
  have hmember : Rank.IsMember (StepDef.inGroup chain.uniqueNonceGroup chain.chain inlineAccessKeyGroup)
      chain.steps stepIndex :=
    Rank.isMember_iff.2 ⟨step, hstep, by simp [StepDef.inGroup, haction, hchain, hgroup]⟩
  have hidentity : denseIdentity chain.uniqueNonceGroup chain.chain chain.steps inst stepIndex =
      .ok dense := by
    simp only [denseIdentity, hsubmit, hdense]
  cases dense with
  | some place => exact ⟨place, rfl, hmember, hidentity⟩
  | none =>
      simp only [denseUniqueNonceHint, hgroup, bind_eq_ok] at hdense
      obtain ⟨_, heq, hdense⟩ := hdense
      obtain rfl := Except.ok.inj heq
      obtain ⟨groups, -, hdense⟩ := bind_eq_ok.1 hdense
      exact absurd hdense okOr_map_some_ne

end TempoScenario

namespace InlineRun

/-! ## All builds of a run -/

section

variable {chain : TempoScenario} {s t : InlineRun}

/-- Where the keys of the builds are: those of the setup below the counter, those of submissions at their
    places above it. -/
structure Settled (chain : TempoScenario) (s : InlineRun) : Prop where
  derived : ∀ b ∈ s.built, Derived chain.adapter b
  setup : ∀ b ∈ s.built, b.submission = none → ∀ k, b.key chain.adapter = some k →
    k.index < k.start + s.nonces.current chain.adapter.inlineAccessKeyCounterKey
  scenario : ∀ b ∈ s.built, b.submission ≠ none → s.scenario = true
  ordered : ∀ b ∈ s.built, b.submission ≠ none → ∀ r ∈ b.reservations, r.kind = .ordered →
    r.key ≠ chain.adapter.inlineAccessKeyCounterKey
  placed : ∀ b ∈ s.built, ∀ inst i, b.submission = some (inst, i) → ∀ k,
    b.key chain.adapter = some k → ∃ place, chain.Placed inst i place ∧
      k.index = k.start + s.nonces.current chain.adapter.inlineAccessKeyCounterKey + place
  apart : s.built.Pairwise (Apart chain.adapter)

theorem settled_init (nonces : NonceTracker) : Settled chain { nonces } := by
  constructor <;> simp

/-- A step that builds nothing, and leaves the counter where it is. -/
theorem Settled.of_counter (h : Settled chain s) (hbuilt : t.built = s.built)
    (hscenario : s.scenario = true → t.scenario = true)
    (hcounter : t.nonces.current chain.adapter.inlineAccessKeyCounterKey =
      s.nonces.current chain.adapter.inlineAccessKeyCounterKey) : Settled chain t := by
  refine ⟨?_, ?_, ?_, ?_, ?_, ?_⟩ <;> rw [hbuilt]
  · exact h.derived
  · rw [hcounter]
    exact h.setup
  · exact fun b hb hsubmission => hscenario (h.scenario b hb hsubmission)
  · exact h.ordered
  · rw [hcounter]
    exact h.placed
  · exact h.apart

/-- A step of the setup moves the counter on. -/
theorem Settled.of_setup (h : Settled chain s) (hsetup : s.scenario = false)
    (hbuilt : t.built = s.built)
    (hcounter : s.nonces.current chain.adapter.inlineAccessKeyCounterKey ≤
      t.nonces.current chain.adapter.inlineAccessKeyCounterKey) : Settled chain t := by
  have hnone : ∀ b ∈ s.built, b.submission = none := by
    intro b hb
    by_contra hsubmission
    have := h.scenario b hb hsubmission
    rw [hsetup] at this
    cases this
  refine ⟨?_, ?_, ?_, ?_, ?_, ?_⟩ <;> rw [hbuilt]
  · exact h.derived
  · intro b hb hsubmission k hk
    have := h.setup b hb hsubmission k hk
    omega
  · exact fun b hb hsubmission => absurd (hnone b hb) hsubmission
  · exact h.ordered
  · intro b hb inst i hsubmission
    rw [hnone b hb] at hsubmission
    cases hsubmission
  · exact h.apart

/-- One more build. -/
theorem Settled.concat {b : InlineBuild} (h : Settled chain s) (hderived : Derived chain.adapter b)
    (hsetup : b.submission = none → ∀ k, b.key chain.adapter = some k →
      k.index < k.start + s.nonces.current chain.adapter.inlineAccessKeyCounterKey)
    (hscenario : b.submission ≠ none → s.scenario = true)
    (hordered : b.submission ≠ none → ∀ r ∈ b.reservations, r.kind = .ordered →
      r.key ≠ chain.adapter.inlineAccessKeyCounterKey)
    (hplaced : ∀ inst i, b.submission = some (inst, i) → ∀ k, b.key chain.adapter = some k →
      ∃ place, chain.Placed inst i place ∧
        k.index = k.start + s.nonces.current chain.adapter.inlineAccessKeyCounterKey + place)
    (hapart : ∀ b' ∈ s.built, Apart chain.adapter b' b) :
    Settled chain { s with built := s.built ++ [b] } where
  derived := List.forall_mem_append.2 ⟨h.derived, by simpa using hderived⟩
  setup := List.forall_mem_append.2 ⟨h.setup, by simpa using hsetup⟩
  scenario := List.forall_mem_append.2 ⟨h.scenario, by simpa using hscenario⟩
  ordered := List.forall_mem_append.2 ⟨h.ordered, by simpa using hordered⟩
  placed := List.forall_mem_append.2 ⟨h.placed, by simpa using hplaced⟩
  apart := List.pairwise_append.2 ⟨h.apart, by simp, by simpa using hapart⟩

theorem settled_build {template : TempoTemplate} {draws : Draws} {deferSigning : Bool}
    (h : Settled chain s) (hsetup : s.scenario = false) :
    Settled chain (s.build chain.adapter template draws deferSigning) := by
  have hbegin : ({ nonces := s.nonces, deferSigning } : BuildContext).denseUniqueNonceHint = none := rfl
  have hle := current_le_buildRequest chain.adapter template draws hbegin
  unfold build
  rcases hrun : chain.adapter.buildRequest template draws { nonces := s.nonces, deferSigning }
    with ⟨e | tx, ctx⟩
  · rw [hrun] at hle
    exact h.of_setup hsetup rfl hle
  · rw [hrun] at hle
    have hold : Settled chain { s with nonces := ctx.nonces } := h.of_setup hsetup rfl hle
    refine hold.concat (setup_derived rfl hrun) (fun _ k hk => (setup_key rfl hrun hk).2)
      (fun hn => absurd rfl hn) (fun hn => absurd rfl hn) nofun fun b hb k k' hk hk' _ hstart hindex => ?_
    -- the builds so far are below the counter that the new one begins with
    have hnone : b.submission = none := by
      by_contra hsubmission
      have := h.scenario b hb hsubmission
      rw [hsetup] at this
      cases this
    have hbelow := h.setup b hb hnone k hk
    have habove : k'.start + s.nonces.current chain.adapter.inlineAccessKeyCounterKey ≤ k'.index :=
      (setup_key rfl hrun hk').1
    omega

/-- An attempt of a submission whose place is known if it uses an inline access key. -/
theorem settled_attempt {inst stepIndex hint : ℕ} {dense : Option ℕ} {template : TempoTemplate}
    {draws : Draws} (h : Settled chain s) (hscenario : s.scenario = true)
    (hlane : chain.adapter.laneKey template draws ≠ .ok chain.adapter.inlineAccessKeyCounterKey)
    (hplace : template.inlineAuth ≠ none →
      ∃ place, dense = some place ∧ chain.Placed inst stepIndex place) :
    Settled chain (s.attempt chain.adapter (inst, stepIndex) template draws {
      nonces := s.nonces
      uniqueNonceHint := some hint
      denseUniqueNonceHint := dense
      deferSigning := true }) := by
  have hbegin : Reserved chain.adapter hint dense
      (s.nonces.current chain.adapter.inlineAccessKeyCounterKey) {
        nonces := s.nonces
        uniqueNonceHint := some hint
        denseUniqueNonceHint := dense
        deferSigning := true } := ⟨rfl, rfl, rfl, nofun⟩
  have hsome : template.inlineAuth ≠ none → dense.isSome = true := by
    intro hinline
    obtain ⟨place, hdense, -⟩ := hplace hinline
    simp [hdense]
  have hend := Reserved.buildRequest hlane hsome _ hbegin
  unfold attempt
  rcases hrun : chain.adapter.buildRequest template draws _ with ⟨e | tx, ctx⟩
  · rw [hrun] at hend
    refine h.of_counter rfl id ?_
    -- the nonces that are given back are of other lanes
    refine Eq.trans (NonceTracker.current_rewindEach_of_apart fun r hr hkind => ?_) hend.counter
    exact hend.apart r (List.mem_reverse.1 hr) hkind
  · rw [hrun] at hend
    have hold : Settled chain { s with nonces := ctx.nonces } := h.of_counter rfl id hend.counter
    have hcounter : ctx.nonces.current chain.adapter.inlineAccessKeyCounterKey =
      s.nonces.current chain.adapter.inlineAccessKeyCounterKey := hend.counter
    have hkey : ∀ auth, template.inlineAuth = some auth → ∃ place ctx₁,
        chain.Placed inst stepIndex place ∧ chain.adapter.Derives auth ctx₁ ctx tx.accessSigner
          (s.nonces.current chain.adapter.inlineAccessKeyCounterKey + place) := by
      intro auth hauth
      obtain ⟨place, rfl, hplaced⟩ := hplace (by simp [hauth])
      obtain ⟨ctx₁, hderives⟩ := submission_derives hbegin hlane hauth hrun
      exact ⟨place, ctx₁, hplaced, hderives⟩
    have hindex : ∀ k, InlineBuild.key chain.adapter
        ⟨some (inst, stepIndex), template, tx, ctx.nonceReservations⟩ = some k →
        ∃ place, chain.Placed inst stepIndex place ∧
          k.index = k.start + s.nonces.current chain.adapter.inlineAccessKeyCounterKey + place := by
      intro k hk
      cases hauth : template.inlineAuth with
      | none =>
          rw [InlineBuild.key, hauth] at hk
          cases hk
      | some auth =>
          obtain ⟨place, _, hplaced, hderives⟩ := hkey auth hauth
          obtain ⟨source, -, hsource⟩ :=
            key_of_derives (some (inst, stepIndex)) hauth hderives
          obtain rfl := Option.some.inj (hsource.symm.trans hk)
          exact ⟨place, hplaced, (Nat.add_assoc _ _ _).symm⟩
    refine hold.concat ?_ nofun (fun _ => hscenario) (fun _ => hend.apart) ?_ ?_
    · cases hauth : template.inlineAuth with
      | none => exact derived_of_none hauth
      | some auth =>
          obtain ⟨_, _, -, hderives⟩ := hkey auth hauth
          exact derived_of_derives hauth hderives
    · intro inst' i' hsubmission k hk
      obtain ⟨rfl, rfl⟩ := Prod.mk.inj (Option.some.inj hsubmission)
      obtain ⟨place, hplaced, hk⟩ := hindex k hk
      exact ⟨place, hplaced, by rw [hk, hcounter]⟩
    · intro b hb k k' hk hk' _ hstart hequal
      obtain ⟨place, hplaced, hnew⟩ := hindex k' hk'
      cases hsubmission : b.submission with
      | none =>
          have := h.setup b hb hsubmission k hk
          omega
      | some submission =>
          obtain ⟨place', hplaced', hold⟩ := h.placed b hb _ _ hsubmission k hk
          obtain rfl : place' = place := by omega
          obtain ⟨hinst, hstep⟩ := hplaced'.unique hplaced
          exact ⟨congrArg some (Prod.ext hinst hstep), by simp⟩

theorem settled_rewind {position : ℕ} (h : Settled chain s) {b : InlineBuild}
    (hb : s.built[position]? = some b) (hsubmission : b.submission.isSome = true) :
    Settled chain { s with nonces := (s.nonces.rewindOrdered b.reservations).2 } := by
  refine h.of_counter rfl id (NonceTracker.current_rewindEach_of_apart fun r hr hkind => ?_)
  exact h.ordered b (List.mem_of_getElem? hb) (Option.isSome_iff_ne_none.1 hsubmission) r
    (List.mem_reverse.1 hr) hkind

/-- **Step lemma.** -/
theorem settled_step {l : Label} (hseen : Seen chain s l) (h : Settled chain s)
    (hstep : step chain s l = some t) : Settled chain t := by
  cases l with
  | build template draws deferSigning =>
      simp only [step, Option.ite_none_left_eq_some, not_or, Option.some.injEq] at hstep
      obtain ⟨⟨-, hsetup⟩, rfl⟩ := hstep
      exact settled_build h (by simpa using hsetup)
  | startInstances =>
      simp only [step, Option.ite_none_left_eq_some, not_or, Option.some.injEq] at hstep
      obtain ⟨-, rfl⟩ := hstep
      exact h.of_counter rfl (fun _ => rfl) rfl
  | prepare key nonce =>
      simp only [step, Option.ite_none_left_eq_some, Option.some.injEq] at hstep
      obtain ⟨-, rfl⟩ := hstep
      split
      · exact h
      · exact h.of_counter rfl id (by simp [Ne.symm hseen])
  | submit inst stepIndex ctx attempt draws =>
      simp only [step] at hstep
      split at hstep
      · cases hstep
      · next submit hsubmit =>
          simp only [Option.ite_none_right_eq_some] at hstep
          obtain ⟨⟨hscenario, hchain⟩, hstep⟩ := hstep
          split at hstep
          · exact Option.some.inj hstep ▸ h
          · next template context hattempt =>
              obtain rfl := Option.some.inj hstep
              obtain ⟨hint, dense, htemplate, hdense, rfl⟩ := TempoScenario.attemptOf_ok hattempt
              obtain ⟨value, hvalue⟩ := TempoScenario.templates_of_templateOf htemplate
              obtain ⟨hinline, hlane⟩ := hseen submit value template hsubmit hvalue htemplate
              refine settled_attempt h hscenario hlane fun hauth => ?_
              obtain ⟨hplain, hfields⟩ := hinline hauth
              exact TempoScenario.placed_of_group hsubmit hchain
                (TempoScenario.group_of_templateOf hsubmit hvalue htemplate hauth hplain hfields) hdense
  | rewind position =>
      simp only [step] at hstep
      split at hstep
      · next b hb =>
          simp only [Option.ite_none_right_eq_some, Option.some.injEq] at hstep
          obtain ⟨hsubmission, rfl⟩ := hstep
          exact settled_rewind h hb hsubmission
      · cases hstep

/-- **Run lemma.** -/
theorem settled_run {nonces : NonceTracker} {ls : List Label}
    (h : (inlineSystem chain nonces).Run (Seen chain) { nonces } ls s) : Settled chain s :=
  h.invariant (fun _ _ _ hseen hsettled hstep => settled_step hseen hsettled hstep)
    (settled_init nonces)

end

end InlineRun

/-! ## Keys are used once -/

/-- **Inline access keys.** In a run whose submissions are seen for what they are, each build signs with
    the key at its index, and two builds with the same mnemonic and start have different indices, unless
    one repeats the submission of the other. A key that is out of range is an error. -/
theorem inline_keys_once (chain : TempoScenario) (nonces : NonceTracker) {ls : List InlineRun.Label}
    {s : InlineRun}
    (h : (inlineSystem chain nonces).Run (InlineRun.Seen chain) (inlineSystem chain nonces).init ls s) :
    (∀ b ∈ s.built, InlineRun.Derived chain.adapter b) ∧
      s.built.Pairwise (InlineRun.Apart chain.adapter) ∧
      ∀ source offset, ¬ TempoAdapter.InRange source offset →
        ∃ e, chain.adapter.inlineAccessKey source offset = .error e :=
  ⟨(InlineRun.settled_run h).derived, (InlineRun.settled_run h).apart,
    fun _ _ => chain.adapter.inlineAccessKey_error⟩

namespace InlineSample

def authValue : Yaml := .mapping [(.string "mode", .string "key_authorization")]

def template : TempoTemplate where
  txType := .tempo
  fromAccount := .ok ⟨1, "senders", 0⟩
  gasLimit := 21000
  auth := some { mode := .keyAuthorization }

def adapter : TempoAdapter where
  chainId := 1
  gas := ⟨1, 1⟩
  keccak256 data := BitVec.ofNat 256 data.length
  deriveMnemonicSigner _ index := .ok (BitVec.ofNat 160 index)

def abi : Abi DynSolType DynSolValue where
  parseAbiType _ := bail "unknown type"
  coerceDynSol _ _ := bail "unknown type"
  inferDynSol _ := bail "unknown type"
  encode _ _ := []
  keccak256 data := BitVec.ofNat 256 data.length
  displayAddress _ := "0x"

/-- A template with a static authentication, submitted as it is and with an overlay. -/
def chain (overlay : Yaml) (hkeys : overlay.distinctKeys = true) : TempoScenario where
  adapter := adapter
  abi := abi
  chain := "l1"
  steps := [
    { action := .submit { chain := "l1", template := "transfer" } },
    { action := .submit { chain := "l1", template := "transfer", withValue := overlay } }]
  templates name := if name = "transfer" then some (.mapping [(.string "auth", authValue)]) else none
  bindings _ := none
  parseTemplate _ value :=
    if templateAuth value = some authValue then .ok template else bail "missing field `auth`"
  written _ value _ h _ := by
    split at h
    · next hauth =>
        exact .inr ⟨authValue, hauth, _, rfl, fun s hs => (Yaml.string.inj hs).symm⟩
    · cases h
  distinctKeys i submit h := by
    match i with
    | 0 =>
        obtain rfl := Option.some.inj h
        rfl
    | 1 =>
        obtain rfl := Option.some.inj h
        exact hkeys
    | i + 2 => cases h

def draws : Draws where
  now := .ok 0
  laneNonce := .ok 0
  randomKey := ⟨0⟩

/-- A context with a value that is null. -/
def context : RuntimeContext where
  roots := [("extra", .null)]

/-- The overlay names more fields. -/
def seen : TempoScenario := chain (.mapping [(.string "nonce_key", .string "7")]) (by decide)

def seenLabels : List InlineRun.Label :=
  [.build template draws false, .startInstances, .submit 0 0 context 0 draws, .submit 0 1 context 0 draws]

/-- The overlay is as a whole an expression. -/
def hidden : TempoScenario := chain (.mapping [(.string "var", .string "extra")]) (by decide)

def hiddenLabels : List InlineRun.Label :=
  [.startInstances, .submit 0 0 context 0 draws, .submit 0 1 context 0 draws]

theorem templateOf_eq {overlay : Yaml} {hkeys : overlay.distinctKeys = true} {submit : SubmitStep}
    {ctx : RuntimeContext} {attempt : ℕ} {parsed : TempoTemplate}
    (h : (chain overlay hkeys).templateOf submit ctx attempt = .ok parsed) : parsed = template := by
  simp only [TempoScenario.templateOf, bind_eq_ok] at h
  obtain ⟨_, -, value, -, hparse⟩ := h
  simp only [chain] at hparse
  split at hparse
  · exact (Except.ok.inj hparse).symm
  · cases hparse

theorem lane_ne : adapter.laneKey template draws ≠ .ok adapter.inlineAccessKeyCounterKey := by
  have hlane : adapter.laneKey template draws = .ok ⟨1⟩ := rfl
  rw [hlane]
  decide

theorem seen_of_mem : ∀ l ∈ seenLabels, ∀ s, InlineRun.Seen seen s l := by
  have hsubmit : ∀ i < 2, ∀ s, InlineRun.Seen seen s (.submit 0 i context 0 draws) := by
    intro i hi s submit value parsed hsubmit hvalue htemplate
    obtain rfl := templateOf_eq htemplate
    refine ⟨fun _ => ?_, lane_ne⟩
    match i, hi with
    | 0, _ | 1, _ =>
        obtain rfl := Option.some.inj hsubmit
        obtain rfl := Option.some.inj hvalue
        decide
  intro l hl s
  simp only [seenLabels, List.mem_cons, List.not_mem_nil, or_false] at hl
  rcases hl with rfl | rfl | rfl | rfl
  · trivial
  · trivial
  · exact hsubmit 0 (by decide) s
  · exact hsubmit 1 (by decide) s

/-- One build of the setup and two submissions take three keys. -/
theorem seen_keys : ∃ s, (inlineSystem seen {}).Run (InlineRun.Seen seen) (inlineSystem seen {}).init
      seenLabels s ∧
    (s.built.map fun b => (b.submission, (b.key adapter).map InlineKey.index)) =
      [(none, some 1000000), (some (0, 0), some 1000001), (some (0, 1), some 1000002)] ∧
    (∀ b ∈ s.built, InlineRun.Derived adapter b) ∧ s.built.Pairwise (InlineRun.Apart adapter) ∧
      ∀ source offset, ¬ TempoAdapter.InRange source offset →
        ∃ e, adapter.inlineAccessKey source offset = .error e := by
  have hexec : ((inlineSystem seen {}).exec (inlineSystem seen {}).init seenLabels).any (fun s =>
      decide ((s.built.map fun b => (b.submission, (b.key adapter).map InlineKey.index)) =
        [(none, some 1000000), (some (0, 0), some 1000001), (some (0, 1), some 1000002)])) = true := by
    decide
  obtain ⟨s, hrun, hkeys⟩ := System.run_of_check hexec
  have hseen := hrun.of_labels seen_of_mem
  exact ⟨s, hseen, hkeys, inline_keys_once seen {} hseen⟩

/-- The second submission takes the key of the first one. -/
theorem hidden_keys : ∃ s, (inlineSystem hidden {}).Run System.anyStep (inlineSystem hidden {}).init
      hiddenLabels s ∧
    (s.built.map fun b => (b.submission, b.key adapter)) =
      [(some (0, 0), some ⟨inlineAccessKeyMnemonic, 1000000, 1000000⟩),
        (some (0, 1), some ⟨inlineAccessKeyMnemonic, 1000000, 1000000⟩)] ∧
    ¬ s.built.Pairwise (InlineRun.Apart adapter) := by
  have hexec : ((inlineSystem hidden {}).exec (inlineSystem hidden {}).init hiddenLabels).any (fun s =>
      decide ((s.built.map fun b => (b.submission, b.key adapter)) =
        [(some (0, 0), some ⟨inlineAccessKeyMnemonic, 1000000, 1000000⟩),
          (some (0, 1), some ⟨inlineAccessKeyMnemonic, 1000000, 1000000⟩)])) = true := by
    decide
  obtain ⟨s, hrun, hkeys⟩ := System.run_of_check hexec
  refine ⟨s, hrun, hkeys, fun hapart => ?_⟩
  obtain ⟨x, rest, hbuilt, hx, hrest⟩ := List.map_eq_cons_iff.1 hkeys
  obtain ⟨y, rest', rfl, hy, hnil⟩ := List.map_eq_cons_iff.1 hrest
  obtain rfl := List.map_eq_nil_iff.1 hnil
  rw [hbuilt, List.pairwise_pair] at hapart
  obtain ⟨hxsubmission, hxkey⟩ := Prod.mk.inj hx
  obtain ⟨hysubmission, hykey⟩ := Prod.mk.inj hy
  obtain ⟨hsame, -⟩ := hapart _ _ hxkey hykey rfl rfl rfl
  rw [hxsubmission, hysubmission] at hsame
  exact absurd hsame (by decide)

end InlineSample

end TxGen
