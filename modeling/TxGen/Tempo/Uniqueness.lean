import TxGen.Lib.Ranks
import TxGen.Lib.System
import TxGen.Scenario.Schema
import TxGen.Tempo.Payloads

set_option autoImplicit false

/-! # Expiring transactions of a run

The builds of one chain share a tracker. Setup and generation number their expiring transactions with
the local counter and end at the first failure; the submissions of scenario instances are numbered by
their place in the scenario. Two transactions of a run are signed alike only when base fees that differ
make up for bumps that differ. -/

namespace TxGen

/-! ## Scenario numbers -/

/-- The step submits to the chain. -/
def StepDef.submitsOn (chain : String) (step : StepDef) : Bool :=
  match step.action with
  | .submit submit => submit.chain = chain
  | _ => false

def submitRank (chain : String) (steps : List StepDef) (stepIndex : ℕ) : ℕ :=
  (steps.take stepIndex).countP (StepDef.submitsOn chain)

def submitsPerInstance (chain : String) (steps : List StepDef) : ℕ :=
  steps.countP (StepDef.submitsOn chain)

/-- The number of a submission among all of its chain. -/
def uniqueNonceHint (chain : String) (steps : List StepDef) (inst stepIndex : ℕ) :
    Except Report ℕ :=
  okOr ((checkedMul 64 inst (submitsPerInstance chain steps)).bind fun base =>
    checkedAdd 64 base (submitRank chain steps stepIndex)) "scenario transaction identity overflow"

section

variable {chain : String} {steps : List StepDef} {inst inst' i j : ℕ}

theorem uniqueNonceHint_ok {hint : ℕ} (h : uniqueNonceHint chain steps inst i = .ok hint) :
    hint = inst * submitsPerInstance chain steps + submitRank chain steps i ∧ hint < 2 ^ 64 := by
  simp only [uniqueNonceHint, okOr_eq_ok, Option.bind_eq_some_iff, checkedMul_eq_some,
    checkedAdd_eq_some] at h
  obtain ⟨_, ⟨_, rfl⟩, hlt, rfl⟩ := h
  exact ⟨rfl, hlt⟩

/-- No two submissions have the same number. -/
theorem uniqueNonceHint_inj {hint : ℕ}
    (hi : (steps[i]?.any (StepDef.submitsOn chain)) = true)
    (hj : (steps[j]?.any (StepDef.submitsOn chain)) = true)
    (h : uniqueNonceHint chain steps inst i = .ok hint)
    (h' : uniqueNonceHint chain steps inst' j = .ok hint) : inst = inst' ∧ i = j :=
  Rank.number_injective hi hj ((uniqueNonceHint_ok h).1.symm.trans (uniqueNonceHint_ok h').1)

/-- A number that does not fit is an error. -/
theorem uniqueNonceHint_error
    (h : 2 ^ 64 ≤ inst * submitsPerInstance chain steps + submitRank chain steps i) :
    ∃ e, uniqueNonceHint chain steps inst i = .error e := by
  cases hres : uniqueNonceHint chain steps inst i with
  | error e => exact ⟨e, rfl⟩
  | ok hint =>
      have := uniqueNonceHint_ok hres
      omega

end

/-! ## Runs -/

/-- `started` are the submissions of instances that were built; `built` what was built from what. -/
structure TempoRun where
  nonces : NonceTracker := {}
  /-- Setup is over. -/
  scenario : Bool := false
  failed : Bool := false
  started : List (ℕ × ℕ) := []
  built : List (TempoBuild × TempoTxRequest) := []

namespace TempoRun

inductive Label
  /-- A transaction of the setup or of the workload generator. -/
  | build (template : TempoTemplate) (draws : Draws) (deferSigning : Bool)
  /-- The setup is done, and scenario instances start. -/
  | startInstances
  /-- A submission is built for the last time, on the tracker that the others have left. -/
  | submit (inst stepIndex : ℕ) (template : TempoTemplate) (draws : Draws)
      (denseUniqueNonceHint : Option ℕ) (nonces : NonceTracker)

variable (adapter : TempoAdapter) (chain : String) (steps : List StepDef)

def build (s : TempoRun) (b : TempoBuild) : TempoRun :=
  match adapter.buildRequest b.template b.draws b.ctx with
  | (.ok tx, ctx) => { s with nonces := ctx.nonces, built := s.built ++ [(b, tx)] }
  | (.error _, ctx) => { s with nonces := ctx.nonces, failed := true }

def submit (s : TempoRun) (b : TempoBuild) : TempoRun :=
  match adapter.buildRequest b.template b.draws b.ctx with
  | (.ok tx, _) => { s with built := s.built ++ [(b, tx)] }
  | (.error _, _) => s

def step (s : TempoRun) : Label → Option TempoRun
  | .build template draws deferSigning =>
    if s.failed ∨ s.scenario then none
    else some (s.build adapter ⟨template, draws, { nonces := s.nonces, deferSigning }⟩)
  | .startInstances =>
    if s.failed ∨ s.scenario then none else some { s with scenario := true }
  | .submit inst stepIndex template draws denseUniqueNonceHint nonces =>
    if s.scenario ∧ (inst, stepIndex) ∉ s.started ∧
        (steps[stepIndex]?.any (StepDef.submitsOn chain)) = true then
      let s := { s with started := s.started ++ [(inst, stepIndex)] }
      match uniqueNonceHint chain steps inst stepIndex with
      | .error _ => some s
      | .ok hint => some (s.submit adapter ⟨template, draws, {
          nonces
          uniqueNonceHint := some hint
          denseUniqueNonceHint
          deferSigning := true }⟩)
    else none

end TempoRun

/-- The builds of one chain, with the nonces that the run starts from. -/
def tempoSystem (adapter : TempoAdapter) (chain : String) (steps : List StepDef)
    (nonces : NonceTracker) : System TempoRun TempoRun.Label where
  init := { nonces }
  step := TempoRun.step adapter chain steps

/-! ## What tells the transactions apart -/

namespace TempoRun

/-- No two expiring transactions of one sender are signed alike, whenever they are signed. -/
def PayloadsDistinct (s : TempoRun) : Prop :=
  s.built.Pairwise fun x y => x.1.Numbered → y.1.Numbered →
    x.2.signer.address = y.2.signer.address →
    ∀ now now' p p', x.2.transaction now = .ok p → y.2.transaction now' = .ok p' → p ≠ p'

end TempoRun

namespace TempoAdapter

variable (adapter : TempoAdapter)

/-- The builds agree on all but their base fees, which differ by what their bumps differ. -/
structure FeesCoincide (a b : TempoBuild) : Prop where
  sender : a.sender = b.sender
  terms : adapter.terms a = adapter.terms b
  validBefore : a.MayCoincide b
  base_ne : adapter.baseMaxFee a.template ≠ adapter.baseMaxFee b.template
  fee : adapter.baseMaxFee a.template + a.identity.bump =
    adapter.baseMaxFee b.template + b.identity.bump

/-- A number or a fee that is too large is an error. -/
def OverflowReported (chain : String) (steps : List StepDef) : Prop :=
  (∀ b : TempoBuild, b.Numbered → ¬ adapter.Fits b →
    ∃ e, (adapter.buildRequest b.template b.draws b.ctx).1 = .error e) ∧
  ∀ inst i, 2 ^ 64 ≤ inst * submitsPerInstance chain steps + submitRank chain steps i →
    ∃ e, uniqueNonceHint chain steps inst i = .error e

theorem overflowReported (chain : String) (steps : List StepDef) :
    adapter.OverflowReported chain steps := by
  refine ⟨fun b hb hfits => ?_, fun inst i h => uniqueNonceHint_error h⟩
  rcases hres : adapter.buildRequest b.template b.draws b.ctx with ⟨e | tx, ctx⟩
  · exact ⟨e, rfl⟩
  · obtain ⟨_, _, hfits', _⟩ := adapter.buildRequest_ok hb hres
    exact absurd hfits' hfits

end TempoAdapter

/-! ## The invariant -/

namespace TempoRun

variable {adapter : TempoAdapter} {chain : String} {steps : List StepDef}

/-- Numbers are used once: counters are below the counter of the tracker, and a hint belongs to a
    submission that has started. -/
structure Inv (adapter : TempoAdapter) (chain : String) (steps : List StepDef) (s : TempoRun) :
    Prop where
  result : ∀ x ∈ s.built, (adapter.buildRequest x.1.template x.1.draws x.1.ctx).1 = .ok x.2
  identities : s.built.Pairwise fun x y =>
    x.1.Numbered → y.1.Numbered → x.1.identity ≠ y.1.identity
  counters : ∀ x ∈ s.built, x.1.Numbered → ∀ n, x.1.identity = .counter n →
    n < s.nonces.current expiringUniquenessCounterKey
  hints : ∀ x ∈ s.built, ∀ hint, x.1.identity = .hint hint → ∃ inst i, (inst, i) ∈ s.started ∧
    (steps[i]?.any (StepDef.submitsOn chain)) = true ∧
    uniqueNonceHint chain steps inst i = .ok hint

theorem Inv.init (nonces : NonceTracker) : Inv adapter chain steps { nonces } := by
  constructor <;> simp

theorem Inv.build {s : TempoRun} (h : Inv adapter chain steps s) (template : TempoTemplate)
    (draws : Draws) (deferSigning : Bool) :
    Inv adapter chain steps
      (s.build adapter ⟨template, draws, { nonces := s.nonces, deferSigning }⟩) := by
  have hadv := adapter.advances_buildRequest template draws { nonces := s.nonces, deferSigning }
    expiringUniquenessCounterKey
  unfold TempoRun.build
  rcases hres : adapter.buildRequest template draws { nonces := s.nonces, deferSigning } with
    ⟨e | tx, ctx⟩
  · rw [hres] at hadv
    exact ⟨h.result, h.identities, fun x hx hnum n hn => (h.counters x hx hnum n hn).trans_le hadv,
      h.hints⟩
  · rw [hres] at hadv
    refine ⟨?_, ?_, ?_, ?_⟩
    · intro x hx
      rcases List.mem_append.1 hx with hx | hx
      · exact h.result x hx
      · rw [List.mem_singleton.1 hx]
        exact congrArg Prod.fst hres
    · refine List.pairwise_append.2 ⟨h.identities, List.pairwise_singleton _ _, ?_⟩
      intro x hx y hy hxnum _ heq
      rw [List.mem_singleton.1 hy] at heq
      exact absurd (h.counters x hx hxnum _ heq) (lt_irrefl _)
    · intro x hx hnum n hn
      rcases List.mem_append.1 hx with hx | hx
      · exact (h.counters x hx hnum n hn).trans_le hadv
      · rw [List.mem_singleton.1 hx] at hnum hn
        obtain ⟨_, _, _, _, hpassed, _⟩ := adapter.buildRequest_ok hnum hres
        have hnext := hpassed expiringUniquenessCounterKey
        rw [TempoBuild.current_numberedCtx hn] at hnext
        exact Nat.lt_of_succ_le hnext
    · intro x hx hint hid
      rcases List.mem_append.1 hx with hx | hx
      · exact h.hints x hx hint hid
      · rw [List.mem_singleton.1 hx] at hid
        exact absurd hid (by simp [TempoBuild.identity])

theorem Inv.start {s : TempoRun} (h : Inv adapter chain steps s) (inst stepIndex : ℕ) :
    Inv adapter chain steps { s with started := s.started ++ [(inst, stepIndex)] } := by
  refine ⟨h.result, h.identities, h.counters, fun x hx hint hid => ?_⟩
  obtain ⟨inst', i, hmem, hi, hhint⟩ := h.hints x hx hint hid
  exact ⟨inst', i, List.mem_append_left _ hmem, hi, hhint⟩

theorem Inv.submit {s : TempoRun} (h : Inv adapter chain steps s) {inst stepIndex hint : ℕ}
    (hnew : (inst, stepIndex) ∉ s.started)
    (hsubmit : (steps[stepIndex]?.any (StepDef.submitsOn chain)) = true)
    (hhint : uniqueNonceHint chain steps inst stepIndex = .ok hint) {b : TempoBuild}
    (hb : b.identity = .hint hint) :
    Inv adapter chain steps
      ({ s with started := s.started ++ [(inst, stepIndex)] }.submit adapter b) := by
  have hstart := h.start inst stepIndex
  unfold TempoRun.submit
  rcases hres : adapter.buildRequest b.template b.draws b.ctx with ⟨e | tx, ctx⟩
  · exact hstart
  · refine ⟨?_, ?_, ?_, ?_⟩
    · intro x hx
      rcases List.mem_append.1 hx with hx | hx
      · exact h.result x hx
      · rw [List.mem_singleton.1 hx]
        exact congrArg Prod.fst hres
    · refine List.pairwise_append.2 ⟨h.identities, List.pairwise_singleton _ _, ?_⟩
      intro x hx y hy _ _ heq
      rw [List.mem_singleton.1 hy, hb] at heq
      obtain ⟨inst', i, hmem, hi, hhint'⟩ := h.hints x hx hint heq
      obtain ⟨rfl, rfl⟩ := uniqueNonceHint_inj hi hsubmit hhint' hhint
      exact hnew hmem
    · intro x hx hnum n hn
      rcases List.mem_append.1 hx with hx | hx
      · exact h.counters x hx hnum n hn
      · rw [List.mem_singleton.1 hx, hb] at hn
        exact absurd hn (by simp)
    · intro x hx hint' hid
      rcases List.mem_append.1 hx with hx | hx
      · exact hstart.hints x hx hint' hid
      · rw [List.mem_singleton.1 hx, hb] at hid
        obtain rfl : hint = hint' := UniqueIdentity.hint.inj hid
        exact ⟨inst, stepIndex, List.mem_append_right _ (List.mem_singleton_self _), hsubmit, hhint⟩

theorem Inv.step {s t : TempoRun} {label : Label} (h : Inv adapter chain steps s)
    (hstep : s.step adapter chain steps label = some t) : Inv adapter chain steps t := by
  cases label with
  | build template draws deferSigning =>
      simp only [TempoRun.step, Option.ite_none_left_eq_some, Option.some.injEq] at hstep
      obtain ⟨_, rfl⟩ := hstep
      exact h.build template draws deferSigning
  | startInstances =>
      simp only [TempoRun.step, Option.ite_none_left_eq_some, Option.some.injEq] at hstep
      obtain ⟨_, rfl⟩ := hstep
      exact ⟨h.result, h.identities, h.counters, h.hints⟩
  | submit inst stepIndex template draws dense nonces =>
      simp only [TempoRun.step, Option.ite_none_right_eq_some] at hstep
      obtain ⟨⟨_, hnew, hsubmit⟩, hstep⟩ := hstep
      cases hhint : uniqueNonceHint chain steps inst stepIndex with
      | error e =>
          rw [hhint] at hstep
          obtain rfl := Option.some.inj hstep
          exact h.start inst stepIndex
      | ok hint =>
          rw [hhint] at hstep
          obtain rfl := Option.some.inj hstep
          exact h.submit hnew hsubmit hhint rfl

theorem Inv.reachable {nonces : NonceTracker} {s : TempoRun}
    (h : (tempoSystem adapter chain steps nonces).Reachable s) : Inv adapter chain steps s :=
  h.invariant (Inv.init nonces) fun _ _ _ hinv hstep => hinv.step hstep

/-- Two transactions are signed alike in some way exactly when their fees coincide. -/
theorem alike_iff {x y : TempoBuild × TempoTxRequest} (hx : x.1.Numbered) (hy : y.1.Numbered)
    (hrx : (adapter.buildRequest x.1.template x.1.draws x.1.ctx).1 = .ok x.2)
    (hry : (adapter.buildRequest y.1.template y.1.draws y.1.ctx).1 = .ok y.2)
    (hid : x.1.identity ≠ y.1.identity) :
    (x.2.signer.address = y.2.signer.address ∧ ∃ now now' p, x.2.transaction now = .ok p ∧
      y.2.transaction now' = .ok p) ↔ adapter.FeesCoincide x.1 y.1 := by
  obtain ⟨_, hterms, _, hsender, _, hsigned⟩ :=
    adapter.buildRequest_ok hx (Prod.ext hrx rfl : _ = (_, (adapter.buildRequest _ _ _).2))
  obtain ⟨_, hterms', _, hsender', _, hsigned'⟩ :=
    adapter.buildRequest_ok hy (Prod.ext hry rfl : _ = (_, (adapter.buildRequest _ _ _).2))
  constructor
  · rintro ⟨haddr, now, now', p, hp, hp'⟩
    obtain ⟨v, hv, rfl⟩ := (hsigned now p).1 hp
    obtain ⟨v', hv', heq⟩ := (hsigned' now' _).1 hp'
    obtain ⟨rfl, hfee, rfl⟩ := adapter.expiringTransaction_inj.1 heq
    refine ⟨by rw [hsender, hsender', haddr], hterms.trans hterms'.symm, ⟨now, now', v, hv, hv'⟩,
      fun hbase => hid ?_, hfee⟩
    rw [TempoAdapter.bumpedMaxFee, TempoAdapter.bumpedMaxFee, hbase] at hfee
    exact UniqueIdentity.bump_inj.1 (Nat.add_left_cancel hfee)
  · intro h
    have haddr : x.2.signer.address = y.2.signer.address :=
      Except.ok.inj (hsender.symm.trans (h.sender.trans hsender'))
    obtain rfl := Except.ok.inj (hterms.symm.trans (h.terms.trans hterms'))
    obtain ⟨now, now', v, hv, hv'⟩ := h.validBefore
    refine ⟨haddr, now, now', _, (hsigned now _).2 ⟨v, hv, rfl⟩, (hsigned' now' _).2 ⟨v, hv', ?_⟩⟩
    exact adapter.expiringTransaction_inj.2 ⟨rfl, h.fee, rfl⟩

end TempoRun

/-- **Expiring payloads.** What is too large is always an error. The transactions of a run are distinct
    exactly as long as no two of one sender have base fees whose difference the bumps make up for. -/
theorem expiring_payloads_distinct (adapter : TempoAdapter) (chain : String) (steps : List StepDef)
    (nonces : NonceTracker) {s : TempoRun}
    (hs : (tempoSystem adapter chain steps nonces).Reachable s) :
    s.PayloadsDistinct ∧ adapter.OverflowReported chain steps ↔
      s.built.Pairwise fun x y =>
        x.1.Numbered → y.1.Numbered → ¬ adapter.FeesCoincide x.1 y.1 := by
  have hinv := TempoRun.Inv.reachable hs
  rw [and_iff_left (adapter.overflowReported chain steps), TempoRun.PayloadsDistinct]
  have hpair : s.built.Pairwise fun x y => x.1.Numbered → y.1.Numbered →
      ((x.2.signer.address = y.2.signer.address ∧ ∃ now now' p, x.2.transaction now = .ok p ∧
        y.2.transaction now' = .ok p) ↔ adapter.FeesCoincide x.1 y.1) :=
    hinv.identities.imp_of_mem fun hx hy hid hxnum hynum =>
      TempoRun.alike_iff hxnum hynum (hinv.result _ hx) (hinv.result _ hy) (hid hxnum hynum)
  constructor
  · intro h
    refine (h.and hpair).imp fun {x y} hxy hxnum hynum hfees => ?_
    obtain ⟨haddr, now, now', p, hp, hp'⟩ := (hxy.2 hxnum hynum).2 hfees
    exact hxy.1 hxnum hynum haddr now now' p p hp hp' rfl
  · intro h
    refine (h.and hpair).imp fun {x y} hxy hxnum hynum haddr now now' p p' hp hp' heq => ?_
    exact hxy.1 hxnum hynum ((hxy.2 hxnum hynum).1 ⟨haddr, now, now', p, hp, heq ▸ hp'⟩)

namespace TempoRun.Sample

def tempo : TempoAdapter where
  chainId := 1
  gas := ⟨100, 0⟩
  keccak256 _ := 0
  deriveMnemonicSigner _ _ := bail "no mnemonic"

/-- An expiring transfer with the given base fee. -/
def transferAt (maxFeePerGas : ℕ) : TempoTemplate where
  txType := .tempo
  fromAccount := .ok ⟨7, "users", 0⟩
  gasLimit := 100000
  toAddress := some (.ok 9)
  maxFeePerGas := some maxFeePerGas
  expiringNonce := true
  validBefore := some 1000

def buildAt (maxFeePerGas : ℕ) : TempoRun.Label :=
  .build (transferAt maxFeePerGas) ⟨.ok 0, .ok 0, ⟨3⟩⟩ false

/-- The first two transactions are signed alike. -/
def repeated (s : TempoRun) : Bool :=
  match s.built with
  | x :: y :: _ => decide (x.1.Numbered ∧ y.1.Numbered ∧ x.2.signer.address = y.2.signer.address ∧
      x.2.transaction (.ok 0) = y.2.transaction (.ok 0)) && (x.2.transaction (.ok 0)).isOk
  | _ => false

end TempoRun.Sample

open TempoRun.Sample in
/-- A base fee of 102 with the first number and one of 100 with the second are both 103. -/
theorem expiring_payloads_repeat : ¬ ∀ (adapter : TempoAdapter) (chain : String)
    (steps : List StepDef) (nonces : NonceTracker) (s : TempoRun),
    (tempoSystem adapter chain steps nonces).Reachable s →
      s.PayloadsDistinct ∧ adapter.OverflowReported chain steps := by
  intro h
  have hcheck : ((tempoSystem tempo "l1" [] {}).exec { nonces := {} } [buildAt 102, buildAt 100]).any
      (fun s => decide (repeated s = true)) = true := by decide
  obtain ⟨s, hrun, hrep⟩ := System.run_of_check hcheck
  obtain ⟨hdistinct, -⟩ := h tempo "l1" [] {} s ⟨_, hrun⟩
  unfold TempoRun.PayloadsDistinct at hdistinct
  unfold repeated at hrep
  rcases hbuilt : s.built with _ | ⟨x, _ | ⟨y, rest⟩⟩
  · simp [hbuilt] at hrep
  · simp [hbuilt] at hrep
  · rw [hbuilt, List.pairwise_cons] at hdistinct
    simp only [hbuilt, Bool.and_eq_true, decide_eq_true_eq] at hrep
    obtain ⟨⟨hx, hy, haddr, heq⟩, hok⟩ := hrep
    cases hp : x.2.transaction (.ok 0) with
    | error e => simp [hp, Except.isOk, Except.toBool] at hok
    | ok p =>
        exact hdistinct.1 y List.mem_cons_self hx hy haddr _ _ p p hp (heq ▸ hp) rfl

open TempoRun.Sample in
theorem expiring_payloads_distinct_same_fee : ∃ s,
    (tempoSystem tempo "l1" [] {}).Reachable s ∧ s.built.length = 2 ∧
      (s.PayloadsDistinct ∧ tempo.OverflowReported "l1" [] ↔
        s.built.Pairwise fun x y =>
          x.1.Numbered → y.1.Numbered → ¬ tempo.FeesCoincide x.1 y.1) := by
  have hcheck : ((tempoSystem tempo "l1" [] {}).exec { nonces := {} } [buildAt 100, buildAt 100]).any
      (fun s => decide (s.built.length = 2)) = true := by decide
  obtain ⟨s, hrun, htwo⟩ := System.run_of_check hcheck
  exact ⟨s, ⟨_, hrun⟩, htwo, expiring_payloads_distinct tempo "l1" [] {} ⟨_, hrun⟩⟩

end TxGen
