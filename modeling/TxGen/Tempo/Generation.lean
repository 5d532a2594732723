import TxGen.Generate.Model
import TxGen.Tempo.Uniqueness

set_option autoImplicit false

/-! # Tempo in the generator

The generator on the Tempo adapter: its jobs are the builds of a run. `γ` is the state of the random
number generator and the clock. -/

namespace TxGen

namespace Generation

variable {σ β ρ : Type} {b : Builder σ β ρ} {I : σ → List ρ → Prop}

/-- The requests that were handed to the signing pool. -/
def requests (g : Generation σ ρ) : List ρ := g.jobs.map fun job => job.prepared.request

/-- The generator touches its context only to resolve bindings and to build requests. -/
structure Preserved (b : Builder σ β ρ) (I : σ → List ρ → Prop) : Prop where
  bindings : ∀ {name ctx ctx' bindings requests}, I ctx requests →
    b.resolveSequenceBindings name ctx = .ok (bindings, ctx') → I ctx' requests
  build : ∀ {value overlay bindings ctx ctx' tx requests}, I ctx requests →
    b.buildRequest value overlay bindings ctx = .ok (tx, ctx') → I ctx' (requests ++ [tx.request])

theorem Preserved.prepare (h : Preserved b I) (spec : WorkloadSpec) {g : Generation σ ρ}
    (hg : I g.ctx g.requests) (name template : String) (withValue : Yaml) (bindings : β) (inclusionKeys : List SchedulingKey)
    (origin : Origin) :
    I (g.prepare b spec name template withValue bindings inclusionKeys origin).1.ctx
      (g.prepare b spec name template withValue bindings inclusionKeys origin).1.requests := by
  unfold Generation.prepare
  split
  · exact hg
  · split
    · exact hg
    · next tx ctx hbuild => simpa [requests] using h.build hg hbuild

theorem Preserved.prepareSteps (h : Preserved b I) (spec : WorkloadSpec) {sequence : String} {inst : ℕ}
    {inclusionKeys : List SchedulingKey} {bindings : β} {steps : List SequenceStep} {idx : ℕ}
    {g : Generation σ ρ} (hg : I g.ctx g.requests) :
    I (Generation.prepareSteps b spec sequence inst inclusionKeys bindings idx steps g).1.ctx
      (Generation.prepareSteps b spec sequence inst inclusionKeys bindings idx steps g).1.requests := by
  induction steps generalizing idx g with
  | nil => exact hg
  | cons step steps ih =>
      have hstep := h.prepare spec hg s!"{sequence}.{step.name.getD step.template}"
        step.template step.withValue bindings inclusionKeys (.step sequence inst idx)
      simp only [Generation.prepareSteps]
      split
      · next hres => rw [hres] at hstep; exact ih hstep
      · next hres => rw [hres] at hstep; exact hstep

theorem Preserved.prepareItem (h : Preserved b I) (spec : WorkloadSpec) {g : Generation σ ρ}
    (hg : I g.ctx g.requests) (item : MixItem) :
    I (g.prepareItem b spec item).1.ctx (g.prepareItem b spec item).1.requests := by
  cases item with
  | template name => exact h.prepare spec hg name name .null b.setupBindings [] .template
  | sequence name =>
      simp only [Generation.prepareItem]
      split
      · exact hg
      · split
        · exact hg
        · split
          · exact hg
          · next hbindings => exact h.prepareSteps spec (h.bindings hg hbindings)

theorem Preserved.generateTxs (h : Preserved b I) (spec : WorkloadSpec) {g : Generation σ ρ}
    (hg : I g.ctx g.requests) (picks : List MixItem) :
    I (Generation.generateTxs b spec picks g).1.ctx
      (Generation.generateTxs b spec picks g).1.requests := by
  induction picks generalizing g with
  | nil => exact hg
  | cons item picks ih =>
      have hitem := h.prepareItem spec hg item
      simp only [Generation.generateTxs]
      split
      · next hres => rw [hres] at hitem; exact ih hitem
      · next hres => rw [hres] at hitem; exact hitem

end Generation

/-! ## The adapter of the generator -/

/-- What surrounds the adapter: `materialize` merges, substitutes and parses a template and draws the
    values of its expressions. -/
structure TempoMaterializer (γ β : Type) where
  setupBindings : β
  resolveSequenceBindings : String → γ → Except Report (β × γ)
  materialize : Yaml → Yaml → β → γ → Except Report ((TempoTemplate × Draws) × γ)

def TempoAdapter.builder {γ β : Type} (adapter : TempoAdapter) (m : TempoMaterializer γ β)
    (deferSigning : Bool) : Builder (γ × NonceTracker) β TempoTxRequest where
  keccak256 := adapter.keccak256
  setupBindings := m.setupBindings
  resolveSequenceBindings name ctx := do
    let (bindings, g) ← m.resolveSequenceBindings name ctx.1
    return (bindings, g, ctx.2)
  buildRequest value overlay bindings ctx := do
    let ((template, draws), g) ← m.materialize value overlay bindings ctx.1
    match adapter.buildRequest template draws { nonces := ctx.2, deferSigning } with
    | (.ok tx, build) => return ({
        request := tx
        key := tx.key
        lateSign := tx.lateSign.map fun _ => ⟨"tempo_expiring_relative"⟩
        sender := tx.signer.address }, g, build.nonces)
    | (.error e, _) => .error e

/-- **The generator's jobs.** What the generator hands to the signing pool was built by a run. -/
theorem generateTxs_tempo {γ β : Type} (adapter : TempoAdapter) (m : TempoMaterializer γ β)
    (deferSigning : Bool) (chain : String) (steps : List StepDef) (spec : WorkloadSpec)
    (rng : γ) (nonces : NonceTracker) (picks : List MixItem) :
    ∃ s, (tempoSystem adapter chain steps nonces).Reachable s ∧
      s.built.map Prod.snd = (Generation.generateTxs (adapter.builder m deferSigning) spec picks
        { ctx := (rng, nonces) }).1.requests := by
  let I (ctx : γ × NonceTracker) (requests : List TempoTxRequest) : Prop :=
    ∃ s, (tempoSystem adapter chain steps nonces).Reachable s ∧ ¬ (s.failed ∨ s.scenario) ∧
      s.nonces = ctx.2 ∧ s.built.map Prod.snd = requests
  have hI : Generation.Preserved (adapter.builder m deferSigning) I := by
    constructor
    · intro name ctx ctx' bindings requests hI h
      obtain ⟨_, _, h⟩ := bind_eq_ok.1 h
      obtain ⟨rfl, rfl⟩ := Prod.mk.inj (Except.ok.inj h)
      exact hI
    · intro value overlay bindings ctx ctx' tx requests hI h
      obtain ⟨s, hs, hgoing, hnonces, hrequests⟩ := hI
      obtain ⟨⟨⟨template, draws⟩, g⟩, _, h⟩ := bind_eq_ok.1 h
      rcases hres : adapter.buildRequest template draws { nonces := ctx.2, deferSigning } with
        ⟨e | built, build⟩
      · simp [hres] at h
      · simp only [hres] at h
        obtain ⟨rfl, rfl⟩ := Prod.mk.inj (Except.ok.inj h)
        have hstep : (tempoSystem adapter chain steps nonces).step s
            (.build template draws deferSigning) =
            some (s.build adapter ⟨template, draws, { nonces := s.nonces, deferSigning }⟩) :=
          if_neg hgoing
        refine ⟨_, hs.step hstep, ?_, ?_, ?_⟩ <;> rw [TempoRun.build, hnonces, hres]
        · exact hgoing
        · simp [hrequests]
  obtain ⟨s, hs, -, -, hrequests⟩ := hI.generateTxs spec (g := { ctx := (rng, nonces) })
    ⟨_, ⟨[], System.Run.nil _⟩, by simp [tempoSystem], rfl, rfl⟩ picks
  exact ⟨s, hs, hrequests⟩

end TxGen
