import TxGen.Generate.Model
import TxGen.Sender.Atomicity
import TxGen.Sender.Inclusion

set_option autoImplicit false

/-! # Sequences, from the generator to the wire

The generator gives the transactions of a multi-step sequence instance a key of their own and emits
them in order, and the sender dispatches a step only after the verdict on the step before. -/

namespace TxGen

/-! ## Sequence keys differ -/

/-- What is hashed tells the instances apart, whatever their sequences are called. -/
theorem sequenceKeyData_instance {name name' : String} {inst inst' : ℕ} (hinst : inst < 2 ^ 64)
    (hinst' : inst' < 2 ^ 64) (h : sequenceKeyData name inst = sequenceKeyData name' inst') :
    inst = inst' := by
  refine toBeBytes_injective ?_ ?_ (List.append_inj' h (by simp [toBeBytes_length])).2
  · exact hinst
  · exact hinst'

/-! ## What the generator prepares -/

namespace Generation

section

variable {σ β ρ : Type} {b : Builder σ β ρ} {spec : WorkloadSpec}

/-- The inclusion keys of a transaction follow from where it comes from. -/
def InclusionKeysOf (b : Builder σ β ρ) (spec : WorkloadSpec) (origin : Origin)
    (keys : List SchedulingKey) : Prop :=
  match origin with
  | .template => keys = []
  | .step sequence inst idx => ∃ steps, spec.sequences.lookup sequence = some steps ∧
      idx < steps.length ∧
      keys = if steps.length > 1 then [computeSequenceKey b.keccak256 sequence inst] else []

/-- Steps of one instance belong to one sequence, and come in order. -/
def InOrder (x y : Job ρ) : Prop :=
  ∀ s s' inst idx idx', x.origin = .step s inst idx → y.origin = .step s' inst idx' →
    s = s' ∧ idx < idx'

structure Inv (b : Builder σ β ρ) (spec : WorkloadSpec) (g : Generation σ ρ) : Prop where
  keys : ∀ job ∈ g.jobs, InclusionKeysOf b spec job.origin job.prepared.inclusionKeys
  ordered : g.jobs.Pairwise InOrder
  counted : ∀ job ∈ g.jobs, ∀ s inst idx, job.origin = .step s inst idx → inst < g.sequenceInstances
  bounded : g.sequenceInstances < 2 ^ 64

theorem inv_init (ctx : σ) : Inv b spec { ctx } :=
  ⟨fun _ hjob => absurd hjob List.not_mem_nil, .nil, fun _ hjob => absurd hjob List.not_mem_nil,
    Nat.two_pow_pos 64⟩

/-- Preparation fails, or hands one more job to the pool. -/
theorem prepare_cases {g g' : Generation σ ρ} {name template : String} {withValue : Yaml}
    {bindings : β} {inclusionKeys : List SchedulingKey} {origin : Origin} {r : Except Report Unit}
    (h : g.prepare b spec name template withValue bindings inclusionKeys origin = (g', r)) :
    (g' = g ∧ r ≠ .ok ()) ∨ ∃ ctx prepared, r = .ok () ∧
      g' = { g with ctx, jobs := g.jobs ++ [⟨prepared, origin⟩] } ∧
      prepared.inclusionKeys = dedupSchedulingKeys inclusionKeys := by
  simp only [prepare] at h
  split at h
  · cases h
    exact Or.inl ⟨rfl, nofun⟩
  · split at h
    · cases h
      exact Or.inl ⟨rfl, nofun⟩
    · cases h
      exact Or.inr ⟨_, _, rfl, rfl, rfl⟩

theorem Inv.append {g : Generation σ ρ} (h : Inv b spec g) {ctx : σ} {job : Job ρ}
    (hkeys : InclusionKeysOf b spec job.origin job.prepared.inclusionKeys)
    (hordered : ∀ x ∈ g.jobs, InOrder x job)
    (hcounted : ∀ s inst idx, job.origin = .step s inst idx → inst < g.sequenceInstances) :
    Inv b spec { g with ctx, jobs := g.jobs ++ [job] } := by
  refine ⟨fun x hx => ?_, List.pairwise_append.2 ⟨h.ordered, List.pairwise_singleton _ _,
    fun x hx y hy => List.mem_singleton.1 hy ▸ hordered x hx⟩, fun x hx => ?_, h.bounded⟩
  · rcases List.mem_append.1 hx with hx | hx
    · exact h.keys x hx
    · exact List.mem_singleton.1 hx ▸ hkeys
  · rcases List.mem_append.1 hx with hx | hx
    · exact h.counted x hx
    · exact List.mem_singleton.1 hx ▸ hcounted

theorem Inv.prepareSteps {sequence : String} {inst : ℕ} {steps : List SequenceStep} {bindings : β}
    (hlookup : spec.sequences.lookup sequence = some steps) {rest : List SequenceStep} {idx : ℕ}
    {g : Generation σ ρ} (h : Inv b spec g) (hidx : idx + rest.length = steps.length)
    (hinst : inst < g.sequenceInstances)
    (hbefore : ∀ job ∈ g.jobs, ∀ s i, job.origin = .step s inst i → s = sequence ∧ i < idx) :
    Inv b spec (Generation.prepareSteps b spec sequence inst
      (if steps.length > 1 then [computeSequenceKey b.keccak256 sequence inst] else []) bindings idx
      rest g).1 := by
  induction rest generalizing idx g with
  | nil => exact h
  | cons step rest ih =>
      rw [List.length_cons] at hidx
      simp only [Generation.prepareSteps]
      split
      · rename_i g' hg'
        rcases prepare_cases hg' with ⟨-, hne⟩ | ⟨ctx, prepared, -, rfl, hkeys⟩
        · exact absurd rfl hne
        have hdedup : prepared.inclusionKeys =
            if steps.length > 1 then [computeSequenceKey b.keccak256 sequence inst] else [] := by
          rw [hkeys]
          split <;> rfl
        refine ih (h.append ⟨steps, hlookup, by omega, hdedup⟩ (fun x hx s s' i j j' hx' hj => ?_)
          (fun s i j hj => ?_)) (by omega) hinst (fun x hx s i hx' => ?_)
        · cases hj
          exact hbefore x hx s j hx'
        · cases hj
          exact hinst
        · rcases List.mem_append.1 hx with hx | hx
          · obtain ⟨hs, hi⟩ := hbefore x hx s i hx'
            exact ⟨hs, Nat.lt_succ_of_lt hi⟩
          · obtain rfl := List.mem_singleton.1 hx
            cases hx'
            exact ⟨rfl, Nat.lt_succ_self _⟩
      · rename_i g' e hg'
        rcases prepare_cases hg' with ⟨rfl, -⟩ | ⟨ctx, prepared, hok, -⟩
        · exact h
        · cases hok

theorem Inv.prepareItem {g : Generation σ ρ} (h : Inv b spec g) (item : MixItem) :
    Inv b spec (g.prepareItem b spec item).1 := by
  cases item with
  | template name =>
      simp only [Generation.prepareItem]
      rcases prepare_cases (Prod.mk.eta (p := g.prepare b spec name name .null b.setupBindings []
        .template)).symm with ⟨heq, -⟩ | ⟨ctx, prepared, -, heq, hkeys⟩
      · rw [heq]
        exact h
      · rw [heq]
        exact h.append hkeys (fun x hx s s' inst i i' _ hj => nomatch hj) (fun s inst i hj => nomatch hj)
  | sequence name =>
      simp only [Generation.prepareItem]
      split
      · exact h
      · rename_i steps hlookup
        split
        · exact h
        · rename_i hmax
          have hb := h.bounded
          have hstarted : ∀ job ∈ g.jobs, ∀ s inst idx, job.origin = .step s inst idx →
              inst < g.sequenceInstances + 1 :=
            fun job hjob s inst idx heq => Nat.lt_succ_of_lt (h.counted job hjob s inst idx heq)
          split
          · exact ⟨h.keys, h.ordered, hstarted, by simp only; omega⟩
          · refine Inv.prepareSteps hlookup ⟨h.keys, h.ordered, hstarted, by simp only; omega⟩
              (Nat.zero_add _) (Nat.lt_succ_self _) (fun job hjob s i heq => ?_)
            exact absurd (h.counted job hjob s _ i heq) (Nat.lt_irrefl _)

/-- What holds of the jobs whatever items are picked, and also if generation fails. -/
theorem inv_generateTxs {g : Generation σ ρ} (h : Inv b spec g) (picks : List MixItem) :
    Inv b spec (generateTxs b spec picks g).1 := by
  induction picks generalizing g with
  | nil => exact h
  | cons item picks ih =>
      have hitem := h.prepareItem item
      simp only [generateTxs]
      split
      · rename_i g' hg'
        rw [hg'] at hitem
        exact ih hitem
      · rename_i g' e hg'
        rwa [hg'] at hitem

end

end Generation

/-! ## What the signing pool writes -/

namespace SigningPool

variable {ρ : Type} {jobs : List (Job ρ)}

/-- `tx` is the signed form of the `n`-th job. -/
def Signed (jobs : List (Job ρ)) (n : ℕ) (tx : GeneratedTx) : Prop :=
  ∃ job signature, jobs[n]? = some job ∧ signPrepared job.prepared signature = .ok tx

structure Inv (jobs : List (Job ρ)) (pool : SigningPool) : Prop where
  inFlight : pool.nextToWrite + pool.inFlight = pool.nextSequence
  length : pool.written.length = pool.nextToWrite
  written : ∀ n tx, pool.written[n]? = some tx → Signed jobs n tx
  completed : ∀ q tx, pool.completed q = some tx → q < pool.nextSequence ∧ Signed jobs q tx
  results : ∀ q tx, (q, Except.ok tx) ∈ pool.results → q < pool.nextSequence ∧ Signed jobs q tx
  running : ∀ q ∈ pool.running, q < pool.nextSequence

theorem Inv.writeReady {fuel : ℕ} {pool : SigningPool} (h : pool.Inv jobs) :
    (writeReady fuel pool).Inv jobs := by
  induction fuel generalizing pool with
  | zero => exact h
  | succ fuel ih =>
      simp only [SigningPool.writeReady]
      split
      · exact h
      · rename_i tx htx
        obtain ⟨hlt, hsigned⟩ := h.completed _ tx htx
        have hcount := h.inFlight
        refine ih ⟨by simp only; omega, by simp [h.length], fun n tx' hn => ?_, fun q tx' hq => ?_,
          h.results, h.running⟩
        · rcases List.getElem?_concat_cases hn with hn | ⟨rfl, rfl⟩
          · exact h.written n tx' hn
          · exact h.length ▸ hsigned
        · by_cases hnext : q = pool.nextToWrite
          · simp [hnext] at hq
          · simp only [Function.update_of_ne hnext] at hq
            exact h.completed q tx' hq

/-- The bound on the turns of `write_ready` is never what ends it. -/
theorem writeReady_stops {pool : SigningPool} (h : pool.Inv jobs) :
    (writeReady pool.inFlight pool).completed (writeReady pool.inFlight pool).nextToWrite = none := by
  suffices ∀ fuel (pool : SigningPool), pool.Inv jobs → pool.inFlight = fuel →
      (writeReady fuel pool).completed (writeReady fuel pool).nextToWrite = none from
    this _ pool h rfl
  intro fuel
  induction fuel with
  | zero =>
      intro pool h hfuel
      have hcount := h.inFlight
      cases hnext : pool.completed pool.nextToWrite with
      | none => exact hnext
      | some tx =>
          have := (h.completed _ tx hnext).1
          omega
  | succ fuel ih =>
      intro pool h hfuel
      have hone : (writeReady 1 pool).Inv jobs := h.writeReady
      simp only [SigningPool.writeReady] at hone ⊢
      split
      · assumption
      · rename_i tx htx
        rw [htx] at hone
        exact ih _ hone (by simp only; omega)

/-- The oldest result moves to the buffer. -/
theorem Inv.store {pool : SigningPool} (h : pool.Inv jobs) {sequence : ℕ} {tx : GeneratedTx}
    {rest : List (ℕ × Except Report GeneratedTx)}
    (hresults : pool.results = (sequence, .ok tx) :: rest) : SigningPool.Inv jobs { pool with
      results := rest, completed := Function.update pool.completed sequence (some tx) } := by
  refine ⟨h.inFlight, h.length, h.written, fun q tx' hq => ?_,
    fun q tx' hq => h.results q tx' (hresults ▸ List.mem_cons_of_mem _ hq), h.running⟩
  by_cases hsame : q = sequence
  · subst hsame
    simp only [Function.update_self, Option.some.injEq] at hq
    exact h.results q tx' (hresults ▸ hq ▸ List.mem_cons_self)
  · simp only [Function.update_of_ne hsame] at hq
    exact h.completed q tx' hq

theorem inv_reachable {maxInFlight : ℕ} {pool : SigningPool}
    (h : (signingSystem maxInFlight jobs).Reachable pool) : pool.Inv jobs := by
  refine h.invariant ⟨rfl, rfl, nofun, nofun, nofun, nofun⟩ fun pool l pool' hinv hst => ?_
  have hcount := hinv.inFlight
  cases l with
  | submit =>
      simp only [signingSystem, step, Option.ite_none_right_eq_some, Option.some.injEq] at hst
      obtain ⟨-, rfl⟩ := hst
      refine ⟨by simp only; omega, hinv.length, hinv.written,
        fun q tx hq => (hinv.completed q tx hq).imp_left Nat.lt_succ_of_lt,
        fun q tx hq => (hinv.results q tx hq).imp_left Nat.lt_succ_of_lt, fun q hq => ?_⟩
      rcases List.mem_append.1 hq with hq | hq
      · exact Nat.lt_succ_of_lt (hinv.running q hq)
      · exact List.mem_singleton.1 hq ▸ Nat.lt_succ_self _
  | sign sequence signature =>
      simp only [signingSystem, step, Option.ite_none_right_eq_some, Option.map_eq_some_iff] at hst
      obtain ⟨hrunning, job, hjob, rfl⟩ := hst
      refine ⟨hinv.inFlight, hinv.length, hinv.written, hinv.completed, fun q tx hq => ?_,
        fun q hq => hinv.running q (List.mem_of_mem_erase hq)⟩
      rcases List.mem_append.1 hq with hq | hq
      · exact hinv.results q tx hq
      · obtain ⟨rfl, heq⟩ := Prod.mk.inj (List.mem_singleton.1 hq)
        exact ⟨hinv.running q hrunning, job, signature, hjob, heq.symm⟩
  | receive =>
      simp only [signingSystem, step] at hst
      split at hst
      · rename_i sequence result rest hfailed hresults
        cases hst
        cases result with
        | error e =>
            exact ⟨hinv.inFlight, hinv.length, hinv.written, hinv.completed,
              fun q tx hq => hinv.results q tx (hresults ▸ List.mem_cons_of_mem _ hq), hinv.running⟩
        | ok tx => exact (hinv.store hresults).writeReady
      · cases hst

/-- Signing keeps the keys. -/
theorem Signed.keys {n : ℕ} {tx : GeneratedTx} (h : Signed jobs n tx) : ∃ job, jobs[n]? = some job ∧
    tx.submissionKeys = [job.prepared.key] ∧ tx.inclusionKeys = job.prepared.inclusionKeys := by
  obtain ⟨job, signature, hjob, hsign⟩ := h
  refine ⟨job, hjob, ?_⟩
  unfold signPrepared at hsign
  split at hsign
  · cases hsign
    exact ⟨rfl, rfl⟩
  · cases signature with
    | error e => cases hsign
    | ok sender =>
        cases hsign
        exact ⟨rfl, rfl⟩

end SigningPool

end TxGen
