import TxGen.Core.Bytes
import TxGen.Core.GeneratedTx
import TxGen.Lib.System
import TxGen.Scenario.Name
import TxGen.Scenario.Yaml

set_option autoImplicit false

/-! # The workload generator

`generate_txs` turns the items that the selector picks into prepared transactions, and a `SigningPool`
signs them in parallel and writes them in the order in which they were prepared. Selection, template
values, bindings and the network adapter are given (`Builder`); `σ` is the build context, `β` the
resolved bindings and `ρ` the requests of the network. -/

namespace TxGen

/-! ## The workload -/

inductive MixItem
  | template (name : String)
  | sequence (name : String)
deriving DecidableEq

structure SequenceStep where
  name : Option String := none
  template : String
  withValue : Yaml := .null

structure WorkloadSpec where
  templates : List (String × Yaml)
  sequences : List (String × List SequenceStep)

/-- What is known of a transaction before it is signed. -/
structure PreparedMaterializedTx (ρ : Type) where
  name : String
  request : ρ
  key : SchedulingKey
  lateSign : Option LateSignSpec
  inclusionKeys : List SchedulingKey
  sender : Address

/-- What the network adapter builds. -/
structure TxRequest (ρ : Type) where
  request : ρ
  key : SchedulingKey
  lateSign : Option LateSignSpec := none
  sender : Address

/-- The parts of generation that depend on the network, the bindings and the random numbers. -/
structure Builder (σ β ρ : Type) where
  keccak256 : List UInt8 → BitVec 256
  setupBindings : β
  resolveSequenceBindings : String → σ → Except Report (β × σ)
  /-- `merge_yaml`, `substitute_vars` and `build_request` -/
  buildRequest : Yaml → Yaml → β → σ → Except Report (TxRequest ρ × σ)

/-! ## Sequence keys -/

/-- The first 20 bytes. -/
def schedulingKeyFromHash (hash : BitVec 256) : SchedulingKey := ⟨hash.extractLsb' 96 160⟩

def sequenceKeyData (sequenceName : String) (sequenceInstance : ℕ) : List UInt8 :=
  "txgen:sequence:".toUTF8.data.toList ++ sequenceName.toUTF8.data.toList ++
    toBeBytes 8 sequenceInstance

def computeSequenceKey (keccak256 : List UInt8 → BitVec 256) (sequenceName : String)
    (sequenceInstance : ℕ) : SchedulingKey :=
  schedulingKeyFromHash (keccak256 (sequenceKeyData sequenceName sequenceInstance))

/-! ## Preparation -/

/-- Where a transaction comes from; no code reads it. -/
inductive Origin
  | template
  /-- step `idx` of the sequence that was started as number `inst` -/
  | step (sequence : String) (inst idx : ℕ)
deriving DecidableEq

/-- A transaction handed to the signing pool. -/
structure Job (ρ : Type) where
  prepared : PreparedMaterializedTx ρ
  origin : Origin

/-- The build context, the jobs handed to the signing pool so far, and the counter of sequence
    instances. -/
structure Generation (σ ρ : Type) where
  ctx : σ
  jobs : List (Job ρ) := []
  sequenceInstances : ℕ := 0

namespace Generation

section Loop

variable {σ β ρ : Type} (b : Builder σ β ρ) (spec : WorkloadSpec)

/-- `prepare_materialized_template`, and `submit` of what it returns. -/
def prepare (g : Generation σ ρ) (name template : String) (withValue : Yaml) (bindings : β)
    (inclusionKeys : List SchedulingKey) (origin : Origin) :
    Generation σ ρ × Except Report Unit :=
  match spec.templates.lookup template with
  | none => (g, .error [s!"template '{template}' not found"])
  | some value =>
    match b.buildRequest value withValue bindings g.ctx with
    | .error e => (g, .error e)
    | .ok (tx, ctx) =>
      let prepared := {
        name
        request := tx.request
        key := tx.key
        lateSign := tx.lateSign
        inclusionKeys := dedupSchedulingKeys inclusionKeys
        sender := tx.sender }
      ({ g with ctx, jobs := g.jobs ++ [⟨prepared, origin⟩] }, .ok ())

/-- The steps of a sequence instance from number `idx` on. -/
def prepareSteps (sequence : String) (inst : ℕ) (inclusionKeys : List SchedulingKey) (bindings : β) :
    ℕ → List SequenceStep → Generation σ ρ → Generation σ ρ × Except Report Unit
  | _, [], g => (g, .ok ())
  | idx, step :: rest, g =>
    let label := step.name.getD step.template
    match g.prepare b spec s!"{sequence}.{label}" step.template step.withValue bindings inclusionKeys
        (.step sequence inst idx) with
    | (g, .ok ()) => prepareSteps sequence inst inclusionKeys bindings (idx + 1) rest g
    | (g, .error e) => (g, .error e)

/-- The body of the generation loop, for one picked item. -/
def prepareItem (g : Generation σ ρ) : MixItem → Generation σ ρ × Except Report Unit
  | .template name => g.prepare b spec name name .null b.setupBindings [] .template
  | .sequence name =>
    match spec.sequences.lookup name with
    | none => (g, .error [s!"sequence '{name}' not found"])
    | some steps =>
      let inst := g.sequenceInstances
      let sequenceKey := computeSequenceKey b.keccak256 name inst
      -- the counter is a `u64`, and arithmetic overflow panics
      if inst + 1 = 2 ^ 64 then (g, .error ["attempt to add with overflow"]) else
      let g := { g with sequenceInstances := inst + 1 }
      -- A single step has no dependent transaction to wait for its inclusion.
      let inclusionKeys := if steps.length > 1 then [sequenceKey] else []
      match b.resolveSequenceBindings name g.ctx with
      | .error e => (g, .error e)
      | .ok (bindings, ctx) =>
        prepareSteps b spec name inst inclusionKeys bindings 0 steps { g with ctx }

/-- `generate_txs`, for the items that are picked until the limits are reached. -/
def generateTxs : List MixItem → Generation σ ρ → Generation σ ρ × Except Report Unit
  | [], g => (g, .ok ())
  | item :: picks, g =>
    match g.prepareItem b spec item with
    | (g, .ok ()) => generateTxs picks g
    | (g, .error e) => (g, .error e)

end Loop

end Generation

/-! ## The signing pool -/

/-- `sign_prepared_materialized_template`; `signature` is the result of signing with the sender that
    the signature is for. Every adapter keeps the keys of the request. -/
def signPrepared {ρ : Type} (p : PreparedMaterializedTx ρ) (signature : Except Report Address) :
    Except Report GeneratedTx :=
  match p.lateSign with
  | some spec => .ok {
      id := some p.name
      lateSign := some spec
      sender := some p.sender
      submissionKeys := [p.key]
      inclusionKeys := p.inclusionKeys }
  | none => signature.map fun sender => {
      id := some p.name
      sender := some sender
      submissionKeys := [p.key]
      inclusionKeys := p.inclusionKeys }

/-- `results` is the channel of the workers, `running` what they work on, `written` the output. -/
structure SigningPool where
  running : List ℕ := []
  results : List (ℕ × Except Report GeneratedTx) := []
  completed : ℕ → Option GeneratedTx := fun _ => none
  nextSequence : ℕ := 0
  nextToWrite : ℕ := 0
  inFlight : ℕ := 0
  written : List GeneratedTx := []
  failed : Option Report := none

namespace SigningPool

/-- The loop of `write_ready`; the first argument bounds its turns. -/
def writeReady : ℕ → SigningPool → SigningPool
  | 0, pool => pool
  | fuel + 1, pool =>
    match pool.completed pool.nextToWrite with
    | none => pool
    | some tx => writeReady fuel { pool with
        completed := Function.update pool.completed pool.nextToWrite none
        written := pool.written ++ [tx]
        inFlight := pool.inFlight - 1
        nextToWrite := pool.nextToWrite + 1 }

def handleResult (pool : SigningPool) (sequence : ℕ) :
    Except Report GeneratedTx → SigningPool
  | .error e => { pool with failed := some e }
  | .ok tx =>
    writeReady pool.inFlight
      { pool with completed := Function.update pool.completed sequence (some tx) }

inductive Label
  /-- The next job is spawned. -/
  | submit
  /-- A worker is done with a job. -/
  | sign (sequence : ℕ) (signature : Except Report Address)
  /-- The generator handles the oldest result. -/
  | receive

def step {ρ : Type} (maxInFlight : ℕ) (jobs : List (Job ρ)) (pool : SigningPool) :
    Label → Option SigningPool
  | .submit =>
    if pool.failed = none ∧ pool.nextSequence < jobs.length ∧ pool.inFlight < maxInFlight then
      some { pool with
        running := pool.running ++ [pool.nextSequence]
        nextSequence := pool.nextSequence + 1
        inFlight := pool.inFlight + 1 }
    else none
  | .sign sequence signature =>
    if sequence ∈ pool.running then
      jobs[sequence]?.map fun job => { pool with
        running := pool.running.erase sequence
        results := pool.results ++ [(sequence, signPrepared job.prepared signature)] }
    else none
  | .receive =>
    match pool.failed, pool.results with
    | none, (sequence, result) :: rest =>
      some ({ pool with results := rest }.handleResult sequence result)
    | _, _ => none

end SigningPool

/-- The signing of the jobs; the number of jobs in flight is bounded. -/
def signingSystem {ρ : Type} (maxInFlight : ℕ) (jobs : List (Job ρ)) :
    System SigningPool SigningPool.Label where
  init := {}
  step := SigningPool.step maxInFlight jobs

end TxGen
