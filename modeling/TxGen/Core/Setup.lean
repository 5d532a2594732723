import TxGen.Core.GeneratedTx

set_option autoImplicit false

/-! # Submission order of a setup batch

`setupSubmissionOrder` validates a whole setup batch and returns the order in which its transactions
are handed to the sender: explicit receipt dependencies together with the input order on every
scheduling key, sorted topologically. -/

namespace TxGen

/-- Why a setup batch is refused. -/
inductive SetupError
  | workloadInBatch
  | missingId (index : ℕ)
  | duplicateId (id : String)
  | unknownDependency (id dependency : String)
  | cycle (blocked : List String)
deriving DecidableEq, Repr

/-- The message of the refusal. -/
def SetupError.message : SetupError → String
  | .workloadInBatch => "setup batch contains a workload transaction"
  | .missingId index => s!"setup transaction at index {index} requires a nonempty id"
  | .duplicateId id => s!"duplicate setup transaction id '{id}'"
  | .unknownDependency id dependency =>
    s!"setup transaction '{id}' depends on unknown transaction '{dependency}'"
  | .cycle blocked =>
    "setup dependency cycle: explicit receipt dependencies conflict with each other or nonce/scheduling-key order; blocked transactions: " ++
      ", ".intercalate blocked

/-- The transaction's id, unless it is absent or empty. -/
def GeneratedTx.nonemptyId (tx : GeneratedTx) : Option String :=
  tx.id.filter (· ≠ "")

/-- Index every id; each transaction must be a setup transaction with a new, nonempty id. -/
def setupIds : ℕ → List (String × ℕ) → List GeneratedTx → Except SetupError (List (String × ℕ))
  | _, ids, [] => .ok ids
  | index, ids, tx :: rest =>
    if tx.phase ≠ .setup then .error .workloadInBatch
    else match tx.nonemptyId with
      | none => .error (.missingId index)
      | some id =>
        if (ids.lookup id).isSome then .error (.duplicateId id)
        else setupIds (index + 1) (ids ++ [(id, index)]) rest

/-- Indices of the explicit dependencies of transaction `id`. -/
def dependencyIndices (ids : List (String × ℕ)) (id : String) :
    List String → Except SetupError (List ℕ)
  | [] => .ok []
  | dependency :: rest =>
    match ids.lookup dependency with
    | none => .error (.unknownDependency id dependency)
    | some prior => (dependencyIndices ids id rest).map (prior :: ·)

/-- The combined graph: the successors of every transaction and its number of predecessors. -/
structure SetupGraph where
  successors : List (List ℕ)
  incoming : List ℕ

/-- Record that `index` comes after each of `predecessors`. -/
def SetupGraph.addEdges (g : SetupGraph) (index : ℕ) (predecessors : List ℕ) : SetupGraph :=
  { successors := predecessors.foldl (fun succ prior => succ.modify prior (· ++ [index])) g.successors
    incoming := g.incoming.modify index (· + predecessors.length) }

/-- Add the edges of the transactions from `index` on. `previous` maps a key to the last transaction
    before `index` that has it. -/
def setupGraph (ids : List (String × ℕ)) :
    ℕ → List (SchedulingKey × ℕ) → SetupGraph → List GeneratedTx → Except SetupError SetupGraph
  | _, _, g, [] => .ok g
  | index, previous, g, tx :: rest =>
    match dependencyIndices ids (tx.id.getD "") tx.dependsOn with
    | .error e => .error e
    | .ok explicit =>
      let keys := tx.schedulingKeys.dedup
      let predecessors := (explicit ++ keys.filterMap fun key => previous.lookup key).dedup.mergeSort
      setupGraph ids (index + 1) (keys.map (·, index) ++ previous) (g.addEdges index predecessors)
        rest

/-- Take one predecessor off every transaction of `nexts`; those left without any become ready. -/
def relaxSuccessors (incoming ready : List ℕ) : List ℕ → List ℕ × List ℕ
  | [] => (incoming, ready)
  | next :: nexts =>
    let incoming := incoming.modify next (· - 1)
    let ready := if incoming[next]? = some 0 then ready ++ [next] else ready
    relaxSuccessors incoming ready nexts

/-- The loop over the ready queue. Every index is queued at most once, so `fuel` is the number of
    transactions. -/
def drainReady (successors : List (List ℕ)) :
    ℕ → List ℕ → List ℕ → List ℕ → List ℕ × List ℕ
  | fuel + 1, index :: ready, incoming, order =>
    let (incoming, ready) := relaxSuccessors incoming ready (successors.getD index [])
    drainReady successors fuel ready incoming (order ++ [index])
  | _, _, incoming, order => (order, incoming)

/-- Validate a complete setup batch and return a submission order. -/
def setupSubmissionOrder (transactions : List GeneratedTx) : Except SetupError (List ℕ) :=
  match setupIds 0 [] transactions with
  | .error e => .error e
  | .ok ids =>
    let n := transactions.length
    match setupGraph ids 0 [] ⟨List.replicate n [], List.replicate n 0⟩ transactions with
    | .error e => .error e
    | .ok g =>
      let ready := (List.range n).filter fun index => g.incoming[index]? = some 0
      let (order, incoming) := drainReady g.successors n ready g.incoming []
      if order.length ≠ n then
        let blocked := (List.range n).filter fun index => decide (0 < incoming.getD index 0)
        .error (.cycle ((blocked.take 12).filterMap fun index => transactions[index]?.bind (·.id)))
      else .ok order

/-! ## What an accepted batch looks like -/

theorem setupIds_keys {transactions : List GeneratedTx} {index : ℕ} {ids ids' : List (String × ℕ)}
    (h : setupIds index ids transactions = .ok ids') {name : String}
    (hname : (ids'.lookup name).isSome) :
    (ids.lookup name).isSome ∨ ∃ tx ∈ transactions, tx.nonemptyId = some name := by
  induction transactions generalizing index ids with
  | nil =>
      simp only [setupIds, Except.ok.injEq] at h
      exact Or.inl (h ▸ hname)
  | cons tx rest ih =>
      simp only [setupIds] at h
      split at h
      · cases h
      split at h
      · cases h
      rename_i id hid
      split at h
      · cases h
      rcases ih h with hold | ⟨tx', htx', hid'⟩
      · rw [List.lookup_append] at hold
        cases hl : ids.lookup name with
        | some i => exact Or.inl rfl
        | none =>
            rw [hl] at hold
            simp only [Option.none_or, List.lookup_cons, List.lookup_nil] at hold
            split at hold
            · rename_i heq
              exact Or.inr ⟨tx, List.mem_cons_self, by rw [hid, beq_iff_eq.1 heq]⟩
            · cases hold
      · exact Or.inr ⟨tx', List.mem_cons_of_mem _ htx', hid'⟩

theorem dependencyIndices_known {ids : List (String × ℕ)} {id : String} {deps : List String}
    {is : List ℕ} (h : dependencyIndices ids id deps = .ok is) :
    ∀ d ∈ deps, (ids.lookup d).isSome := by
  induction deps generalizing is with
  | nil => intro d hd; cases hd
  | cons dep rest ih =>
      simp only [dependencyIndices] at h
      split at h
      · cases h
      rename_i prior hprior
      intro d hd
      rcases List.mem_cons.1 hd with rfl | hd
      · rw [hprior]; rfl
      · cases hr : dependencyIndices ids id rest with
        | error e => rw [hr] at h; cases h
        | ok is' => exact ih hr d hd

theorem setupGraph_known {ids : List (String × ℕ)} {transactions : List GeneratedTx} {index : ℕ}
    {previous : List (SchedulingKey × ℕ)} {g g' : SetupGraph}
    (h : setupGraph ids index previous g transactions = .ok g') :
    ∀ tx ∈ transactions, ∀ d ∈ tx.dependsOn, (ids.lookup d).isSome := by
  induction transactions generalizing index previous g with
  | nil => intro tx htx; cases htx
  | cons tx rest ih =>
      simp only [setupGraph] at h
      split at h
      · cases h
      rename_i explicit hdeps
      intro tx' htx'
      rcases List.mem_cons.1 htx' with rfl | htx'
      · exact dependencyIndices_known hdeps
      · exact ih h tx' htx'

/-- Every dependency in an accepted batch names a transaction of the batch. -/
theorem setupSubmissionOrder_closed {transactions : List GeneratedTx} {order : List ℕ}
    (h : setupSubmissionOrder transactions = .ok order) :
    ∀ tx ∈ transactions, ∀ d ∈ tx.dependsOn, ∃ tx' ∈ transactions, tx'.nonemptyId = some d := by
  simp only [setupSubmissionOrder] at h
  split at h
  · cases h
  rename_i ids hids
  split at h
  · cases h
  rename_i g hg
  intro tx htx d hd
  rcases setupIds_keys hids (setupGraph_known hg tx htx d hd) with hnil | hex
  · cases hnil
  · exact hex

end TxGen
