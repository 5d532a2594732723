import TxGen.Generate.Sequences
import TxGen.Sender.Calls
import TxGen.Sender.Inclusion

set_option autoImplicit false

/-! # Sequences, from the generator to the wire

The records that the generator writes reach `send` in their order, mixed with other transactions.
Steps of a sequence instance share a key that nothing else carries, so a step is dispatched only after
the verdict on each step before it. -/

namespace TxGen

open Sender

/-! ## Feeding a sender -/

/-- `mixed` tells of each call to `send` which record of the stream it passes, if any; the records are
    passed in the order of the stream. -/
structure Feeds (stream : List GeneratedTx) (sends : List (ℕ × GeneratedTx))
    (mixed : List (Option ℕ)) : Prop where
  length : mixed.length = sends.length
  inOrder : ∃ n, mixed.reduceOption = List.range n
  record : ∀ i n : ℕ, mixed[i]? = some (some n) → sends[i]?.map Prod.snd = stream[n]?

/-- The `n`-th record was passed in call `c`. -/
def SentAs (sends : List (ℕ × GeneratedTx)) (mixed : List (Option ℕ)) (n c : ℕ) : Prop :=
  ∃ (i : ℕ) (tx : GeneratedTx), mixed[i]? = some (some n) ∧ sends[i]? = some (c, tx)

/-- A sender that is passed the first records and nothing else. -/
theorem Feeds.of_take {stream : List GeneratedTx} {sends : List (ℕ × GeneratedTx)} {n : ℕ}
    (hn : sends.length = n) (h : sends.map Prod.snd = stream.take n) :
    Feeds stream sends ((List.range n).map some) := by
  refine ⟨by simp [hn], ⟨n, ?_⟩, fun i m hi => ?_⟩
  · simp [List.reduceOption]
  · rw [List.getElem?_map, Option.map_eq_some_iff] at hi
    obtain ⟨_, hm, heq⟩ := hi
    obtain ⟨hlt, hm⟩ := List.getElem?_eq_some_iff.1 hm
    obtain rfl : i = m := by simpa [Option.some.inj heq] using hm
    rw [← List.getElem?_map, h, List.getElem?_take_of_lt (by simpa using hlt)]

/-- What is passed in order was passed up to the last one. -/
theorem exists_before_of_range {mixed : List (Option ℕ)} {m i n n' : ℕ}
    (h : mixed.reduceOption = List.range m) (hi : mixed[i]? = some (some n)) (hn : n' < n) :
    ∃ i' < i, mixed[i']? = some (some n') := by
  obtain ⟨hlt, hget⟩ := List.getElem?_eq_some_iff.1 hi
  have hsplit : mixed = mixed.take i ++ some n :: mixed.drop (i + 1) := by
    rw [← hget, ← List.drop_eq_getElem_cons hlt, List.take_append_drop]
  rw [hsplit, List.reduceOption_append, List.reduceOption_cons_of_some] at h
  have hlen : (mixed.take i).reduceOption.length < m := by
    have := congrArg List.length h
    simp only [List.length_append, List.length_cons, List.length_range] at this
    omega
  have hn' : (mixed.take i).reduceOption.length = n := by
    have := congrArg (fun l => l[(mixed.take i).reduceOption.length]?) h
    simpa [List.getElem?_range hlen] using this.symm
  have hin : n' ∈ (mixed.take i).reduceOption := by
    have hget : (List.range m)[n']? = some n' := List.getElem?_range (by omega)
    rw [← h, List.getElem?_append_left (hn' ▸ hn)] at hget
    exact List.mem_of_getElem? hget
  rw [List.reduceOption_mem_iff] at hin
  obtain ⟨i', hi'⟩ := List.mem_iff_getElem?.1 hin
  have hlt' : i' < i := by
    have := (List.getElem?_eq_some_iff.1 hi').1
    exact this.trans_le (List.length_take_le _ _)
  exact ⟨i', hlt', (List.getElem?_take_of_lt hlt').symm.trans hi'⟩

theorem SentAs.before {stream : List GeneratedTx} {sends : List (ℕ × GeneratedTx)}
    {mixed : List (Option ℕ)} (h : Feeds stream sends mixed)
    (hsorted : sends.Pairwise fun x y => x.1 < y.1) {n c n' : ℕ} (hc : SentAs sends mixed n c)
    (hn : n' < n) : ∃ c' < c, SentAs sends mixed n' c' := by
  obtain ⟨i, tx, hi, htx⟩ := hc
  obtain ⟨m, hm⟩ := h.inOrder
  obtain ⟨i', hlt, hi'⟩ := exists_before_of_range hm hi hn
  obtain ⟨hilt, hget⟩ := List.getElem?_eq_some_iff.1 htx
  have hilt' : i' < sends.length := hlt.trans hilt
  refine ⟨sends[i'].1, ?_, i', sends[i'].2, hi', List.getElem?_eq_getElem hilt'⟩
  have := List.pairwise_iff_getElem.1 hsorted i' i hilt' hilt hlt
  rwa [hget] at this

/-- What was passed in a call that passed the `n`-th record is that record, with the keys of its job. -/
theorem SentAs.record {ρ : Type} {jobs : List (Job ρ)} {pool : SigningPool} (hpool : pool.Inv jobs)
    {sends : List (ℕ × GeneratedTx)} {mixed : List (Option ℕ)} (h : Feeds pool.written sends mixed)
    (hsorted : sends.Pairwise fun x y => x.1 < y.1) {n c : ℕ} (hc : SentAs sends mixed n c)
    {tx : GeneratedTx} (hin : (c, tx) ∈ sends) : ∃ job, jobs[n]? = some job ∧
      tx.submissionKeys = [job.prepared.key] ∧ tx.inclusionKeys = job.prepared.inclusionKeys := by
  obtain ⟨i, tx', hi, htx'⟩ := hc
  obtain ⟨j, hj⟩ := List.mem_iff_getElem?.1 hin
  obtain rfl := List.place_unique Prod.fst (hsorted.imp fun hlt => ne_of_lt hlt) htx' hj rfl
  obtain rfl := (Prod.mk.inj (Option.some.inj (htx'.symm.trans hj))).2
  have hrecord := h.record i n hi
  rw [htx'] at hrecord
  exact (hpool.written n tx' hrecord.symm).keys

/-! ## The keys of the records -/

/-- The hash tells the sequence instances of the run apart, and no key of another kind is one of
    theirs. -/
structure NoCollision {ρ : Type} (keccak256 : List UInt8 → BitVec 256) (jobs : List (Job ρ))
    (sends : List (ℕ × GeneratedTx)) (mixed : List (Option ℕ)) : Prop where
  hash : ∀ x ∈ jobs, ∀ y ∈ jobs, ∀ s inst idx s' inst' idx', x.origin = .step s inst idx →
    y.origin = .step s' inst' idx' →
    schedulingKeyFromHash (keccak256 (sequenceKeyData s inst)) =
      schedulingKeyFromHash (keccak256 (sequenceKeyData s' inst')) →
    sequenceKeyData s inst = sequenceKeyData s' inst'
  generated : ∀ x ∈ jobs, ∀ s inst idx, x.origin = .step s inst idx → ∀ y ∈ jobs,
    y.prepared.key ≠ computeSequenceKey keccak256 s inst
  mixedIn : ∀ x ∈ jobs, ∀ s inst idx, x.origin = .step s inst idx → ∀ (i c : ℕ) (tx : GeneratedTx),
    mixed[i]? = some none → sends[i]? = some (c, tx) →
    computeSequenceKey keccak256 s inst ∉ tx.schedulingKeys

section

variable {σ β ρ : Type} {b : Builder σ β ρ} {spec : WorkloadSpec} {g : Generation σ ρ}

/-- Two steps of an instance share its key. -/
theorem Generation.Inv.shared_key (h : Generation.Inv b spec g) {n n' : ℕ} {x y : Job ρ} {s s' : String}
    {inst idx idx' : ℕ} (hx : g.jobs[n]? = some x) (hy : g.jobs[n']? = some y)
    (hxo : x.origin = .step s inst idx) (hyo : y.origin = .step s' inst idx') (hidx : idx < idx') :
    n < n' ∧ x.prepared.inclusionKeys = [computeSequenceKey b.keccak256 s inst] ∧
      y.prepared.inclusionKeys = [computeSequenceKey b.keccak256 s inst] := by
  obtain ⟨hnlt, rfl⟩ := List.getElem?_eq_some_iff.1 hx
  obtain ⟨hnlt', rfl⟩ := List.getElem?_eq_some_iff.1 hy
  have hlt : n < n' := by
    rcases Nat.lt_trichotomy n n' with hlt | rfl | hgt
    · exact hlt
    · cases hxo.symm.trans hyo
      exact absurd hidx (Nat.lt_irrefl _)
    · have hordered := List.pairwise_iff_getElem.1 h.ordered n' n hnlt' hnlt hgt
      exact absurd (hordered _ _ _ _ _ hyo hxo).2 hidx.asymm
  obtain ⟨rfl, -⟩ :=
    List.pairwise_iff_getElem.1 h.ordered n n' hnlt hnlt' hlt s s' inst idx idx' hxo hyo
  have hkx := h.keys _ (List.getElem_mem hnlt)
  have hky := h.keys _ (List.getElem_mem hnlt')
  rw [hxo] at hkx
  rw [hyo] at hky
  obtain ⟨steps, hsteps, -, hkx⟩ := hkx
  obtain ⟨steps', hsteps', hlen, hky⟩ := hky
  obtain rfl := Option.some.inj (hsteps.symm.trans hsteps')
  rw [if_pos (by omega)] at hkx hky
  exact ⟨hlt, hkx, hky⟩

/-- A record that is not a step of the instance does not carry its key. -/
theorem Generation.Inv.foreign_key (h : Generation.Inv b spec g) {sends : List (ℕ × GeneratedTx)}
    {mixed : List (Option ℕ)} (hno : NoCollision b.keccak256 g.jobs sends mixed) {x y : Job ρ} {s : String} {inst idx : ℕ}
    (hx : x ∈ g.jobs) (hy : y ∈ g.jobs) (hxo : x.origin = .step s inst idx)
    (hyo : ∀ s' idx', y.origin ≠ .step s' inst idx') :
    computeSequenceKey b.keccak256 s inst ≠ y.prepared.key ∧
      computeSequenceKey b.keccak256 s inst ∉ y.prepared.inclusionKeys := by
  refine ⟨(hno.generated x hx s inst idx hxo y hy).symm, fun hin => ?_⟩
  have hky := h.keys y hy
  cases horigin : y.origin with
  | template =>
      rw [horigin] at hky
      rw [show y.prepared.inclusionKeys = [] from hky] at hin
      cases hin
  | step s' inst' idx' =>
      rw [horigin] at hky
      obtain ⟨steps, -, -, hky⟩ := hky
      rw [hky] at hin
      split at hin
      · have hsame := hno.hash x hx y hy s inst idx s' inst' idx' hxo horigin
          (List.mem_singleton.1 hin)
        have hlt := (h.counted x hx s inst idx hxo).trans h.bounded
        have hlt' := (h.counted y hy s' inst' idx' horigin).trans h.bounded
        obtain rfl := sequenceKeyData_instance hlt hlt' hsame
        exact hyo s' idx' horigin
      · cases hin

end

/-! ## The guarantee -/

/-- What holds for the sequence instances among the `jobs` in the state `st` that the run `ls` of the
    sender leads to. -/
structure SequencesOrdered {ρ : Type} (keccak256 : List UInt8 → BitVec 256) (jobs : List (Job ρ))
    (cfg : Config) (mixed : List (Option ℕ)) (ls : List Label) (st : State) : Prop where
  /-- A step is on the wire only after each earlier step was refused by `send`, was dropped from the
      queue without having been dispatched, or had its verdict. -/
  steps : ∀ (n n' : ℕ) (x y : Job ρ) (s s' : String) (inst idx idx' : ℕ), jobs[n]? = some x →
    jobs[n']? = some y → x.origin = .step s inst idx → y.origin = .step s' inst idx' → idx < idx' →
    ∀ b ∈ st.sender.log.accepted, SentAs st.calls.sends mixed n' b.call →
      st.sender.DispatchedTx b.entry → ∃ c, SentAs st.calls.sends mixed n c ∧
        ((∃ e, (c, .error e) ∈ st.calls.outcomes) ∨ ∃ a ∈ st.sender.log.accepted, a.call = c ∧
          a.entry ∉ st.sender.pending ∧ (st.sender.DispatchedTx a.entry →
            ∃ v, (senderSystem cfg).Happened (fun st l => VerdictOn cfg a.entry v st l ∧
              ¬ st.sender.DispatchedTx b.entry) {} ls st))
  /-- Whatever is not a step of the instance is never passed over for its key. -/
  others : ∀ (x : Job ρ) (s : String) (inst idx : ℕ), x ∈ jobs → x.origin = .step s inst idx →
    ∀ (j : ℕ) (p : PendingTx), st.sender.pending[j]? = some p →
    ∀ a ∈ st.sender.log.accepted, a.entry = p →
      (∀ (n : ℕ) (y : Job ρ) (s' : String) (idx' : ℕ), SentAs st.calls.sends mixed n a.call →
        jobs[n]? = some y → y.origin ≠ .step s' inst idx') →
      ¬ st.sender.WaitsForKey j (computeSequenceKey keccak256 s inst) ∧
        ((∀ i, st.sender.nextReadyIndex = some i → j < i) → st.sender.dependenciesMet p = false ∨
          ∃ k ≠ computeSequenceKey keccak256 s inst, st.sender.WaitsForKey j k)

/-- **Sequence order, end to end.** For every generation and every way its transactions are signed,
    and for every run of a sender that is fed what was written so far, mixed with other
    transactions. -/
theorem sequences_ordered {σ β ρ : Type} {b : Builder σ β ρ} {spec : WorkloadSpec} {ctx : σ}
    {picks : List MixItem} {jobs : List (Job ρ)}
    (hjobs : (Generation.generateTxs b spec picks { ctx }).1.jobs = jobs) {maxInFlight : ℕ}
    {pool : SigningPool} (hpool : (signingSystem maxInFlight jobs).Reachable pool) {cfg : Config}
    {ls : List Label} {st : State} (hrun : (senderSystem cfg).Run System.anyStep {} ls st)
    {mixed : List (Option ℕ)} (hfeeds : Feeds pool.written st.calls.sends mixed)
    (hno : NoCollision b.keccak256 jobs st.calls.sends mixed) :
    SequencesOrdered b.keccak256 jobs cfg mixed ls st := by
  subst hjobs
  have hreach : (senderSystem cfg).Reachable st := ⟨ls, hrun⟩
  have hinv : Generation.Inv b spec (Generation.generateTxs b spec picks { ctx }).1 :=
    Generation.inv_generateTxs (Generation.inv_init ctx) picks
  have hsigned := SigningPool.inv_reachable hpool
  have hsends := sends_reachable hreach
  refine ⟨fun n n' x y s s' inst idx idx' hx hy hxo hyo hidx y' hy' hsent hdispatched => ?_,
    fun x s inst idx hx hxo j p hp a ha hap hforeign => ?_⟩
  · obtain ⟨hlt, hkx, hky⟩ := hinv.shared_key hx hy hxo hyo hidx
    obtain ⟨c, hc, hsentc⟩ := hsent.before hfeeds hsends.sorted hlt
    refine ⟨c, hsentc, ?_⟩
    have ⟨i, tx, _, hi⟩ := hsentc
    have hin := List.mem_of_getElem? hi
    refine (accepted_or_refused hreach hin hy' hc).symm.imp_right fun ⟨x', hx', hcall, hsource⟩ => ?_
    obtain ⟨_, hzx, -, hkx'⟩ := hsentc.record hsigned hfeeds hsends.sorted hin
    obtain ⟨_, hzy, -, hky'⟩ := hsent.record hsigned hfeeds hsends.sorted (hsends.accepted y' hy')
    obtain rfl := Option.some.inj (hx.symm.trans hzx)
    obtain rfl := Option.some.inj (hy.symm.trans hzy)
    refine ⟨x', hx', hcall, dispatched_after_verdict hrun hx' hy' (hcall ▸ hc)
      (k := computeSequenceKey b.keccak256 s inst) ?_ ?_ hdispatched⟩
    · rw [hsource, hkx', hkx]
      exact List.mem_singleton_self _
    · rw [GeneratedTx.schedulingKeys, hky', hky]
      exact List.mem_append_right _ (List.mem_singleton_self _)
  · have hkey : computeSequenceKey b.keccak256 s inst ∉ p.schedulingKeys := by
      rw [← hap, (acceptedInv_reachable hreach).keys a ha]
      obtain ⟨i, hi⟩ := List.mem_iff_getElem?.1 (hsends.accepted a ha)
      have hlt : i < mixed.length := hfeeds.length ▸ (List.getElem?_eq_some_iff.1 hi).1
      cases hmixed : mixed[i] with
      | none =>
          exact hno.mixedIn x hx s inst idx hxo i a.call a.source
            (List.getElem?_eq_some_iff.2 ⟨hlt, hmixed⟩) hi
      | some n =>
          have hsent : SentAs st.calls.sends mixed n a.call :=
            ⟨i, a.source, List.getElem?_eq_some_iff.2 ⟨hlt, hmixed⟩, hi⟩
          obtain ⟨y, hy, hsub, hinc⟩ :=
            hsent.record hsigned hfeeds hsends.sorted (hsends.accepted a ha)
          obtain ⟨hne, hnot⟩ := hinv.foreign_key hno hx (List.mem_of_getElem? hy) hxo
            fun s' idx' => hforeign n y s' idx' hsent hy
          rw [GeneratedTx.schedulingKeys, hsub, hinc, List.mem_append, List.mem_singleton]
          exact not_or.2 ⟨hne, hnot⟩
    have hwaits : ¬ st.sender.WaitsForKey j (computeSequenceKey b.keccak256 s inst) := by
      rintro ⟨p', hp', hin, -⟩
      obtain rfl := Option.some.inj (hp.symm.trans hp')
      exact hkey hin
    refine ⟨hwaits, fun hpassed => (passed_over hp hpassed).imp_right fun ⟨k, hk⟩ => ⟨k, ?_, hk⟩⟩
    rintro rfl
    exact hwaits hk

/-! ### A sequence of two steps -/

namespace Generation.Sample

open TxGen.Sample

/-- The hash of the one sequence instance below. -/
def keccak256 (data : List UInt8) : BitVec 256 :=
  if data = sequenceKeyData "pair" 0 then
    0x05e4c954b842f852b6abe3cf08066028c6d50cc6cf65fe1014f32684f6bc5b22
  else 0

/-- A template names its account; transactions are ordered by their account. -/
def builder : Builder Unit Unit Unit where
  keccak256
  setupBindings := ()
  resolveSequenceBindings := fun _ ctx => .ok ((), ctx)
  buildRequest := fun value _ _ ctx =>
    let account : Address := if value.beq (.string "owner") then 1 else 2
    .ok ({ request := (), key := ⟨account⟩, sender := account }, ctx)

/-- The spender acts once the owner has approved, and transfers on its own account as well. -/
def spec : WorkloadSpec where
  templates := [("approve", .string "owner"), ("spend", .string "spender"),
    ("transfer", .string "spender")]
  sequences := [("pair", [{ template := "approve" }, { template := "spend" }])]

def jobs : List (Job Unit) :=
  (generateTxs builder spec [.sequence "pair", .template "transfer"] { ctx := () }).1.jobs

/-- The second transaction is signed first. -/
def signing : List SigningPool.Label :=
  [.submit, .submit, .sign 1 (.ok 2), .receive, .submit, .sign 0 (.ok 1), .sign 2 (.ok 2), .receive,
    .receive]

def pairKey : SchedulingKey := ⟨0x05e4c954b842f852b6abe3cf08066028c6d50cc6⟩

def approve : GeneratedTx :=
  { id := "pair.approve", sender := some 1, submissionKeys := [⟨1⟩], inclusionKeys := [pairKey] }

def spend : GeneratedTx :=
  { id := "pair.spend", sender := some 2, submissionKeys := [⟨2⟩], inclusionKeys := [pairKey] }

def transfer : GeneratedTx := { id := "transfer", sender := some 2, submissionKeys := [⟨2⟩] }

/-- Everything before the answer to the submission of the first transaction. -/
def submitting : List Label :=
  [.send approve] ++ turns 4 ++ [.worker 0 (.prepared (.ok ())), .worker 0 (.signed true),
    .worker 0 (.registered (.ok ()))]

/-- It is included, and the second step follows. -/
def included : List Label :=
  submitting ++ [.worker 0 (.submitted .accepted), .emit 0,
    .worker 0 (.observed (.ok (.included (some true)))), .emit 0, .send spend] ++ turns 6

/-- The response is lost, and the second step follows at once. -/
def responseLost : List Label :=
  submitting ++ [.worker 0 (.submitted .lost), .emit 0, .send spend] ++ turns 5

/-- The receipt tracker gives up, and the second step follows. -/
def trackerStopped : List Label :=
  submitting ++ [.worker 0 (.submitted .accepted), .emit 0,
    .worker 0 (.observed (.error "timed out waiting for transaction inclusion")), .emit 0, .send spend] ++ turns 6

/-- The transfer shares its account with the step that waits for the inclusion of the first one. -/
def behind : List Label :=
  submitting ++ [.worker 0 (.submitted .accepted), .emit 0, .send spend] ++ turns 3 ++
    [.send transfer] ++ turns 2

/-- The two steps were passed to `send` and are with their workers. -/
def BothDispatched (st : State) : Prop :=
  st.calls.sends = [(1, approve), (2, spend)] ∧
    (st.sender.log.accepted.map fun a => (a.call, a.source, a.entry.lateSign)) =
      [(1, approve, none), (2, spend, none)] ∧
    st.sender.workers.map Worker.tx = st.sender.log.accepted.map Accepted.entry

instance : DecidablePred BothDispatched := fun _ => inferInstanceAs (Decidable (_ ∧ _))

/-- The step cannot bring a definite verdict on a transaction that is signed already. -/
def indefinite : Label → Bool
  | .worker _ (.observed (.ok _)) | .worker _ (.submitted .rejected)
  | .worker _ (.prepared (.error _)) | .worker _ (.registered (.error _)) => false
  | _ => true

theorem not_definite_of_indefinite {st : State} {l : Label} {p : PendingTx} {v : InclusionVerdict}
    (hl : indefinite l = true) (hp : p.lateSign = none) (h : VerdictOn config p v st l) :
    v.definite = false := by
  obtain ⟨index, event, w, rfl, -, rfl, hv⟩ := h
  cases event with
  | crash => cases hv
  | signed ok => simp [Worker.verdict, hp] at hv
  | prepared r =>
      cases r with
      | ok u => cases hv
      | error e => cases hl
  | registered r =>
      cases r with
      | ok u => cases hv
      | error e => cases hl
  | submitted r =>
      cases r with
      | accepted => cases hv
      | rejected => cases hl
      | lost =>
          cases hv
          rfl
  | observed r =>
      cases r with
      | ok i => cases hl
      | error e =>
          have hunobserved : v = .unobserved := by
            cases hst : w.stage <;> simp_all [Worker.verdict]
          exact hunobserved ▸ rfl

theorem written : ∃ pool, (signingSystem 128 jobs).Reachable pool ∧
    pool.written = [approve, spend, transfer] := by
  have hcheck : ((signingSystem 128 jobs).exec {} signing).any
      (fun pool => decide (pool.written = [approve, spend, transfer])) = true := by
    decide +kernel
  obtain ⟨pool, hrun, hwritten⟩ :=
    System.run_of_check (P := fun pool : SigningPool => pool.written = [approve, spend, transfer]) hcheck
  exact ⟨pool, ⟨_, hrun⟩, hwritten⟩

theorem noCollision (sends : List (ℕ × GeneratedTx)) (n : ℕ) :
    NoCollision keccak256 jobs sends ((List.range n).map some) := by
  have hall : ∀ x ∈ jobs, (x.origin = .template ∨ x.origin = .step "pair" 0 0 ∨
      x.origin = .step "pair" 0 1) ∧ x.prepared.key ≠ computeSequenceKey keccak256 "pair" 0 := by
    decide
  have hstep : ∀ x ∈ jobs, ∀ s inst idx, x.origin = .step s inst idx → s = "pair" ∧ inst = 0 := by
    intro x hx s inst idx horigin
    rcases (hall x hx).1 with h | h | h <;> rw [horigin] at h <;> cases h <;> exact ⟨rfl, rfl⟩
  refine ⟨fun x hx y hy s inst idx s' inst' idx' hxo hyo _ => ?_,
    fun x hx s inst idx hxo y hy => ?_, fun x _ s inst idx _ i c tx hi => ?_⟩
  · obtain ⟨rfl, rfl⟩ := hstep x hx s inst idx hxo
    obtain ⟨rfl, rfl⟩ := hstep y hy s' inst' idx' hyo
    rfl
  · obtain ⟨rfl, rfl⟩ := hstep x hx s inst idx hxo
    exact (hall y hy).2
  · simp at hi

/-- The second step is on the wire, and there was no definite verdict on the first one before. -/
def Overtakes (ls : List Label) (st : State) : Prop :=
  ∃ a b, a ∈ st.sender.log.accepted ∧ b ∈ st.sender.log.accepted ∧ a.source = approve ∧
    b.source = spend ∧ st.sender.DispatchedTx a.entry ∧ st.sender.DispatchedTx b.entry ∧
    ∀ v, v.definite = true → ¬ (senderSystem config).Happened (fun st l =>
      VerdictOn config a.entry v st l ∧ ¬ st.sender.DispatchedTx b.entry) {} ls st

theorem overtakes_of_indefinite {ls : List Label} {st : State} (hboth : BothDispatched st)
    (hall : ∀ l ∈ ls, indefinite l = true) : Overtakes ls st := by
  obtain ⟨-, haccepted, hworkers⟩ := hboth
  rw [List.map_eq_cons_iff] at haccepted
  obtain ⟨a, rest, hlog, ha, hrest⟩ := haccepted
  rw [List.map_eq_cons_iff] at hrest
  obtain ⟨b, rest', rfl, hb, -⟩ := hrest
  have hdispatched : ∀ c ∈ st.sender.log.accepted, st.sender.DispatchedTx c.entry := by
    intro c hc
    exact List.mem_map.1 (hworkers ▸ List.mem_map_of_mem hc)
  simp only [Prod.mk.injEq] at ha hb
  have hain : a ∈ st.sender.log.accepted := hlog ▸ List.mem_cons_self
  have hbin : b ∈ st.sender.log.accepted := hlog ▸ List.mem_cons_of_mem _ List.mem_cons_self
  refine ⟨a, b, hain, hbin, ha.2.1, hb.2.1, hdispatched a hain, hdispatched b hbin, ?_⟩
  rintro v hv ⟨before, l, after, u, u', rfl, -, -, -, hverdict, -⟩
  have := not_definite_of_indefinite (hall l (by simp)) ha.2.2 hverdict
  rw [hv] at this
  cases this

end Generation.Sample

open Sample Generation.Sample in
theorem sequences_ordered_included : ∃ (pool : SigningPool) (st : State),
    (signingSystem 128 jobs).Reachable pool ∧ pool.written = [approve, spend, transfer] ∧
    (senderSystem config).Run System.anyStep {} included st ∧ BothDispatched st ∧
    SequencesOrdered keccak256 jobs config [some 0, some 1] included st := by
  obtain ⟨pool, hpool, hwritten⟩ := written
  have hcheck : ((senderSystem config).exec {} included).any
      (fun st => decide (BothDispatched st)) = true := by
    decide
  obtain ⟨st, hrun, hboth⟩ := System.run_of_check hcheck
  have hfeeds : Feeds pool.written st.calls.sends [some 0, some 1] :=
    Feeds.of_take (n := 2) (by rw [hboth.1]; rfl) (by rw [hboth.1, hwritten]; rfl)
  exact ⟨pool, st, hpool, hwritten, hrun, hboth,
    sequences_ordered (b := builder) rfl hpool hrun hfeeds (noCollision st.calls.sends 2)⟩

open Sample Generation.Sample in
/-- A response that is lost and a receipt tracker that gives up let the next step pass without a
    definite verdict; and the first step's key, through the queue, holds up a transaction that only
    shares an account with the second. -/
theorem sequence_steps_overtake : ∃ pool : SigningPool, (signingSystem 128 jobs).Reachable pool ∧
    pool.written = [approve, spend, transfer] ∧
    jobs.map Job.origin = [.step "pair" 0 0, .step "pair" 0 1, .template] ∧
    (∀ ls ∈ [responseLost, trackerStopped], ∃ st, (senderSystem config).Run System.anyStep {} ls st ∧
      Feeds pool.written st.calls.sends [some 0, some 1] ∧ Overtakes ls st) ∧
    ∃ st, (senderSystem config).Run System.anyStep {} behind st ∧
      Feeds pool.written st.calls.sends [some 0, some 1, some 2] ∧
      st.sender.pending.map PendingTx.id = [spend.id, transfer.id] ∧
      ∀ k ∈ transfer.schedulingKeys, k ∉ st.sender.activeKeys ∧
        ∀ w ∈ st.sender.workers, k ∉ w.tx.schedulingKeys := by
  obtain ⟨pool, hpool, hwritten⟩ := written
  have hovertakes : ∀ ls, ((senderSystem config).exec {} ls).any
      (fun st => decide (BothDispatched st)) = true → (∀ l ∈ ls, indefinite l = true) →
      ∃ st, (senderSystem config).Run System.anyStep {} ls st ∧
        Feeds pool.written st.calls.sends [some 0, some 1] ∧ Overtakes ls st := by
    intro ls hcheck hall
    obtain ⟨st, hrun, hboth⟩ := System.run_of_check hcheck
    have hsends := hboth.1
    refine ⟨st, hrun, ?_, overtakes_of_indefinite hboth hall⟩
    exact Feeds.of_take (n := 2) (by rw [hsends]; rfl) (by rw [hsends, hwritten]; rfl)
  refine ⟨pool, hpool, hwritten, by decide +kernel, fun ls hls => ?_, ?_⟩
  · rcases List.mem_cons.1 hls with rfl | hls
    · exact hovertakes _ (by decide +kernel) (by decide +kernel)
    · obtain rfl := List.mem_singleton.1 hls
      exact hovertakes _ (by decide +kernel) (by decide +kernel)
  · have hcheck : ((senderSystem config).exec {} behind).any (fun st => decide
        (st.calls.sends = [(1, approve), (2, spend), (3, transfer)] ∧
          st.sender.pending.map PendingTx.id = [spend.id, transfer.id] ∧
          ∀ k ∈ transfer.schedulingKeys, k ∉ st.sender.activeKeys ∧
            ∀ w ∈ st.sender.workers, k ∉ w.tx.schedulingKeys)) = true := by
      decide +kernel
    obtain ⟨st, hrun, hsends, hpending, hfree⟩ := System.run_of_check hcheck
    refine ⟨st, hrun, ?_, hpending, hfree⟩
    exact Feeds.of_take (n := 3) (by rw [hsends]; rfl) (by rw [hsends, hwritten]; rfl)

end TxGen
