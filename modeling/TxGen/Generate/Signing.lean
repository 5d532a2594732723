import TxGen.Generate.Sequences

set_option autoImplicit false

/-! # The calls of the signing pool

`signingCalls` refines `signingSystem`: the thread of the generator is in `submit`, where it drains the
channel and then waits until a job may be in flight, or in `finish`, where it waits until none is.
Meanwhile workers finish their jobs in any order. -/

namespace TxGen

/-- `worker_count.saturating_mul(64)` -/
def maxInFlight (workerCount : ℕ) : ℕ := min (workerCount * 64) (2 ^ 64 - 1)

theorem maxInFlight_pos {workerCount : ℕ} (h : 0 < workerCount) : 0 < maxInFlight workerCount := by
  rw [maxInFlight, lt_min_iff]
  omega

namespace SigningPool

/-- Where the thread of the generator is. -/
inductive Call
  | idle
  /-- `submit`, in `drain_available` -/
  | draining
  /-- `submit`, in its loop -/
  | waiting
  | finishing
  /-- `finish` has returned -/
  | finished
deriving DecidableEq

structure Thread where
  pool : SigningPool := {}
  call : Call := .idle

/-- The thread is in a call. -/
def Thread.InCall (t : Thread) : Prop :=
  t.call = .draining ∨ t.call = .waiting ∨ t.call = .finishing

instance (t : Thread) : Decidable t.InCall := inferInstanceAs (Decidable (_ ∨ _ ∨ _))

/-- The thread waits for a result (`recv_one`). -/
def Thread.AwaitsResult (maxInFlight : ℕ) (t : Thread) : Prop :=
  (t.call = .waiting ∧ maxInFlight ≤ t.pool.inFlight) ∨ (t.call = .finishing ∧ 0 < t.pool.inFlight)

/-- After the oldest result was handled; an error ends the call. -/
def Thread.receive (t : Thread) : Option Thread :=
  match t.pool.results with
  | [] => none
  | (sequence, result) :: rest =>
    let pool := { t.pool with results := rest }.handleResult sequence result
    some ⟨pool, if pool.failed = none then t.call else .idle⟩

/-- The thread goes on with its call. -/
def Thread.turn (maxInFlight : ℕ) (t : Thread) : Option Thread :=
  match t.call with
  | .draining => if t.pool.results = [] then some { t with call := .waiting } else t.receive
  | .waiting =>
    if maxInFlight ≤ t.pool.inFlight then t.receive
    else some {
      call := .idle
      pool := { t.pool with
        running := t.pool.running ++ [t.pool.nextSequence]
        nextSequence := t.pool.nextSequence + 1
        inFlight := t.pool.inFlight + 1 } }
  | .finishing => if 0 < t.pool.inFlight then t.receive else some { t with call := .finished }
  | .idle | .finished => none

inductive Thread.Label
  /-- The next transaction is submitted. -/
  | submit
  | finish
  | turn
  /-- A worker is done with a job. -/
  | sign (sequence : ℕ) (signature : Except Report Address)

/-- After an error the pool is not used any more. -/
def Thread.step {ρ : Type} (maxInFlight : ℕ) (jobs : List (Job ρ)) (t : Thread) :
    Thread.Label → Option Thread
  | .submit =>
    if ¬ t.InCall ∧ t.pool.failed = none ∧ t.pool.nextSequence < jobs.length then
      some { t with call := .draining }
    else none
  | .finish =>
    if ¬ t.InCall ∧ t.pool.failed = none then some { t with call := .finishing } else none
  | .turn => t.turn maxInFlight
  | .sign sequence signature =>
    (SigningPool.step maxInFlight jobs t.pool (.sign sequence signature)).map fun pool =>
      { t with pool }

end SigningPool

/-- Any calls of the pool, one after the other, for jobs that finish in any order. -/
def signingCalls {ρ : Type} (maxInFlight : ℕ) (jobs : List (Job ρ)) :
    System SigningPool.Thread SigningPool.Thread.Label where
  init := {}
  step := SigningPool.Thread.step maxInFlight jobs

namespace SigningPool

variable {ρ : Type} {jobs : List (Job ρ)} {bound : ℕ} {pool : SigningPool}
  {sequence : ℕ}

/-! ## The jobs of a pool -/

/-- Every job is at one place: with a worker, in the channel, in the buffer, or written. -/
structure Placed (pool : SigningPool) : Prop where
  next : pool.completed pool.nextToWrite = none
  running_nodup : pool.running.Nodup
  results_nodup : (pool.results.map Prod.fst).Nodup
  running : ∀ q ∈ pool.running, pool.nextToWrite ≤ q ∧ pool.completed q = none ∧
    ∀ result, (q, result) ∉ pool.results
  results : ∀ q result, (q, result) ∈ pool.results →
    pool.nextToWrite ≤ q ∧ pool.completed q = none ∧ q < pool.nextSequence
  placed : pool.failed = none → ∀ q, pool.nextToWrite ≤ q → q < pool.nextSequence →
    q ∈ pool.running ∨ (∃ result, (q, result) ∈ pool.results) ∨ (pool.completed q).isSome

/-- What `write_ready` moves. -/
theorem writeReady_spec (fuel : ℕ) (pool : SigningPool) :
    (writeReady fuel pool).running = pool.running ∧ (writeReady fuel pool).results = pool.results ∧
      (writeReady fuel pool).nextSequence = pool.nextSequence ∧
      (writeReady fuel pool).failed = pool.failed ∧
      (writeReady fuel pool).inFlight ≤ pool.inFlight ∧
      pool.nextToWrite ≤ (writeReady fuel pool).nextToWrite ∧
      (∀ q, pool.nextToWrite ≤ q → q < (writeReady fuel pool).nextToWrite →
        (pool.completed q).isSome) ∧
      ∀ q, (writeReady fuel pool).nextToWrite ≤ q →
        (writeReady fuel pool).completed q = pool.completed q := by
  induction fuel generalizing pool with
  | zero => exact ⟨rfl, rfl, rfl, rfl, le_rfl, le_rfl, fun q h h' => absurd h (not_le.2 h'), fun _ _ => rfl⟩
  | succ fuel ih =>
      rw [writeReady]
      split
      · exact ⟨rfl, rfl, rfl, rfl, le_rfl, le_rfl, fun q h h' => absurd h (not_le.2 h'), fun _ _ => rfl⟩
      · rename_i tx htx
        obtain ⟨hrun, hres, hseq, hfail, hin, hnext, hsome, hsame⟩ := ih { pool with
          completed := Function.update pool.completed pool.nextToWrite none
          written := pool.written ++ [tx]
          inFlight := pool.inFlight - 1
          nextToWrite := pool.nextToWrite + 1 }
        dsimp only at hin hnext hsome hsame
        refine ⟨hrun, hres, hseq, hfail, by omega, by omega, fun q hq hq' => ?_, fun q hq => ?_⟩
        · rcases hq.lt_or_eq with hlt | rfl
          · have := hsome q hlt hq'
            rwa [Function.update_of_ne (by omega)] at this
          · simp [htx]
        · rw [hsame q hq, Function.update_of_ne (by omega)]

/-- What handling a signed transaction changes. -/
structure Stored (pool : SigningPool) (sequence : ℕ) (tx : GeneratedTx)
    (rest : List (ℕ × Except Report GeneratedTx)) (pool' : SigningPool) : Prop where
  running : pool'.running = pool.running
  results : pool'.results = rest
  nextSequence : pool'.nextSequence = pool.nextSequence
  failed : pool'.failed = pool.failed
  inFlight : pool'.inFlight ≤ pool.inFlight
  nextToWrite : pool.nextToWrite ≤ pool'.nextToWrite
  next : pool'.completed pool'.nextToWrite = none
  /-- what is not in the buffer stays behind what is written -/
  behind : ∀ q, q ≠ sequence → pool.nextToWrite ≤ q → pool.completed q = none →
    pool'.nextToWrite ≤ q
  completed : ∀ q, pool'.nextToWrite ≤ q →
    pool'.completed q = if q = sequence then some tx else pool.completed q

theorem handleResult_stored (hinv : pool.Inv jobs) {tx : GeneratedTx}
    {rest : List (ℕ × Except Report GeneratedTx)}
    (hresults : pool.results = (sequence, .ok tx) :: rest) :
    Stored pool sequence tx rest ({ pool with results := rest }.handleResult sequence (.ok tx)) := by
  have hstops := writeReady_stops (hinv.store hresults)
  obtain ⟨hrun, hres, hseq, hfail, hin, hle, hsome, hsame⟩ := writeReady_spec pool.inFlight { pool with
    results := rest, completed := Function.update pool.completed sequence (some tx) }
  refine ⟨hrun, hres, hseq, hfail, hin, hle, hstops, fun q hne hq hnone => ?_, fun q hq => ?_⟩
  · by_contra hlt
    have := hsome q hq (not_le.1 hlt)
    dsimp only at this
    rw [Function.update_of_ne hne, hnone] at this
    cases this
  · exact (hsame q hq).trans (Function.update_apply ..)

theorem Placed.submit (h : Placed pool) (hinv : pool.Inv jobs) : Placed { pool with
    running := pool.running ++ [pool.nextSequence]
    nextSequence := pool.nextSequence + 1
    inFlight := pool.inFlight + 1 } := by
  have hcount := hinv.inFlight
  have hnew : pool.nextSequence ∉ pool.running := fun hin => (hinv.running _ hin).false
  refine ⟨h.next, ?_, h.results_nodup, fun q hq => ?_, fun q result hq => ?_,
    fun hfail q hq hlt => ?_⟩
  · exact h.running_nodup.append (List.nodup_singleton _) (List.disjoint_singleton.2 hnew)
  · rcases List.mem_append.1 hq with hq | hq
    · exact h.running q hq
    · obtain rfl := List.mem_singleton.1 hq
      refine ⟨by dsimp only; omega, ?_, fun result hin => ?_⟩
      · cases hc : pool.completed pool.nextSequence with
        | none => rfl
        | some tx => exact absurd (hinv.completed _ tx hc).1 (lt_irrefl _)
      · exact absurd (h.results _ result hin).2.2 (lt_irrefl _)
  · obtain ⟨hle, hnone, hlt⟩ := h.results q result hq
    exact ⟨hle, hnone, Nat.lt_succ_of_lt hlt⟩
  · rcases Nat.lt_succ_iff_lt_or_eq.1 hlt with hlt | rfl
    · exact (h.placed hfail q hq hlt).imp_left (List.mem_append_left _)
    · exact Or.inl (List.mem_append_right _ (List.mem_singleton_self _))

theorem Placed.sign (h : Placed pool) (hinv : pool.Inv jobs) (hin : sequence ∈ pool.running)
    (result : Except Report GeneratedTx) : Placed { pool with
      running := pool.running.erase sequence
      results := pool.results ++ [(sequence, result)] } := by
  obtain ⟨hnext, hnone, hno⟩ := h.running sequence hin
  refine ⟨h.next, h.running_nodup.erase _, ?_, fun q hq => ?_, fun q result' hq => ?_,
    fun hfail q hq hlt => ?_⟩
  · rw [List.map_append]
    refine h.results_nodup.append (List.nodup_singleton _) (List.disjoint_singleton.2 fun hmem => ?_)
    obtain ⟨⟨_, result'⟩, hr, rfl⟩ := List.mem_map.1 hmem
    exact hno result' hr
  · obtain ⟨hne, hq⟩ := h.running_nodup.mem_erase_iff.1 hq
    obtain ⟨hle, hnone', hno'⟩ := h.running q hq
    refine ⟨hle, hnone', fun result' hr => ?_⟩
    rcases List.mem_append.1 hr with hr | hr
    · exact hno' result' hr
    · exact hne (Prod.mk.inj (List.mem_singleton.1 hr)).1
  · rcases List.mem_append.1 hq with hq | hq
    · exact h.results q result' hq
    · rw [(Prod.mk.inj (List.mem_singleton.1 hq)).1]
      exact ⟨hnext, hnone, hinv.running _ hin⟩
  · rcases h.placed hfail q hq hlt with hrun | ⟨result', hr⟩ | hsome
    · by_cases hqs : q = sequence
      · subst hqs
        exact Or.inr (Or.inl ⟨result, List.mem_append_right _ (List.mem_singleton_self _)⟩)
      · exact Or.inl (h.running_nodup.mem_erase_iff.2 ⟨hqs, hrun⟩)
    · exact Or.inr (Or.inl ⟨result', List.mem_append_left _ hr⟩)
    · exact Or.inr (Or.inr hsome)

theorem Placed.receive (h : Placed pool) (hinv : pool.Inv jobs) (hfail : pool.failed = none)
    {result : Except Report GeneratedTx} {rest : List (ℕ × Except Report GeneratedTx)}
    (hresults : pool.results = (sequence, result) :: rest) :
    Placed ({ pool with results := rest }.handleResult sequence result) := by
  have hnodup := h.results_nodup
  rw [hresults, List.map_cons, List.nodup_cons] at hnodup
  have hmem : ∀ q r, (q, r) ∈ rest → (q, r) ∈ pool.results ∧ q ≠ sequence := by
    intro q r hq
    refine ⟨hresults ▸ List.mem_cons_of_mem _ hq, ?_⟩
    rintro rfl
    exact hnodup.1 (List.mem_map.2 ⟨_, hq, rfl⟩)
  have hrun : ∀ q ∈ pool.running, q ≠ sequence := by
    rintro q hq rfl
    exact (h.running q hq).2.2 result (hresults ▸ List.mem_cons_self)
  cases result with
  | error e =>
      exact ⟨h.next, h.running_nodup, hnodup.2, fun q hq => ⟨(h.running q hq).1, (h.running q hq).2.1,
        fun r hr => (h.running q hq).2.2 r (hmem q r hr).1⟩, fun q r hq => h.results q r (hmem q r hq).1,
        nofun⟩
  | ok tx =>
      have hstored := handleResult_stored hinv hresults
      generalize { pool with results := rest }.handleResult sequence (.ok tx) = pool' at hstored ⊢
      have hkept : ∀ q, q ≠ sequence → pool.nextToWrite ≤ q → pool.completed q = none →
          pool'.nextToWrite ≤ q ∧ pool'.completed q = none := by
        intro q hne hq hnone
        have hq' := hstored.behind q hne hq hnone
        exact ⟨hq', by rw [hstored.completed q hq', if_neg hne, hnone]⟩
      refine ⟨hstored.next, hstored.running ▸ h.running_nodup, hstored.results ▸ hnodup.2,
        fun q hq => ?_, fun q r hq => ?_, fun _ q hq hlt => ?_⟩
      · rw [hstored.running] at hq
        obtain ⟨hq', hnone, hno⟩ := h.running q hq
        obtain ⟨hle, hnone'⟩ := hkept q (hrun q hq) hq' hnone
        refine ⟨hle, hnone', fun r hin => ?_⟩
        rw [hstored.results] at hin
        exact hno r (hmem q r hin).1
      · rw [hstored.results] at hq
        obtain ⟨hin, hne⟩ := hmem q r hq
        obtain ⟨hq', hnone, hlt⟩ := h.results q r hin
        obtain ⟨hle, hnone'⟩ := hkept q hne hq' hnone
        exact ⟨hle, hnone', hstored.nextSequence ▸ hlt⟩
      · rw [hstored.running, hstored.results, hstored.completed q hq]
        rw [hstored.nextSequence] at hlt
        by_cases hqs : q = sequence
        · rw [if_pos hqs]
          exact Or.inr (Or.inr rfl)
        · rw [if_neg hqs]
          refine (h.placed hfail q (hstored.nextToWrite.trans hq) hlt).imp_right fun hor =>
            hor.imp_left ?_
          rintro ⟨r, hin⟩
          rw [hresults] at hin
          rcases List.mem_cons.1 hin with heq | hin
          · exact absurd (Prod.mk.inj heq).1 hqs
          · exact ⟨r, hin⟩

theorem placed_step (hinv : pool.Inv jobs) (h : Placed pool) {l : Label} {pool' : SigningPool}
    (hst : step bound jobs pool l = some pool') : Placed pool' := by
  cases l with
  | submit =>
      simp only [step, Option.ite_none_right_eq_some, Option.some.injEq] at hst
      obtain ⟨-, rfl⟩ := hst
      exact h.submit hinv
  | sign sequence signature =>
      simp only [step, Option.ite_none_right_eq_some, Option.map_eq_some_iff] at hst
      obtain ⟨hin, job, -, rfl⟩ := hst
      exact h.sign hinv hin _
  | receive =>
      simp only [step] at hst
      split at hst
      · rename_i sequence result rest hfail hresults
        obtain rfl := Option.some.inj hst
        exact h.receive hinv hfail hresults
      · cases hst

theorem placed_reachable (h : (signingSystem bound jobs).Reachable pool) : Placed pool := by
  have hinit : Placed {} := ⟨rfl, .nil, .nil, nofun, nofun, fun _ _ _ h => absurd h (Nat.not_lt_zero _)⟩
  obtain ⟨ls, hrun⟩ := h
  refine hrun.history (I := fun _ pool => Placed pool) hinit fun ls pool l pool' hrun h _ hst => ?_
  exact placed_step (inv_reachable ⟨ls, hrun⟩) h hst

/-! ## Failed jobs -/

/-- The job was signed, without success. -/
structure Failed (pool : SigningPool) (sequence : ℕ) : Prop where
  unwritten : pool.nextToWrite ≤ sequence
  submitted : sequence < pool.nextSequence
  completed : pool.completed sequence = none
  running : sequence ∉ pool.running
  results : ∀ tx, (sequence, .ok tx) ∉ pool.results

theorem Placed.failed (h : Placed pool) (hinv : pool.Inv jobs)
    (hin : sequence ∈ pool.running) (e : Report) : Failed { pool with
      running := pool.running.erase sequence
      results := pool.results ++ [(sequence, .error e)] } sequence := by
  obtain ⟨hnext, hnone, hno⟩ := h.running sequence hin
  refine ⟨hnext, hinv.running _ hin, hnone, fun hmem => (h.running_nodup.mem_erase_iff.1 hmem).1 rfl,
    fun tx hmem => ?_⟩
  rcases List.mem_append.1 hmem with hmem | hmem
  · exact hno _ hmem
  · cases (Prod.mk.inj (List.mem_singleton.1 hmem)).2

/-- What failed is never written. -/
theorem Failed.step (h : Failed pool sequence) (hinv : pool.Inv jobs) {l : Label}
    {pool' : SigningPool} (hst : SigningPool.step bound jobs pool l = some pool') :
    Failed pool' sequence := by
  cases l with
  | submit =>
      simp only [SigningPool.step, Option.ite_none_right_eq_some, Option.some.injEq] at hst
      obtain ⟨-, rfl⟩ := hst
      refine ⟨h.unwritten, Nat.lt_succ_of_lt h.submitted, h.completed, fun hin => ?_, h.results⟩
      rcases List.mem_append.1 hin with hin | hin
      · exact h.running hin
      · exact absurd h.submitted (List.mem_singleton.1 hin ▸ lt_irrefl _)
  | sign sequence' signature =>
      simp only [SigningPool.step, Option.ite_none_right_eq_some, Option.map_eq_some_iff] at hst
      obtain ⟨hin, job, -, rfl⟩ := hst
      refine ⟨h.unwritten, h.submitted, h.completed, fun hin => h.running (List.mem_of_mem_erase hin),
        fun tx hmem => ?_⟩
      rcases List.mem_append.1 hmem with hmem | hmem
      · exact h.results tx hmem
      · rw [(Prod.mk.inj (List.mem_singleton.1 hmem)).1] at h
        exact h.running hin
  | receive =>
      simp only [SigningPool.step] at hst
      split at hst
      · rename_i sequence' result rest hfail hresults
        obtain rfl := Option.some.inj hst
        have hrest : ∀ tx, (sequence, .ok tx) ∉ rest := fun tx hin =>
          h.results tx (hresults ▸ List.mem_cons_of_mem _ hin)
        cases result with
        | error e => exact ⟨h.unwritten, h.submitted, h.completed, h.running, hrest⟩
        | ok tx =>
            have hne : sequence ≠ sequence' := by
              rintro rfl
              exact h.results tx (hresults ▸ List.mem_cons_self)
            have hstored := handleResult_stored hinv hresults
            generalize { pool with results := rest }.handleResult sequence' (.ok tx) = pool'
              at hstored ⊢
            have hle := hstored.behind sequence hne h.unwritten h.completed
            exact ⟨hle, hstored.nextSequence ▸ h.submitted,
              by rw [hstored.completed sequence hle, if_neg hne, h.completed],
              hstored.running ▸ h.running, hstored.results ▸ hrest⟩
      · cases hst

/-! ## The calls -/

namespace Thread

variable {t t' : Thread}

/-- Where the thread is, and what its pool has done. -/
structure Inv (bound : ℕ) (jobs : List (Job ρ)) (t : Thread) : Prop where
  pool : (signingSystem bound jobs).Reachable t.pool
  inFlight : t.pool.inFlight ≤ bound
  opened : t.InCall → t.pool.failed = none
  submitting : t.call = .draining ∨ t.call = .waiting → t.pool.nextSequence < jobs.length
  finished : t.call = .finished → t.pool.failed = none ∧ t.pool.inFlight = 0

/-- Handling a result is a step of the pool; the call goes on, or it ends with an error. -/
theorem receive_spec (h : t.Inv bound jobs) (hfail : t.pool.failed = none)
    (hst : t.receive = some t') : (signingSystem bound jobs).step t.pool .receive = some t'.pool ∧
      t'.pool.nextSequence = t.pool.nextSequence ∧ t'.pool.inFlight ≤ t.pool.inFlight ∧
      t'.pool.running = t.pool.running ∧ t'.pool.results.length + 1 = t.pool.results.length ∧
      (t'.call = t.call ∧ t'.pool.failed = none ∨ t'.call = .idle ∧ t'.pool.failed ≠ none) := by
  rw [receive] at hst
  split at hst
  · cases hst
  · rename_i sequence result rest hresults
    obtain rfl := Option.some.inj hst
    refine ⟨?_, ?_⟩
    · simp only [signingSystem, SigningPool.step]
      rw [hfail, hresults]
    · cases result with
      | error e => exact ⟨rfl, le_rfl, rfl, by rw [hresults]; rfl, Or.inr ⟨rfl, by simp [handleResult]⟩⟩
      | ok tx =>
          have hstored := handleResult_stored (inv_reachable h.pool) hresults
          dsimp only
          generalize { t.pool with results := rest }.handleResult sequence (.ok tx) = pool'
            at hstored ⊢
          have hopen := hstored.failed.trans hfail
          refine ⟨hstored.nextSequence, hstored.inFlight, hstored.running, ?_, Or.inl ?_⟩
          · rw [hstored.results, hresults]
            rfl
          · exact ⟨if_pos hopen, hopen⟩

theorem Inv.receive (h : t.Inv bound jobs) (hcall : t.InCall) (hst : t.receive = some t') :
    t'.Inv bound jobs := by
  obtain ⟨hpool, hseq, hle, -, -, ⟨hcall', hfail⟩ | ⟨hidle, hfail⟩⟩ :=
    receive_spec h (h.opened hcall) hst
  · refine ⟨h.pool.step hpool, hle.trans h.inFlight, fun _ => hfail, fun hsub => ?_, fun hfin => ?_⟩
    · rw [hseq]
      exact h.submitting (hcall' ▸ hsub)
    · rw [hcall'] at hfin
      simp [InCall, hfin] at hcall
  · refine ⟨h.pool.step hpool, hle.trans h.inFlight, fun hin => ?_, fun hsub => ?_, fun hfin => ?_⟩
    · simp [InCall, hidle] at hin
    · simp [hidle] at hsub
    · simp [hidle] at hfin

/-- The step of the pool in a step of the thread. -/
def PoolStep (bound : ℕ) (jobs : List (Job ρ)) (t : Thread) (l : Label) (t' : Thread) : Prop :=
  (t'.pool = t.pool ∧ ∀ q signature, l ≠ .sign q signature) ∨
    ∃ l', (signingSystem bound jobs).step t.pool l' = some t'.pool ∧
      ∀ q signature, l = .sign q signature → l' = .sign q signature

/-- One step of the thread: it keeps the invariant, and the pool takes at most one step of its own. -/
theorem Inv.step (h : t.Inv bound jobs) {l : Label}
    (hst : (signingCalls bound jobs).step t l = some t') :
    t'.Inv bound jobs ∧ PoolStep bound jobs t l t' := by
  cases l with
  | submit =>
      simp only [signingCalls, Thread.step, Option.ite_none_right_eq_some, Option.some.injEq] at hst
      obtain ⟨⟨-, hfail, hlt⟩, rfl⟩ := hst
      exact ⟨⟨h.pool, h.inFlight, fun _ => hfail, fun _ => hlt, by rintro ⟨⟩⟩,
        Or.inl ⟨rfl, by rintro _ _ ⟨⟩⟩⟩
  | finish =>
      simp only [signingCalls, Thread.step, Option.ite_none_right_eq_some, Option.some.injEq] at hst
      obtain ⟨⟨-, hfail⟩, rfl⟩ := hst
      refine ⟨⟨h.pool, h.inFlight, fun _ => hfail, fun hsub => ?_, by rintro ⟨⟩⟩,
        Or.inl ⟨rfl, by rintro _ _ ⟨⟩⟩⟩
      simp at hsub
  | sign sequence signature =>
      simp only [signingCalls, Thread.step, Option.map_eq_some_iff] at hst
      obtain ⟨pool, hpool, rfl⟩ := hst
      have hst : (signingSystem bound jobs).step t.pool (.sign sequence signature) = some pool := hpool
      have hsame : pool.inFlight = t.pool.inFlight ∧ pool.failed = t.pool.failed ∧
          pool.nextSequence = t.pool.nextSequence := by
        simp only [SigningPool.step, Option.ite_none_right_eq_some, Option.map_eq_some_iff] at hpool
        obtain ⟨-, job, -, rfl⟩ := hpool
        exact ⟨rfl, rfl, rfl⟩
      obtain ⟨hin, hfail, hseq⟩ := hsame
      refine ⟨⟨h.pool.step hst, hin ▸ h.inFlight, fun hcall => hfail ▸ h.opened hcall,
        fun hsub => hseq ▸ h.submitting hsub, fun hfin => hin ▸ hfail ▸ h.finished hfin⟩,
        Or.inr ⟨_, hst, fun q sig heq => ?_⟩⟩
      obtain ⟨rfl, rfl⟩ := Label.sign.inj heq
      rfl
  | turn =>
      have hreceive : t.InCall → t.receive = some t' →
          t'.Inv bound jobs ∧ PoolStep bound jobs t .turn t' := by
        intro hcall hrec
        exact ⟨h.receive hcall hrec,
          Or.inr ⟨.receive, (receive_spec h (h.opened hcall) hrec).1, by rintro _ _ ⟨⟩⟩⟩
      simp only [signingCalls, Thread.step, Thread.turn] at hst
      split at hst
      · rename_i hcall
        split at hst
        · obtain rfl := Option.some.inj hst
          refine ⟨⟨h.pool, h.inFlight, fun _ => h.opened (Or.inl hcall),
            fun _ => h.submitting (Or.inl hcall), by rintro ⟨⟩⟩, Or.inl ⟨rfl, by rintro _ _ ⟨⟩⟩⟩
        · exact hreceive (Or.inl hcall) hst
      · rename_i hcall
        split at hst
        · exact hreceive (Or.inr (Or.inl hcall)) hst
        · rename_i hlt
          obtain rfl := Option.some.inj hst
          have hsubmit : (signingSystem bound jobs).step t.pool .submit = some { t.pool with
              running := t.pool.running ++ [t.pool.nextSequence]
              nextSequence := t.pool.nextSequence + 1
              inFlight := t.pool.inFlight + 1 } :=
            if_pos ⟨h.opened (Or.inr (Or.inl hcall)), h.submitting (Or.inr hcall), not_le.1 hlt⟩
          refine ⟨⟨h.pool.step hsubmit, not_le.1 hlt, fun hin => ?_, fun hsub => ?_, by rintro ⟨⟩⟩,
            Or.inr ⟨.submit, hsubmit, by rintro _ _ ⟨⟩⟩⟩
          · simp [InCall] at hin
          · simp at hsub
      · rename_i hcall
        split at hst
        · exact hreceive (Or.inr (Or.inr hcall)) hst
        · rename_i hzero
          obtain rfl := Option.some.inj hst
          have hfail := h.opened (Or.inr (Or.inr hcall))
          refine ⟨⟨h.pool, h.inFlight, fun _ => hfail, fun hsub => ?_,
            fun _ => ⟨hfail, Nat.eq_zero_of_not_pos hzero⟩⟩, Or.inl ⟨rfl, by rintro _ _ ⟨⟩⟩⟩
          simp at hsub
      · cases hst
      · cases hst

theorem inv_reachable (h : (signingCalls bound jobs).Reachable t) : t.Inv bound jobs := by
  refine h.invariant ⟨⟨[], .nil _⟩, Nat.zero_le _, fun _ => rfl, fun hsub => ?_, fun hfin => ?_⟩
    fun t l t' hinv hst => (hinv.step hst).1
  · simp [signingCalls] at hsub
  · cases hfin

/-- The run signs a job without success. -/
def Fails (jobs : List (Job ρ)) (ls : List Label) (sequence : ℕ) : Prop :=
  ∃ signature job e, Label.sign sequence signature ∈ ls ∧ jobs[sequence]? = some job ∧
    signPrepared job.prepared signature = .error e

theorem failed_of_run {ls : List Label}
    (h : (signingCalls bound jobs).Run System.anyStep {} ls t) :
    ∀ sequence, Fails jobs ls sequence → Failed t.pool sequence := by
  refine h.history (I := fun ls t => ∀ sequence, Fails jobs ls sequence → Failed t.pool sequence) ?_
    fun ls t l t' hrun ih _ hst sequence hfails => ?_
  · rintro sequence ⟨_, _, _, hin, -⟩
    cases hin
  have hinv : t.Inv bound jobs := inv_reachable ⟨ls, hrun⟩
  have hpool := SigningPool.inv_reachable hinv.pool
  obtain ⟨signature, job, e, hin, hjob, herror⟩ := hfails
  rcases List.mem_append.1 hin with hin | hin
  · have hfailed := ih sequence ⟨signature, job, e, hin, hjob, herror⟩
    rcases (hinv.step hst).2 with ⟨heq, -⟩ | ⟨l', hl', -⟩
    · exact heq ▸ hfailed
    · exact hfailed.step hpool hl'
  · -- the step signs the job itself
    obtain rfl := List.mem_singleton.1 hin
    simp only [signingCalls, Thread.step, Option.map_eq_some_iff] at hst
    obtain ⟨pool, hst, rfl⟩ := hst
    simp only [SigningPool.step, Option.ite_none_right_eq_some, Option.map_eq_some_iff] at hst
    obtain ⟨hrunning, job', hjob', rfl⟩ := hst
    obtain rfl := Option.some.inj (hjob.symm.trans hjob')
    rw [herror]
    exact (placed_reachable hinv.pool).failed hpool hrunning e

/-! ## No call hangs -/

/-- Who waits for a result waits for the job that is written next. -/
theorem Inv.awaited (h : t.Inv bound jobs) (hbound : 0 < bound) (hwait : t.AwaitsResult bound) :
    t.pool.nextToWrite ∈ t.pool.running ∨
      ∃ result, (t.pool.nextToWrite, result) ∈ t.pool.results := by
  have hplaced := placed_reachable h.pool
  have hcount := (SigningPool.inv_reachable h.pool).inFlight
  have hopen : t.pool.failed = none := by
    rcases hwait with ⟨hcall, -⟩ | ⟨hcall, -⟩
    · exact h.opened (Or.inr (Or.inl hcall))
    · exact h.opened (Or.inr (Or.inr hcall))
  have hpos : 0 < t.pool.inFlight := by
    rcases hwait with ⟨-, hle⟩ | ⟨-, hpos⟩
    · exact hbound.trans_le hle
    · exact hpos
  rcases hplaced.placed hopen t.pool.nextToWrite le_rfl (by omega) with hrun | hres | hsome
  · exact Or.inl hrun
  · exact Or.inr hres
  · rw [hplaced.next] at hsome
    cases hsome

/-- The thread can go on, or waits for a job that is with a worker. -/
theorem Inv.goes_on (h : t.Inv bound jobs) (hbound : 0 < bound) (hcall : t.InCall) :
    (∃ t', (signingCalls bound jobs).step t .turn = some t') ∨ t.pool.running ≠ [] := by
  have hreceive : t.pool.results ≠ [] → ∃ t', t.receive = some t' := by
    intro hne
    obtain ⟨⟨q, result⟩, rest, hresults⟩ := List.exists_cons_of_ne_nil hne
    exact ⟨_, by rw [Thread.receive, hresults]⟩
  have hwait : t.AwaitsResult bound →
      (∃ t', t.receive = some t') ∨ t.pool.running ≠ [] := by
    intro hwait
    rcases h.awaited hbound hwait with hrun | ⟨result, hres⟩
    · exact Or.inr (List.ne_nil_of_mem hrun)
    · exact Or.inl (hreceive (List.ne_nil_of_mem hres))
  simp only [signingCalls, Thread.step, Thread.turn]
  rcases hcall with hcall | hcall | hcall
  · rw [hcall]
    by_cases hempty : t.pool.results = []
    · exact Or.inl ⟨_, if_pos hempty⟩
    · obtain ⟨t', ht'⟩ := hreceive hempty
      exact Or.inl ⟨t', (if_neg hempty).trans ht'⟩
  · rw [hcall]
    by_cases hfull : bound ≤ t.pool.inFlight
    · rcases hwait (Or.inl ⟨hcall, hfull⟩) with ⟨t', ht'⟩ | hrun
      · exact Or.inl ⟨t', (if_pos hfull).trans ht'⟩
      · exact Or.inr hrun
    · exact Or.inl ⟨_, if_neg hfull⟩
  · rw [hcall]
    by_cases hpos : 0 < t.pool.inFlight
    · rcases hwait (Or.inr ⟨hcall, hpos⟩) with ⟨t', ht'⟩ | hrun
      · exact Or.inl ⟨t', (if_pos hpos).trans ht'⟩
      · exact Or.inr hrun
    · exact Or.inl ⟨_, if_neg hpos⟩

/-- What is left to do in a call, if every job reports. -/
def work (t : Thread) : ℕ :=
  2 * t.pool.running.length + t.pool.results.length + if t.call = .draining then 1 else 0

/-- Within a call, each step of the thread or of a worker leaves less to do. -/
theorem Inv.work_lt (h : t.Inv bound jobs) (hcall : t.InCall) {l : Label}
    (hst : (signingCalls bound jobs).step t l = some t') (hcall' : t'.InCall) : t'.work < t.work := by
  cases l with
  | submit =>
      simp only [signingCalls, Thread.step, Option.ite_none_right_eq_some] at hst
      exact absurd hcall hst.1.1
  | finish =>
      simp only [signingCalls, Thread.step, Option.ite_none_right_eq_some] at hst
      exact absurd hcall hst.1.1
  | sign sequence signature =>
      simp only [signingCalls, Thread.step, Option.map_eq_some_iff] at hst
      obtain ⟨pool, hst, rfl⟩ := hst
      simp only [SigningPool.step, Option.ite_none_right_eq_some, Option.map_eq_some_iff] at hst
      obtain ⟨hin, job, -, rfl⟩ := hst
      have hlen := List.length_erase_of_mem hin
      have hpos := List.length_pos_of_mem hin
      simp only [work, List.length_append, List.length_singleton]
      omega
  | turn =>
      have hreceive : t.receive = some t' → t'.work < t.work := by
        intro hrec
        obtain ⟨-, -, -, hrun, hlen, ⟨hsame, -⟩ | ⟨hidle, -⟩⟩ := receive_spec h (h.opened hcall) hrec
        · simp only [work, hrun, hsame]
          omega
        · simp [InCall, hidle] at hcall'
      simp only [signingCalls, Thread.step, Thread.turn] at hst
      split at hst
      · rename_i hdrain
        split at hst
        · obtain rfl := Option.some.inj hst
          simp [work, hdrain]
        · exact hreceive hst
      · split at hst
        · exact hreceive hst
        · obtain rfl := Option.some.inj hst
          simp [InCall] at hcall'
      · split at hst
        · exact hreceive hst
        · obtain rfl := Option.some.inj hst
          simp [InCall] at hcall'
      · cases hst
      · cases hst

/-- A call returns after so many steps of the thread and the workers. -/
theorem Inv.returns (h : t.Inv bound jobs) {ls : List Label}
    (hrun : (signingCalls bound jobs).Run (fun t _ => t.InCall) t ls t') :
    ls.length ≤ t.work + 1 := by
  induction hrun with
  | nil t => exact Nat.zero_le _
  | @cons t u v l ls hcall hst hrest ih =>
      have hu := (h.step hst).1
      cases hrest with
      | nil => simp
      | cons hcall' hst' hrest' =>
          have hlt := h.work_lt hcall hst hcall'
          have hle := ih hu
          simp only [List.length_cons] at hle ⊢
          omega

end Thread

/-! ## What the pool guarantees -/

/-- What holds after a run of the calls. -/
structure Thread.Correct (bound : ℕ) (jobs : List (Job ρ)) (ls : List Thread.Label) (t : Thread) :
    Prop where
  /-- The written records are the first transactions, in the order of their submission. -/
  written : t.pool.written.length ≤ t.pool.nextSequence ∧
    ∀ n tx, t.pool.written[n]? = some tx → Signed jobs n tx
  inFlight : t.pool.inFlight = t.pool.nextSequence - t.pool.written.length ∧ t.pool.inFlight ≤ bound
  /-- A result is awaited only while a job has not reported, so that no call hangs: the thread can go
      on or a worker is busy, and so many steps end the call. -/
  awaited : t.AwaitsResult bound →
    ∃ q < t.pool.nextSequence, q ∈ t.pool.running ∨ ∃ result, (q, result) ∈ t.pool.results
  goes_on : t.InCall →
    (∃ t', (signingCalls bound jobs).step t .turn = some t') ∨ t.pool.running ≠ []
  returns : ∀ ls' t', (signingCalls bound jobs).Run (fun t _ => t.InCall) t ls' t' →
    ls'.length ≤ t.work + 1
  /-- After `finish`, every transaction has been written. -/
  finished : t.call = .finished → t.pool.written.length = t.pool.nextSequence
  /-- A record of a failed job is not written, and none after it. -/
  failed : ∀ q, Thread.Fails jobs ls q → t.pool.written.length ≤ q

/-- **The signing pool keeps the order and loses nothing.** For any calls, and jobs that finish in any
    order. -/
theorem signingPool_correct {ρ : Type} {workerCount : ℕ} (hworkers : 0 < workerCount)
    (jobs : List (Job ρ)) {ls : List Thread.Label} {t : Thread}
    (hrun : (signingCalls (maxInFlight workerCount) jobs).Run System.anyStep {} ls t) :
    t.Correct (maxInFlight workerCount) jobs ls := by
  have hinv : t.Inv (maxInFlight workerCount) jobs := Thread.inv_reachable ⟨ls, hrun⟩
  have hpool := inv_reachable hinv.pool
  have hcount := hpool.inFlight
  have hlength := hpool.length
  have hpos := maxInFlight_pos hworkers
  refine ⟨⟨by omega, hpool.written⟩, ⟨by omega, hinv.inFlight⟩, fun hwait => ?_, hinv.goes_on hpos,
    fun ls' t' => hinv.returns, fun hfin => ?_, fun q hfails => ?_⟩
  · rcases hinv.awaited hpos hwait with hrunning | ⟨result, hres⟩
    · exact ⟨_, hpool.running _ hrunning, Or.inl hrunning⟩
    · exact ⟨_, ((placed_reachable hinv.pool).results _ _ hres).2.2, Or.inr ⟨result, hres⟩⟩
  · have hzero := (hinv.finished hfin).2
    omega
  · rw [hlength]
    exact (Thread.failed_of_run hrun q hfails).unwritten

namespace SigningSample

def prepared (name : String) (account : Address) : PreparedMaterializedTx Unit where
  name := name
  request := ()
  key := ⟨account⟩
  lateSign := none
  inclusionKeys := []
  sender := account

/-- Two transfers. -/
def transfers : List (Job Unit) := [⟨prepared "a" 1, .template⟩, ⟨prepared "b" 2, .template⟩]

/-- The second one is signed first, and `finish` waits for the first one. -/
def calls : List Thread.Label :=
  [.submit, .turn, .turn, .submit, .turn, .turn, .sign 1 (.ok 2), .finish, .turn, .sign 0 (.ok 1),
    .turn, .turn]

/-- The first one cannot be signed. -/
def failing : List Thread.Label :=
  [.submit, .turn, .turn, .submit, .turn, .turn, .sign 1 (.ok 2), .finish, .turn,
    .sign 0 (.error ["no key"]), .turn]

end SigningSample

open SigningSample in
theorem signingPool_correct_sample :
    (∃ t, (signingCalls (maxInFlight 1) transfers).Run System.anyStep {} calls t ∧
      t.call = .finished ∧ t.pool.written.length = 2 ∧ t.Correct (maxInFlight 1) transfers calls) ∧
    ∃ t, (signingCalls (maxInFlight 1) transfers).Run System.anyStep {} failing t ∧
      t.pool.written.length = 0 ∧ t.Correct (maxInFlight 1) transfers failing := by
  have hcalls : ((signingCalls (maxInFlight 1) transfers).exec {} calls).any (fun t =>
      decide (t.call = .finished ∧ t.pool.written.length = 2)) = true := by decide
  have hfailing : ((signingCalls (maxInFlight 1) transfers).exec {} failing).any (fun t =>
      decide (t.pool.written.length = 0)) = true := by decide
  obtain ⟨t, hrun, hfin, hwritten⟩ := System.run_of_check hcalls
  obtain ⟨t', hrun', hwritten'⟩ := System.run_of_check hfailing
  exact ⟨⟨t, hrun, hfin, hwritten, signingPool_correct Nat.one_pos transfers hrun⟩,
    t', hrun', hwritten', signingPool_correct Nat.one_pos transfers hrun'⟩

end SigningPool

end TxGen
