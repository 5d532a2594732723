import TxGen.Sender.Calls

set_option autoImplicit false

/-! # What frees an inclusion key

A worker gives its inclusion keys back when its wait for inclusion is over, in one of the ways that
`InclusionVerdict` lists, and a transaction that needs one of them is dispatched only after that step.
A worker that crashes never gives them back. -/

namespace TxGen

open Sender

/-- How a worker's wait for inclusion ends. -/
inductive InclusionVerdict
  /-- in a block, also when it reverted -/
  | included
  /-- too late to be included -/
  | expired
  /-- never sent, or rejected -/
  | failed
  /-- the response was lost; it may have been accepted -/
  | lost
  /-- accepted, but the receipt tracker gave up -/
  | unobserved
deriving DecidableEq, Repr

/-- The transaction is in a block, or will never be. -/
def InclusionVerdict.definite : InclusionVerdict → Bool
  | .included | .expired | .failed => true
  | .lost | .unobserved => false

namespace Worker

/-- The verdict that a step of `submit_tx` brings. -/
def verdict (lateSigner : Bool) (w : Worker) : WorkerEvent → Option InclusionVerdict
  | .prepared (.error _) | .registered (.error _) | .submitted .rejected => some .failed
  | .signed ok => if w.tx.lateSign.isNone || (lateSigner && ok) then none else some .failed
  | .submitted .lost => some .lost
  | .observed result =>
    match w.stage, result with
    | .observe, .ok (.included _) => some .included
    | .observe, .ok .expired => some .expired
    | .observe, .error _ => some .unobserved
    | _, _ => none
  | _ => none

/-- The worker has the inclusion key, or took it with it when it crashed. -/
def Keeps (w : Worker) (k : SchedulingKey) : Prop := k ∈ w.owned ∨ k ∈ w.lost

theorem Keeps.exit {w : Worker} {keys : List SchedulingKey} {r : Except String Unit}
    {k : SchedulingKey} (howned : w.owned = []) (h : w.Keeps k) : (w.exit keys r).Keeps k :=
  Or.inr (h.resolve_left (by simp [howned]))

/-- Without a verdict the inclusion keys stay. -/
theorem keeps_of_advance {ls : Bool} {w w' : Worker} {event : WorkerEvent}
    (h : w.advance ls event = some w') (hnone : w.verdict ls event = none) {k : SchedulingKey}
    (hk : k ∈ w.tx.inclusionKeys) (hkeeps : w.Keeps k) : w'.Keeps k := by
  have hall : k ∈ w.tx.schedulingKeys := List.mem_append_right _ hk
  cases event with
  | crash =>
      simp only [advance] at h
      split at h
      · cases h
      · cases h
        exact Or.inr (by rcases hkeeps with hin | hin <;> simp [hin])
  | prepared r =>
      simp only [advance] at h
      split at h
      · split at h
        · cases h
          exact Or.inl hall
        · cases hnone
      · cases h
  | signed ok =>
      simp only [advance] at h
      simp only [verdict] at hnone
      split at h
      · split at h
        · cases h
          refine Or.inl ?_
          split <;> exact hall
        · rename_i hunsigned
          rw [if_neg hunsigned] at hnone
          cases hnone
      · cases h
  | registered r =>
      simp only [advance] at h
      split at h
      · split at h
        · cases h
          exact Or.inl hall
        · cases hnone
      · cases h
  | submitted r =>
      simp only [advance] at h
      split at h
      · cases r with
        | accepted =>
            simp only at h
            split at h
            · cases h
              exact Or.inl hk
            · rename_i hobs
              rw [inclusionKeys_of_not_observes (Bool.eq_false_iff.2 hobs)] at hk
              cases hk
        | rejected => cases hnone
        | lost => cases hnone
      · cases h
  | observed r =>
      simp only [advance] at h
      split at h
      · split at h
        · rename_i hst
          rcases r with e | ⟨status | -⟩
          all_goals simp only [verdict, hst, reduceCtorEq] at hnone
        · rename_i hst
          have howned : w.owned = [] := by simp only [owned, hst]
          split at h <;>
          · cases h
            exact hkeeps.exit howned
        · cases h
      · cases h

theorem spawn_keeps {p : PendingTx} {track : Bool} {k : SchedulingKey} (hk : k ∈ p.inclusionKeys) :
    (spawn p track).Keeps k := by
  refine Or.inl ?_
  simp only [spawn]
  split <;> exact List.mem_append_right _ hk

end Worker

/-- The step that brings the verdict `v` on the transaction `p`. -/
def VerdictOn (cfg : Config) (p : PendingTx) (v : InclusionVerdict) (st : State) (l : Label) : Prop :=
  ∃ index event w, l = .worker index event ∧ st.sender.workers[index]? = some w ∧ w.tx = p ∧
    w.verdict cfg.lateSigner event = some v

section Runs

variable {cfg : Config}

/-- A worker that does not keep the key did not keep it before, or the step was its verdict. -/
theorem Move.worker_keeps {st st' : State} {l : Label} (h : Move cfg st l st') {index : ℕ}
    {w' : Worker} (hw' : st'.sender.workers[index]? = some w') {k : SchedulingKey}
    (hk : k ∈ w'.tx.inclusionKeys) :
    w'.Keeps k ∨ (∃ v, VerdictOn cfg w'.tx v st l) ∨
      ∃ w, st.sender.workers[index]? = some w ∧ w.tx = w'.tx ∧ ¬ w.Keeps k := by
  by_cases hkeeps : w'.Keeps k
  · exact Or.inl hkeeps
  refine Or.inr ?_
  have hws := h.workers
  generalize st'.sender.workers = ws at hws hw'
  cases hws with
  | same hl => exact Or.inr ⟨w', hw', rfl, hkeeps⟩
  | spawned hl hat hd =>
      rcases List.getElem?_concat_cases hw' with hw | ⟨-, rfl⟩
      · exact Or.inr ⟨w', hw, rfl, hkeeps⟩
      · rw [Worker.spawn_tx] at hk
        exact absurd (Worker.spawn_keeps hk) hkeeps
  | @advanced i w v event hl hw hadv =>
      rcases List.getElem?_set_cases hw' with ⟨rfl, rfl⟩ | ⟨-, hw'⟩
      · have htx := (Worker.advance_cases hadv).tx
        cases hverdict : w.verdict cfg.lateSigner event with
        | some verdict => exact Or.inl ⟨verdict, _, event, w, hl, hw, htx.symm, hverdict⟩
        | none =>
            refine Or.inr ⟨w, hw, htx.symm, fun hold => hkeeps ?_⟩
            exact Worker.keeps_of_advance hadv hverdict (htx ▸ hk) hold
      · exact Or.inr ⟨w', hw', rfl, hkeeps⟩
  | @emitted i w m rest hl hw hout =>
      rcases List.getElem?_set_cases hw' with ⟨rfl, rfl⟩ | ⟨-, hw'⟩
      · exact Or.inr ⟨w, hw, rfl, hkeeps⟩
      · exact Or.inr ⟨w', hw', rfl, hkeeps⟩

/-- A worker has its inclusion keys, or took them with it, until its verdict. -/
theorem keeps_until_verdict {st : State} {ls : List Label}
    (h : (senderSystem cfg).Run System.anyStep {} ls st) {index : ℕ} {w : Worker}
    (hw : st.sender.workers[index]? = some w) {k : SchedulingKey} (hk : k ∈ w.tx.inclusionKeys) :
    w.Keeps k ∨ ∃ v, (senderSystem cfg).Happened (VerdictOn cfg w.tx v) {} ls st := by
  refine h.history (I := fun ls st => ∀ index w, st.sender.workers[index]? = some w →
    k ∈ w.tx.inclusionKeys →
      w.Keeps k ∨ ∃ v, (senderSystem cfg).Happened (VerdictOn cfg w.tx v) {} ls st)
    (fun index w hw => by cases hw) (fun ls st l st' hrun ih _ hstep index w' hw' hk => ?_)
    index w hw hk
  rcases (senderStep_move hstep).worker_keeps hw' hk with hkeeps | ⟨v, hv⟩ | ⟨w, hw, htx, hnot⟩
  · exact Or.inl hkeeps
  · exact Or.inr ⟨v, System.Happened.last hrun hstep hv⟩
  · obtain ⟨v, hv⟩ := (ih index w hw (htx ▸ hk)).resolve_left hnot
    exact Or.inr ⟨v, htx ▸ hv.snoc hstep⟩

/-- A key that is not active is not kept. -/
theorem Sender.KeyInv.not_keeps {s : Sender} (h : s.KeyInv) {w : Worker} (hw : w ∈ s.workers)
    {k : SchedulingKey} (hk : k ∉ s.activeKeys) : ¬ w.Keeps k := by
  intro hkeeps
  refine hk ((h.mem_activeKeys k).2 ⟨w, hw, ?_⟩)
  rcases hkeeps with hin | hin <;> simp [outstanding, Worker.keysLeft, hin]

/-- Workers stay in place, and the new one is the last. -/
theorem WorkersChange.tx {st : State} {l : Label} {ws : List Worker} (h : WorkersChange cfg st l ws)
    {i : ℕ} {w' : Worker} (hw' : ws[i]? = some w') :
    (∃ w, st.sender.workers[i]? = some w ∧ w.tx = w'.tx) ∨
      i = st.sender.workers.length ∧ ∃ choice index, st.sender.Dispatches cfg choice index w'.tx := by
  cases h with
  | same hl => exact Or.inl ⟨w', hw', rfl⟩
  | @spawned choice frame index p hl hat hd =>
      rcases List.getElem?_concat_cases hw' with hw | ⟨hi, rfl⟩
      · exact Or.inl ⟨w', hw, rfl⟩
      · exact Or.inr ⟨hi, choice, index, by rwa [Worker.spawn_tx]⟩
  | advanced hl hw hadv =>
      rcases List.getElem?_set_cases hw' with ⟨rfl, rfl⟩ | ⟨-, hw'⟩
      · exact Or.inl ⟨_, hw, (Worker.advance_cases hadv).tx.symm⟩
      · exact Or.inl ⟨w', hw', rfl⟩
  | emitted hl hw hout =>
      rcases List.getElem?_set_cases hw' with ⟨rfl, rfl⟩ | ⟨-, hw'⟩
      · exact Or.inl ⟨_, hw, rfl⟩
      · exact Or.inl ⟨w', hw', rfl⟩

/-- The keys of the entry that is dispatched are free. -/
theorem Sender.Dispatches.keys_free {choice : Choice} {s : Sender} {index : ℕ} {p : PendingTx}
    (h : s.Dispatches cfg choice index p) {k : SchedulingKey} (hk : k ∈ p.schedulingKeys) :
    k ∉ s.activeKeys := by
  obtain ⟨a, ha, -, hfree, -⟩ := KeyedLocks.firstReady_some _ _ h.ready
  obtain rfl := Option.some.inj (ha.symm.trans h.entry)
  exact hfree k hk

/-- What is queued was not dispatched in any earlier state. -/
theorem not_dispatched_before {st st' : State} (h : (senderSystem cfg).Reachable st)
    {ls : List Label} (hrun : (senderSystem cfg).Run System.anyStep st ls st') {p : PendingTx}
    (hp : p ∈ st'.sender.pending) : ¬ st.sender.DispatchedTx p := by
  rintro ⟨w, hw, rfl⟩
  obtain ⟨w', hw', htx, -⟩ := (later_of_run hrun).workers w hw
  exact (keyInv_reachable (h.run hrun)).apart hw' hp (congrArg PendingTx.queueId htx)

/-- **An inclusion key passes on at a verdict.** When a transaction was dispatched after another one
    whose inclusion key it needs, the verdict on that one came before the dispatch. -/
theorem verdict_before_dispatch {st : State} {ls : List Label}
    (h : (senderSystem cfg).Run System.anyStep {} ls st) {i j : ℕ} {w w' : Worker}
    (hw : st.sender.workers[i]? = some w) (hw' : st.sender.workers[j]? = some w') (hij : i < j)
    {k : SchedulingKey} (hk : k ∈ w.tx.inclusionKeys) (hk' : k ∈ w'.tx.schedulingKeys) :
    ∃ v, (senderSystem cfg).Happened
      (fun st l => VerdictOn cfg w.tx v st l ∧ ¬ st.sender.DispatchedTx w'.tx) {} ls st := by
  refine h.history (I := fun ls st => ∀ i j w w', st.sender.workers[i]? = some w →
    st.sender.workers[j]? = some w' → i < j → k ∈ w.tx.inclusionKeys → k ∈ w'.tx.schedulingKeys →
      ∃ v, (senderSystem cfg).Happened
        (fun st l => VerdictOn cfg w.tx v st l ∧ ¬ st.sender.DispatchedTx w'.tx) {} ls st)
    (fun i j w w' hw => by cases hw) (fun ls st l st' hrun ih _ hstep i j w w' hw hw' hij hk hk' => ?_)
    i j w w' hw hw' hij hk hk'
  have hchange := (senderStep_move hstep).workers
  rcases hchange.tx hw' with ⟨v', hv', htx'⟩ | ⟨hj, choice, index, hd⟩
  · obtain ⟨v, hv, htx⟩ := (hchange.tx hw).resolve_right fun ⟨hi, _⟩ => by
      have := (List.getElem?_eq_some_iff.1 hv').1
      omega
    obtain ⟨verdict, hverdict⟩ := ih i j v v' hv hv' hij (htx ▸ hk) (htx' ▸ hk')
    rw [htx, htx'] at hverdict
    exact ⟨verdict, hverdict.snoc hstep⟩
  · -- the new worker; the key it needs is free, so the older one has had its verdict
    obtain ⟨v, hv, htx⟩ := (hchange.tx hw).resolve_right fun ⟨hi, _⟩ => by omega
    rw [← htx] at hk ⊢
    have hinv := keyInv_reachable ⟨ls, hrun⟩
    have hgone := hinv.not_keeps (List.mem_of_getElem? hv) (hd.keys_free hk')
    obtain ⟨verdict, hverdict⟩ := (keeps_until_verdict hrun hv hk).resolve_left hgone
    refine ⟨verdict, (hverdict.imp fun u l' u' before after hbefore hst hafter hP => ⟨hP, ?_⟩).snoc
      hstep⟩
    exact not_dispatched_before ⟨before, hbefore⟩ (System.Run.cons trivial hst hafter)
      (List.mem_of_getElem? hd.entry)

/-! ## Transactions passed to `send` -/

/-- Every entry of the log keeps the inclusion keys of what was passed to `send`. -/
def Sender.KeepsInclusion (s : Sender) : Prop :=
  ∀ a ∈ s.log.accepted, ∀ k ∈ a.source.inclusionKeys, k ∈ a.entry.inclusionKeys

theorem Sender.KeepsInclusion.step {s s' : Sender} (h : s.KeepsInclusion) (hs : Step cfg s s') :
    s'.KeepsInclusion := by
  cases hs with
  | @handle q m rest hc =>
      cases m with
      | setupFinished id success => cases success <;> exact h
      | _ => exact h
  | enqueue he =>
      obtain ⟨sub, inc, known, hnorm, rfl, -⟩ := he
      intro a ha k hk
      rcases List.mem_append.1 ha with ha | ha
      · exact h a ha k hk
      · obtain rfl := List.mem_singleton.1 ha
        simp only [normalizeKeySets, Option.ite_none_left_eq_some, Option.some.injEq,
          Prod.mk.injEq] at hnorm
        exact hnorm.2.2 ▸ mem_dedupSchedulingKeys.2 hk
  | failAuthentication _ _ _ _ =>
      unfold Sender.failAuthentication
      split <;> exact h
  | _ => exact h

theorem keepsInclusion_reachable {st : State} (h : (senderSystem cfg).Reachable st) :
    st.sender.KeepsInclusion :=
  sender_invariant (I := Sender.KeepsInclusion) nofun (fun _ _ hI hs => hI.step hs) h

/-- Of two transactions passed to `send`, of which the later one needs an inclusion key of the earlier
    one, the later one is on the wire only after the verdict on the earlier one. -/
theorem dispatched_after_verdict {st : State} {ls : List Label}
    (h : (senderSystem cfg).Run System.anyStep {} ls st) {x y : Accepted}
    (hx : x ∈ st.sender.log.accepted) (hy : y ∈ st.sender.log.accepted) (hxy : x.call < y.call)
    {k : SchedulingKey} (hk : k ∈ x.source.inclusionKeys) (hk' : k ∈ y.source.schedulingKeys)
    (hdispatched : st.sender.DispatchedTx y.entry) :
    x.entry ∉ st.sender.pending ∧ (st.sender.DispatchedTx x.entry →
      ∃ v, (senderSystem cfg).Happened
        (fun st l => VerdictOn cfg x.entry v st l ∧ ¬ st.sender.DispatchedTx y.entry) {} ls st) := by
  have hreach : (senderSystem cfg).Reachable st := ⟨ls, h⟩
  have hatom : AtomInv st.sender st.calls st.control.phase := atom_reachable hreach
  have hacc := acceptedInv_reachable hreach
  have hinc := keepsInclusion_reachable hreach x hx k hk
  have hsub : [x, y].Sublist st.sender.log.accepted := by
    obtain ⟨i, hi⟩ := List.mem_iff_getElem?.1 hx
    obtain ⟨j, hj⟩ := List.mem_iff_getElem?.1 hy
    refine List.pair_sublist_iff.2 ⟨i, j, ?_, hi, hj⟩
    by_contra hji
    rcases Nat.lt_or_eq_of_le (Nat.le_of_not_lt hji) with hlt | rfl
    · obtain ⟨hi', rfl⟩ := List.getElem?_eq_some_iff.1 hi
      obtain ⟨hj', rfl⟩ := List.getElem?_eq_some_iff.1 hj
      exact absurd (List.pairwise_iff_getElem.1 hatom.calls_sorted j i hj' hi' hlt) hxy.asymm
    · obtain rfl := Option.some.inj (hi.symm.trans hj)
      exact absurd hxy (Nat.lt_irrefl _)
  obtain ⟨w, hw, hwtx⟩ := hdispatched
  obtain ⟨hpending, horder⟩ := (exclusive_in_order hreach).inOrder x y hsub
    ⟨k, List.mem_append_right _ hk, hk'⟩ ⟨w, hw, congrArg PendingTx.queueId hwtx⟩
  refine ⟨hpending, fun ⟨v, hv, hvtx⟩ => ?_⟩
  obtain ⟨i, j, hij, hi, hj⟩ :=
    List.pair_sublist_iff.1 (horder ⟨v, hv, congrArg PendingTx.queueId hvtx⟩)
  rw [List.getElem?_map, Option.map_eq_some_iff] at hi hj
  obtain ⟨wx, hwx, hidx⟩ := hi
  obtain ⟨wy, hwy, hidy⟩ := hj
  have htx := hacc.worker_entry hx (List.mem_of_getElem? hwx) hidx
  have hty := hacc.worker_entry hy (List.mem_of_getElem? hwy) hidy
  have hverdict := verdict_before_dispatch h hwx hwy hij (htx ▸ hinc)
    (hty ▸ (hacc.keys y hy k).2 hk')
  rwa [htx, hty] at hverdict

/-! ## What a transaction waits for -/

/-- The transaction at place `j` of the queue needs the key `k`, which is in use or needed by one that
    is ahead. -/
def Sender.WaitsForKey (s : Sender) (j : ℕ) (k : SchedulingKey) : Prop :=
  ∃ p, s.pending[j]? = some p ∧ k ∈ p.schedulingKeys ∧
    (k ∈ s.activeKeys ∨ ∃ c ∈ s.pending.take j, k ∈ c.schedulingKeys)

/-- Why the pump passes a transaction over. -/
theorem Sender.passed_over {s : Sender} {j : ℕ} {p : PendingTx} (hp : s.pending[j]? = some p)
    (h : ∀ i, s.nextReadyIndex = some i → j < i) :
    s.dependenciesMet p = false ∨ ∃ k, s.WaitsForKey j k := by
  refine (KeyedLocks.firstReady_skips _ _ hp h).imp_right fun ⟨k, hk, hwhy⟩ => ?_
  exact ⟨k, p, hp, hk, hwhy⟩

end Runs

end TxGen
