import TxGen.Sender.Progress

set_option autoImplicit false

/-! # What is left when every worker has ended

The in-flight counters are decremented by guards that report whatever happens to a worker. Scheduling
keys are released by explicit messages: a worker that panics or is cancelled sends none, and its keys
stay in `active_keys` for good. Counting what workers take with them (`Worker.lost`) makes this exact:
after everything has ended no key is left if and only if no worker died with a key in hand. -/

namespace TxGen

open Sender

/-! ## Lost keys -/

/-- If the step kills a worker, that worker has released all its keys before. -/
def KillsNoHolder (st : State) : Label → Prop
  | .worker index .crash => ∀ w, st.sender.workers[index]? = some w →
      w.owned = [] ∧ Worker.messageKeys w.outbox = []
  | _ => True

/-- No worker has taken a key with it. -/
def Sender.Kept (s : Sender) : Prop := ∀ w ∈ s.workers, w.lost = []

/-- Only a crash loses keys: all the worker has not sent. -/
theorem Worker.advance_lost {ls : Bool} {w w' : Worker} {event : WorkerEvent}
    (h : w.advance ls event = some w') :
    (event = .crash ∧ w'.lost = w.lost ++ messageKeys w.outbox ++ w.owned) ∨
      (event ≠ .crash ∧ w'.lost = w.lost) := by
  cases event with
  | crash =>
      simp only [advance] at h
      split at h
      · cases h
      · cases h
        exact Or.inl ⟨rfl, rfl⟩
  | _ =>
      refine Or.inr ⟨by simp, ?_⟩
      simp only [advance] at h
      repeat' split at h
      all_goals cases h
      all_goals rfl

section Kept

variable {cfg : Config} {st st' : State} {l : Label}

theorem killsNoHolder_of_main (h : l.byWorker = false) : KillsNoHolder st l := by
  cases l with
  | worker index event => cases h
  | _ => trivial

/-- A step keeps every key with its worker if and only if it kills no holder. -/
theorem Move.kept (h : Move cfg st l st') :
    st'.sender.Kept ↔ st.sender.Kept ∧ KillsNoHolder st l := by
  unfold Kept
  have hworkers := h.workers
  generalize st'.sender.workers = ws at hworkers
  cases hworkers with
  | same hl => exact (and_iff_left (killsNoHolder_of_main hl)).symm
  | @spawned choice frame index p hl _ _ =>
      rw [and_iff_left (killsNoHolder_of_main (by rw [hl]; rfl)), List.forall_mem_append]
      have hspawn : (Worker.spawn p cfg.maxPending.isSome).lost = [] :=
        (Worker.spawn_inv p _).lost_running (Worker.spawn_running p _)
      exact and_iff_left fun w hw => List.mem_singleton.1 hw ▸ hspawn
  | @advanced index w w' event hl hw hadv =>
      subst hl
      rcases Worker.advance_lost hadv with ⟨rfl, hlost⟩ | ⟨hne, hlost⟩
      · rw [List.forall_mem_set hw fun hnil => by
          rw [hlost, List.append_eq_nil_iff, List.append_eq_nil_iff] at hnil
          exact hnil.1.1]
        refine and_congr_right fun hkept => ?_
        rw [hlost, hkept w (List.mem_of_getElem? hw), List.nil_append, List.append_eq_nil_iff]
        constructor
        · rintro ⟨hout, howned⟩ v hv
          obtain rfl := Option.some.inj (hw.symm.trans hv)
          exact ⟨howned, hout⟩
        · intro hkills
          exact (hkills w hw).symm
      · rw [List.forall_mem_set hw fun hnil => by rw [← hlost]; exact hnil]
        refine and_congr_right fun hkept => ?_
        rw [hlost, hkept w (List.mem_of_getElem? hw)]
        refine iff_of_true rfl ?_
        cases event with
        | crash => exact absurd rfl hne
        | _ => trivial
  | @emitted index w m rest hl hw hout =>
      subst hl
      rw [List.forall_mem_set (b := { w with outbox := rest }) hw fun hnil => hnil]
      exact and_congr_right fun hkept => iff_of_true (hkept w (List.mem_of_getElem? hw)) trivial

/-- A lost key stays lost. -/
theorem kept_before {ok : State → Label → Prop} {ls : List Label}
    (h : (senderSystem cfg).Run ok st ls st') (hkept : st'.sender.Kept) : st.sender.Kept := by
  induction h with
  | nil s => exact hkept
  | cons _ hstep _ ih => exact ((senderStep_move hstep).kept.1 (ih hkept)).1

/-- No key is lost in a run if and only if none of its steps kills a holder. -/
theorem kept_iff_run {ls : List Label} (h : (senderSystem cfg).Run System.anyStep st ls st')
    (hkept : st.sender.Kept) :
    st'.sender.Kept ↔ (senderSystem cfg).Run KillsNoHolder st ls st' := by
  induction h with
  | nil s => exact iff_of_true hkept (.nil s)
  | @cons s t u l ls _ hstep hrest ih =>
      have hmove := (senderStep_move hstep).kept
      constructor
      · intro hu
        have ht := kept_before hrest hu
        exact .cons (hmove.1 ht).2 hstep ((ih ht).1 hu)
      · intro hrun
        cases hrun with
        | cons hok hstep' hrest' =>
            obtain rfl := Option.some.inj (hstep.symm.trans hstep')
            exact (ih (hmove.2 ⟨hkept, hok⟩)).2 hrest'

end Kept

/-! ## What follows for the main task -/

section Flush

variable {cfg : Config} {st st' : State}

/-- `flush` waits only while there is something to wait for. -/
def FlushInv (st : State) : Prop :=
  ∀ firstError, st.control = .awaitFlush firstError → st.sender.Busy

theorem FlushInv.of_control {st : State} (h : ∀ e, st.control ≠ .awaitFlush e) : FlushInv st :=
  fun e hc => absurd hc (h e)

theorem FlushInv.flushed {e : Option SendError} (h : Flushed st e st') : FlushInv st' := by
  cases h with
  | waiting hbusy => exact fun _ _ => hbusy
  | joining _ => exact .of_control nofun

theorem FlushInv.entered {tx : GeneratedTx} (h : Entered cfg st tx st') : FlushInv st' := by
  cases h with
  | full _ => exact .of_control nofun
  | queued _ => exact .of_control nofun
  | refused _ => exact .of_control nofun

theorem FlushInv.move (h : FlushInv st) {l : Label} (hm : Move cfg st l st') : FlushInv st' := by
  cases hm with
  | send _ _ entered => exact .entered entered
  | flushDeferred _ _ flushed => exact .flushed flushed
  | setup ready =>
      unfold State.startSetup
      split
      · exact h
      split <;> exact h
  | @failed _ frame s queueId e hat turn =>
      cases frame with
      | capacity tx => exact .of_control (by rintro _ ⟨⟩)
      | send current =>
          simp only [State.pumpErr]
          split <;> exact .of_control (by rintro _ ⟨⟩)
      | flush => exact .flushed (State.flushLoop_flushed _ _)
  | received hat _ => exact .of_control fun e hc => by rw [hat] at hc; cases hc
  | capacityEntered _ _ entered => exact .entered entered
  | flushed _ _ flushed => exact .flushed flushed
  | capacityReceived _ _ entered => exact .entered entered
  | failedFlushReceived _ _ flushed => exact .flushed flushed
  | advance _ _ => exact h
  | emit _ _ => exact h
  | _ => exact .of_control (by rintro _ ⟨⟩)

theorem flushInv_reachable (h : (senderSystem cfg).Reachable st) : FlushInv st :=
  h.invariant (.of_control nofun) fun _ _ _ hI hst => hI.move (senderStep_move hst)

/-- The main task, left alone, returns from the current call. -/
def Returns (cfg : Config) (st : State) : Prop :=
  ∃ n st', (senderSystem cfg).exec st (List.replicate n .main) = some st' ∧ st'.control = .idle

theorem Returns.step (st' : State) (h : st.mainStep cfg {} = some st') (hr : Returns cfg st') :
    Returns cfg st := by
  obtain ⟨n, t, ht, hidle⟩ := hr
  have hstep : (senderSystem cfg).step st .main = some st' := h
  refine ⟨n + 1, t, ?_, hidle⟩
  rw [List.replicate_succ, System.exec, hstep]
  exact ht

/-- Everything has ended, and nothing is queued. -/
structure Sender.Finished (s : Sender) : Prop where
  quiescent : s.Quiescent
  pending : s.pending = []
  expects : ¬ s.Expects

theorem Sender.Finished.not_busy {s : Sender} (h : s.Finished) : ¬ s.Busy :=
  fun hb => hb.elim (fun hp => hp h.pending) h.expects

theorem flushLoop_finished (st : State) (h : st.sender.Finished) (e : Option SendError) :
    st.flushLoop e = { st with control := .joining e } := by
  have hflushed := st.flushLoop_flushed e
  generalize st.flushLoop e = st' at hflushed
  cases hflushed with
  | waiting hbusy => exact absurd hbusy h.not_busy
  | joining _ => rfl

theorem pumpTurn_empty (cfg : Config) {s : Sender} (h : s.pending = []) (choice : Choice) :
    ∃ r, s.pumpTurn cfg choice = (s, r) ∧ (r = .ok ∨ ∃ e, r = .err none e) := by
  have hnone : s.nextReadyIndex = none := by
    rw [nextReadyIndex, h]
    rfl
  unfold pumpTurn
  split
  · exact ⟨_, rfl, Or.inr ⟨_, rfl⟩⟩
  split
  · exact ⟨_, rfl, Or.inr ⟨_, rfl⟩⟩
  split
  · exact ⟨_, rfl, Or.inl rfl⟩
  rw [hnone]
  exact ⟨_, rfl, Or.inl rfl⟩

theorem returns_joining (h : st.sender.Quiescent) {e : Option SendError}
    (hat : st.control = .joining e) : Returns cfg st := by
  refine Returns.step (st.finish (State.flushResult e)) ?_ ⟨0, _, rfl, rfl⟩
  rw [State.mainStep, hat]
  exact if_pos (List.all_eq_true.2 h.2)

theorem returns_deciding (h : st.sender.Finished) (hat : st.control = .deciding .flush) :
    Returns cfg st := by
  refine Returns.step (st.decide cfg .flush {}) (by rw [State.mainStep, hat]) ?_
  obtain ⟨r, hturn, rfl | ⟨e, rfl⟩⟩ := pumpTurn_empty cfg h.pending {}
  · rw [State.decide, hturn]
    refine returns_joining (e := none) ?_ (congrArg State.control (flushLoop_finished st h none))
    exact (flushLoop_sender _ _).symm ▸ h.quiescent
  · have hcleared : st.sender.clearPending.Finished := ⟨h.quiescent, rfl, h.expects⟩
    rw [State.decide, hturn]
    refine returns_joining (e := some e) ?_ (congrArg State.control (flushLoop_finished
      { st.recordRaised e with sender := st.sender.clearPending } hcleared (some e)))
    exact (flushLoop_sender _ _).symm ▸ h.quiescent

/-- A `flush` under way with everything over returns. -/
theorem returns_flush (st : State) (h : st.sender.Finished) (hinv : FlushInv st)
    (hflush : st.control.inFlush = true) : Returns cfg st := by
  cases hat : st.control with
  | draining frame =>
      cases frame with
      | flush =>
          refine Returns.step { st with control := .deciding .flush } ?_
            (returns_deciding h rfl)
          simp only [State.mainStep, hat, receive, h.quiescent.1]
      | _ => rw [hat] at hflush; cases hflush
  | deciding frame =>
      cases frame with
      | flush => exact returns_deciding h hat
      | _ => rw [hat] at hflush; cases hflush
  | awaitFlush e => exact absurd (hinv e hat) h.not_busy
  | joining e => exact returns_joining h.quiescent hat
  | _ => rw [hat] at hflush; cases hflush

theorem returns_startFlush (h : st.sender.Finished) : Returns cfg st.startFlush := by
  unfold State.startFlush
  split
  · rename_i e hde
    have hcleared : st.sender.takeDeferred.Finished := ⟨h.quiescent, rfl, h.expects⟩
    rw [flushLoop_finished _ (by exact hcleared)]
    exact returns_joining (e := some e) h.quiescent rfl
  · exact returns_flush { st.startCall [] with control := .draining .flush } h
      (.of_control nofun) rfl

end Flush

/-- Nothing is left of the workers, so nothing is held up: the head of the queue is dispatched and
    `flush` returns. -/
structure Drained (cfg : Config) (st : State) : Prop where
  keys : st.sender.activeKeys = ∅
  setup : st.sender.inFlightSetup = 0
  pending : st.sender.inFlightPending = 0
  dispatches : ∀ p rest, st.sender.pending = p :: rest → st.sender.dependenciesMet p = true →
    st.sender.pendingFailure = none → st.sender.setupFailure = none →
    ∀ choice : Choice, choice.auth p.sender = true → choice.delayed = false →
      st.sender.pumpTurn cfg choice =
        (((st.sender.removePending 0).activateKeys p).dispatch cfg p, .again)
  flushes : st.sender.pending = [] →
    (st.control.inFlush = true → Returns cfg st) ∧ (st.ready = true → Returns cfg st.startFlush)

theorem drained_of_kept {cfg : Config} {st : State} (hinv : st.sender.Inv) (hflush : FlushInv st)
    (hq : st.sender.Quiescent) (hkept : st.sender.Kept) : Drained cfg st := by
  obtain ⟨hsetup, hpending, hkeys⟩ := hinv.quiescent hq
  have hactive : st.sender.activeKeys = ∅ := by
    refine Finset.eq_empty_of_forall_notMem fun k hk => ?_
    obtain ⟨w, hw, hin⟩ := (hkeys k).1 hk
    rw [hkept w hw] at hin
    cases hin
  have hexpects : ¬ st.sender.Expects := by
    rintro (ha | hs | hp)
    · exact ha hactive
    · omega
    · omega
  refine ⟨hactive, hsetup, hpending, ?_, fun hp => ⟨fun hin => returns_flush st ⟨hq, hp, hexpects⟩
    hflush hin, fun _ => returns_startFlush ⟨hq, hp, hexpects⟩⟩⟩
  intro p rest hpend hmet hpf hsf choice hauth hdelay
  have hready : st.sender.nextReadyIndex = some 0 := by
    rw [nextReadyIndex, hpend]
    exact KeyedLocks.firstReady_head _ _ hmet fun k _ => by simp [hactive]
  have hget : st.sender.pending[0]? = some p := by rw [hpend]; rfl
  have hcap : cfg.maxPending.any (· ≤ st.sender.inFlightPending) = false := by
    refine Bool.eq_false_iff.2 fun hany => ?_
    obtain ⟨limit, hlimit, hle⟩ := (Option.any_eq_true _ _).1 hany
    have := cfg.maxPending_pos limit hlimit
    have := of_decide_eq_true hle
    omega
  have hpermits : st.sender.permitsHeld < cfg.maxConcurrent := by
    by_contra hle
    obtain ⟨w, hw, hpermit⟩ := List.countP_pos_iff.1 (cfg.maxConcurrent_pos.trans_le (not_lt.1 hle))
    have hdone : w.stage = .done := (by simpa [Worker.finished] using hq.2 w hw : _ ∧ _).1
    obtain ⟨a, ha, heq⟩ := hinv.accepted.worker_mem w hw
    have howned := (hinv.reports.workers w hw).permit_owned hpermit
    rw [Worker.owned_done hdone] at howned
    exact hinv.accepted.nonempty a ha (heq ▸ howned.symm)
  exact pumpTurn_dispatches ⟨hpf, hsf, hcap, hready, hpermits, by rw [hdelay, Bool.and_false], hget,
    by rw [hauth, Bool.or_true]⟩

/-- **No key outlives its holder, short of a crash.** In any run to a state where every worker has
    ended and every message was handled, nothing is left of them if and only if no worker died with a
    key in hand. -/
theorem drained_iff {cfg : Config} {st : State} {ls : List Label}
    (h : (senderSystem cfg).Run System.anyStep {} ls st) (hq : st.sender.Quiescent) :
    Drained cfg st ↔ (senderSystem cfg).Run KillsNoHolder {} ls st := by
  have hreach : (senderSystem cfg).Reachable st := ⟨ls, h⟩
  have hinv := inv_reachable hreach
  rw [← kept_iff_run h fun _ hw => absurd hw List.not_mem_nil]
  refine ⟨fun hd w hw => ?_, drained_of_kept hinv (flushInv_reachable hreach) hq⟩
  refine List.eq_nil_iff_forall_not_mem.2 fun k hk => ?_
  have := ((hinv.quiescent hq).2.2 k).2 ⟨w, hw, hk⟩
  rw [hd.keys] at this
  exact absurd this (Finset.notMem_empty k)

namespace Sample

/-- A workload transaction is sent and dispatched. -/
def oneDispatched : List Label := [.send (workload [key 1])] ++ turns 4

/-- Its worker is accepted by the RPC endpoint and ends. -/
def oneEnded : List Label :=
  oneDispatched ++ [.worker 0 (.signed true), .worker 0 (.submitted .accepted), .emit 0] ++
    [.flush, .main]

/-- Its worker panics while the RPC is in flight, and the owner calls `flush`. -/
def oneCrashed : List Label :=
  oneDispatched ++ [.worker 0 (.signed true), .worker 0 .crash] ++ [.flush] ++ turns 2

end Sample

open Sample in
/-- An ordinary exit: the key is released, and the `flush` under way returns. -/
theorem drained_iff_ended :
    ∃ st, (senderSystem config).Run System.anyStep {} oneEnded st ∧ st.control.inFlush = true ∧
      Drained config st := by
  have hcheck : ((senderSystem config).exec {} oneEnded).any (fun st =>
      st.sender.completions.isEmpty = true ∧ st.sender.workers.all Worker.finished = true ∧
      st.control.inFlush = true) = true := by
    decide +kernel
  obtain ⟨st, hrun, hchan, hfin, hflush⟩ := System.run_of_check hcheck
  have hkills : ∀ l ∈ oneEnded, ∀ s, KillsNoHolder s l := by
    simp [oneEnded, oneDispatched, turns, KillsNoHolder]
  exact ⟨st, hrun, hflush, (drained_iff hrun
    ⟨List.isEmpty_iff.1 hchan, List.all_eq_true.1 hfin⟩).2 (hrun.of_labels hkills)⟩

open Sample in
/-- After the panic every worker has ended and every message was handled, but the key is still active
    and `flush` waits. -/
theorem key_outlives_crashed_holder :
    ∃ st, (senderSystem config).Reachable st ∧ st.sender.Quiescent ∧ key 1 ∈ st.sender.activeKeys ∧
      st.control.awaits = true ∧ ¬ Drained config st := by
  have hcheck : ((senderSystem config).exec {} oneCrashed).any (fun st =>
      st.sender.completions.isEmpty = true ∧ st.sender.workers.all Worker.finished = true ∧
      key 1 ∈ st.sender.activeKeys ∧ st.control.awaits = true) = true := by
    decide +kernel
  obtain ⟨st, hrun, hchan, hfin, hkey, hawaits⟩ := System.run_of_check hcheck
  refine ⟨st, ⟨_, hrun⟩, ⟨List.isEmpty_iff.1 hchan, List.all_eq_true.1 hfin⟩, hkey, hawaits,
    fun hd => ?_⟩
  rw [hd.keys] at hkey
  exact absurd hkey (Finset.notMem_empty _)

end TxGen
