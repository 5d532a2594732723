import TxGen.Sender.History

set_option autoImplicit false

/-! # Failed setup transactions

A setup transaction that ends without a successful receipt cancels what is queued behind it: the main
task learns of the failure from `SetupFinished` and clears the queue at its next pump. What depends on
the failed transaction can never become ready. What merely shares a scheduling key with it can: the
worker sends `Release` before `SetupFinished`, and a pump between the two messages finds the key free
and no failure recorded. -/

namespace TxGen

open Sender

/-- A setup worker that ended without a successful receipt. -/
def Worker.Failed (w : Worker) : Prop :=
  w.tx.phase = .setup ∧ w.stage = .done ∧ w.success = false

instance (w : Worker) : Decidable w.Failed := inferInstanceAs (Decidable (_ ∧ _))

def PendingTx.SharesKey (p q : PendingTx) : Prop :=
  ∃ k ∈ p.schedulingKeys, k ∈ q.schedulingKeys

instance (p q : PendingTx) : Decidable (p.SharesKey q) :=
  inferInstanceAs (Decidable (∃ k ∈ p.schedulingKeys, k ∈ q.schedulingKeys))

namespace Sender

/-- The setup transaction with id `d` finished with a successful receipt. -/
def Succeeded (s : Sender) (d : String) : Prop :=
  ∃ w ∈ s.workers, w.tx.phase = .setup ∧ w.tx.id = some d ∧ w.stage = .done ∧ w.success = true

/-- `p` depends on `d`, directly or through other accepted setup transactions. -/
inductive DependsOn (s : Sender) (d : String) : PendingTx → Prop
  | direct {p : PendingTx} (h : d ∈ p.dependsOn) : DependsOn s d p
  | through {p : PendingTx} {a : Accepted} {e : String} (ha : a ∈ s.log.accepted)
      (setup : a.entry.phase = .setup) (id : a.entry.id = some e) (h : e ∈ p.dependsOn)
      (rest : DependsOn s d a.entry) : DependsOn s d p

/-- `SetupFinished` of `w` has not been handled. -/
def Unreported (s : Sender) (w : Worker) : Prop := ∃ v ∈ s.workers, v.tx = w.tx ∧ s.Owes v

/-- Of the setup transactions queued in `s`, none that shares a key with `w` or depends on it has been
    dispatched in `s'`. -/
def CancelsBehind (s s' : Sender) (w : Worker) : Prop :=
  ∀ p ∈ s.pending, p.phase = .setup →
    (p.SharesKey w.tx ∨ ∃ d, w.tx.id = some d ∧ s.DependsOn d p) → ¬ s'.DispatchedTx p

/-! ## Dependents -/

theorem DependsOn.later {s s' : Sender} (h : s.Later s') {d : String} {p : PendingTx}
    (hd : s.DependsOn d p) : s'.DependsOn d p := by
  induction hd with
  | direct h => exact .direct h
  | through ha setup id he _ ih => exact .through (h.accepted ha) setup id he ih

/-- Accepted setup transactions are determined by their ids. -/
theorem SetupInv.entry_of_id {s : Sender} (h : s.SetupInv) {a b : Accepted}
    (ha : a ∈ s.log.accepted) (hb : b ∈ s.log.accepted) (hpa : a.entry.phase = .setup)
    (hpb : b.entry.phase = .setup) (hid : a.entry.id = b.entry.id) : a = b := by
  by_contra hne
  have : Std.Symm fun a b : Accepted =>
      a.entry.phase = .setup → b.entry.phase = .setup → a.entry.id ≠ b.entry.id :=
    ⟨fun _ _ hab hb ha hid => hab ha hb hid.symm⟩
  exact h.unique.forall ha hb hne hpa hpb hid

/-- Dispatched setup transactions with the same id are the same. -/
theorem Inv.tx_of_id {s : Sender} (h : s.Inv) {v w : Worker} (hv : v ∈ s.workers)
    (hw : w ∈ s.workers) (hpv : v.tx.phase = .setup) (hpw : w.tx.phase = .setup)
    (hid : v.tx.id = w.tx.id) : v = w := by
  obtain ⟨a, ha, hav⟩ := h.accepted.worker_mem v hv
  obtain ⟨b, hb, hbw⟩ := h.accepted.worker_mem w hw
  have hab : a = b := by
    rw [← hav] at hpv hid
    rw [← hbw] at hpw hid
    exact h.setup.entry_of_id ha hb hpv hpw hid
  refine h.keys.worker_injective hv hw ?_
  rw [← hav, ← hbw, hab]

theorem Inv.succeeded {s : Sender} (h : s.Inv) {w : Worker} (hw : w ∈ s.workers) {d : String}
    (hd : d ∈ w.tx.dependsOn) : s.Succeeded d := by
  obtain ⟨v, hv, hdone, hphase, hid, hsucc⟩ :=
    h.setup.completed d (h.setup.dependencies w hw d hd)
  exact ⟨v, hv, hphase, hid, hdone, hsucc⟩

/-- What depends on a failed transaction is never dispatched: its chain of dependencies would have to
    succeed down to the failed one. -/
theorem Inv.not_dispatched_of_dependsOn {s : Sender} (h : s.Inv) {w : Worker} (hw : w ∈ s.workers)
    (hfail : w.Failed) {d : String} (hid : w.tx.id = some d) {p : PendingTx}
    (hdep : s.DependsOn d p) : ¬ s.DispatchedTx p := by
  induction hdep with
  | direct hd =>
      rintro ⟨v, hv, rfl⟩
      obtain ⟨u, hu, hphase, hud, -, hsucc⟩ := h.succeeded hv hd
      obtain rfl := h.tx_of_id hu hw hphase hfail.1 (hud.trans hid.symm)
      exact Bool.noConfusion (hsucc.symm.trans hfail.2.2)
  | @through p a e ha setup hae he _ ih =>
      rintro ⟨v, hv, rfl⟩
      obtain ⟨u, hu, hphase, hue, -, -⟩ := h.succeeded hv he
      obtain ⟨b, hb, hbu⟩ := h.accepted.worker_mem u hu
      refine ih ⟨u, hu, ?_⟩
      rw [← hbu] at hphase hue ⊢
      rw [h.setup.entry_of_id hb ha hphase setup (hue.trans hae.symm)]

end Sender

/-! ## Transactions that share a key -/

/-- In this step the pump dispatches a setup transaction with a queue id below `n` that shares a key
    with `w`, although the report of `w` has not been handled. -/
def OvertakesReport (cfg : Config) (w : Worker) (n : ℕ) (st : State) (l : Label) : Prop :=
  ∃ choice frame index p, l = .main choice ∧ st.control = .deciding frame ∧
    st.sender.Dispatches cfg choice index p ∧ p.phase = .setup ∧ p.queueId < n ∧
    p.SharesKey w.tx ∧ st.sender.Unreported w

section Sharing

variable {cfg : Config} {st st' : State} {w : Worker}

theorem step_dispatches {choice : Choice} {frame : Frame} {index : ℕ} {p : PendingTx}
    (hat : st.control = .deciding frame) (hd : st.sender.Dispatches cfg choice index p)
    (hstep : senderStep cfg st (.main choice) = some st') :
    st'.sender = ((st.sender.removePending index).activateKeys p).dispatch cfg p := by
  simp only [senderStep, State.mainStep, hat, State.decide, pumpTurn_dispatches hd,
    Option.some.injEq] at hstep
  rw [← hstep]

/-- A failed worker whose report was handled has left a failure behind. -/
theorem Sender.Inv.unreported {s : Sender} (h : s.Inv) (hf : s.setupFailure = none) {v : Worker}
    (hv : v ∈ s.workers) (hfail : v.Failed) (htx : v.tx = w.tx) : s.Unreported w := by
  refine ⟨v, hv, htx, (h.setup.outcome v hv hfail.2.1 hfail.1).resolve_right fun hset => ?_⟩
  rw [Settled, hfail.2.2] at hset
  exact hset hf

/-- No step dispatches `p`, unless it overtakes the report of the failed `w`. -/
theorem not_dispatched_step {n : ℕ} {l : Label} {p : PendingTx} (hinv : st.sender.Inv)
    (hw : ∃ v ∈ st.sender.workers, v.tx = w.tx ∧ v.Failed) (hp : p.phase = .setup)
    (hlt : p.queueId < n) (hshare : p.SharesKey w.tx) (hok : ¬ OvertakesReport cfg w n st l)
    (hnot : ¬ st.sender.DispatchedTx p) (hm : Move cfg st l st') : ¬ st'.sender.DispatchedTx p := by
  rintro ⟨v, hv, rfl⟩
  have hworkers := hm.workers
  generalize st'.sender.workers = ws at hworkers hv
  cases hworkers with
  | same _ => exact hnot ⟨v, hv, rfl⟩
  | @spawned choice frame index r hl hat hd =>
      rcases List.mem_append.1 hv with hv | hv
      · exact hnot ⟨v, hv, rfl⟩
      · obtain rfl := List.mem_singleton.1 hv
        rw [Worker.spawn_tx] at hp hlt hshare
        obtain ⟨u, hu, htx, hfail⟩ := hw
        exact hok ⟨choice, frame, index, r, hl, hat, hd, hp, hlt, hshare,
          hinv.unreported hd.setupOk hu hfail htx⟩
  | advanced _ hw' hadv =>
      rcases List.mem_or_eq_of_mem_set hv with hv | rfl
      · exact hnot ⟨v, hv, rfl⟩
      · exact hnot ⟨_, List.mem_of_getElem? hw', (Worker.advance_cases hadv).tx.symm⟩
  | emitted _ hw' _ =>
      rcases List.mem_or_eq_of_mem_set hv with hv | rfl
      · exact hnot ⟨v, hv, rfl⟩
      · exact hnot ⟨_, List.mem_of_getElem? hw', rfl⟩

/-- In a run that never overtakes the report of the failed `w`, a queued setup transaction that shares
    a key with it stays undispatched. -/
theorem not_dispatched_run {p : PendingTx} {ls : List Label} (hinv : st.sender.Inv)
    (hw : w ∈ st.sender.workers) (hfail : w.Failed) (hpend : p ∈ st.sender.pending)
    (hp : p.phase = .setup) (hshare : p.SharesKey w.tx)
    (h : (senderSystem cfg).Run
      (fun s l => ¬ OvertakesReport cfg w st.sender.nextQueueId s l) st ls st') :
    ¬ st'.sender.DispatchedTx p := by
  have hlt := hinv.keys.pending_lt p hpend
  refine (h.invariant (I := fun s => s.sender.Inv ∧
      (∃ v ∈ s.sender.workers, v.tx = w.tx ∧ v.Failed) ∧ ¬ s.sender.DispatchedTx p)
    (fun s l t hok hI hst => ?_) ⟨hinv, ⟨w, hw, rfl, hfail⟩, ?_⟩).2.2
  · obtain ⟨hs, ⟨v, hv, htx, hvf⟩, hnot⟩ := hI
    have hm := senderStep_move hst
    obtain ⟨v', hv', htx', hdone⟩ := hm.steps.later.workers v hv
    refine ⟨hs.steps hm.steps, ⟨v', hv', htx'.trans htx, htx' ▸ hvf.1, (hdone hvf.2.1).1,
      (hdone hvf.2.1).2.trans hvf.2.2⟩, ?_⟩
    exact not_dispatched_step hs ⟨v, hv, htx, hvf⟩ hp hlt hshare hok hnot hm
  · rintro ⟨v, hv, rfl⟩
    exact hinv.keys.apart hv hpend rfl

/-- If no queued transaction of the state `st` behind `w` is ever dispatched, no step overtakes the
    report of `w`. -/
theorem run_of_cancels {s₁ : Sender} {ls : List Label} (hlater : s₁.Later st.sender)
    (h : (senderSystem cfg).Run System.anyStep st ls st')
    (hc : s₁.CancelsBehind st'.sender w) :
    (senderSystem cfg).Run (fun s l => ¬ OvertakesReport cfg w s₁.nextQueueId s l) st ls st' := by
  induction h with
  | nil s => exact .nil s
  | @cons s t u l ls _ hstep hrest ih =>
      refine .cons ?_ hstep (ih (hlater.trans (senderStep_steps hstep).later) hc)
      rintro ⟨choice, frame, index, p, rfl, hat, hd, hp, hlt, hshare, -⟩
      have hpend := hlater.pending p (List.mem_of_getElem? hd.entry) hlt
      have ht : Worker.spawn p cfg.maxPending.isSome ∈ t.sender.workers := by
        rw [step_dispatches hat hd hstep]
        exact List.mem_append_right _ (List.mem_singleton_self _)
      obtain ⟨v, hv, htx, -⟩ := (later_of_run hrest).workers _ ht
      exact hc p hpend hp (Or.inl hshare) ⟨v, hv, htx.trans (Worker.spawn_tx p _)⟩

end Sharing

namespace Sample

/-- Two setup transactions on one key; the RPC endpoint is about to answer for the first. -/
def twoOnOneKey : List Label :=
  [.sendSetup [setup "a" [] [key 1], setup "b" [] [key 1]]] ++ turns 8 ++
    [.worker 0 (.prepared (.ok ())), .worker 0 (.signed true), .worker 0 (.registered (.ok ()))]

def rejected : Label := .worker 0 (.submitted .rejected)

/-- `Release` is sent and handled, and the pump runs before `SetupFinished` is sent. -/
def pumpInBetween : List Label := [.emit 0, .flush] ++ turns 3

end Sample

end TxGen
