import TxGen.Send.Model

set_option autoImplicit false

/-! # Workload transactions at interval boundaries

What the consecutive loops hand to the workload sender, compared with the workload transactions of
the input. Every step of the command passes transactions on in input order, hands one over, ends a
loop that discards the one it holds, or fails (`Flow`). So the transactions handed over are a
contiguous part of the input from its start as long as nothing is handed over after a loop has
discarded one (`boundary_lossless_iff`); `boundary_loses` is a run in which the measurement discards
and the tail sends. -/

namespace TxGen.Send

/-- The transaction that was taken from the source and not yet passed on. -/
def Control.held : Control → List Read
  | .setupSend _ next | .prepare next | .head _ next | .read _ next | .measure next => next.toList
  | .took _ tx => [tx]
  | _ => []

def Control.hasFailed : Control → Bool
  | .failed _ => true
  | _ => false

/-- The workload transactions that are still to come. -/
def State.ahead (s : State) : List Read :=
  s.control.held ++ s.source.workload

/-- The loop is not past its deadline; only an interval checks that after the read. -/
def Loop.inTime (loop : Loop) (now : ℕ) : Bool :=
  match loop with
  | .interval _ deadline => !passed deadline now
  | _ => true

/-- The step calls `Sender::send`. -/
def HandsOver (s : State) (l : Label) : Prop :=
  ∃ loop tx outcome, s.control = .took loop tx ∧ loop.inTime s.now = true ∧ l = .run outcome

/-! ## What one step does with the transactions -/

/-- What a step from `s` to `t` does with the transaction at hand. -/
inductive Flow (s : State) (l : Label) (t : State) : Prop
  | keeps (handed : t.handed = s.handed) (discarded : t.discarded = s.discarded)
      (ahead : t.ahead = s.ahead)
  | hands {tx : Read} (hands : HandsOver s l) (handed : t.handed = s.handed ++ [tx])
      (discarded : t.discarded = s.discarded) (ahead : s.ahead = tx :: t.ahead)
  | discards (handed : t.handed = s.handed)
      (discarded : t.discarded = s.discarded ++ s.control.held)
      (ahead : s.ahead = s.control.held ++ t.ahead)
  | fails {lost : List Read} (handed : t.handed = s.handed)
      (discarded : t.discarded = s.discarded) (failed : t.control.hasFailed = true)
      (ahead : s.ahead = lost ++ t.ahead)

/-- `next_workload_tx` returns the first workload transaction that is to come, or fails. -/
theorem nextWorkloadTx_spec {source source' : TxSource} {pending : Option Read}
    {taken : Except String (Option Read)} (h : nextWorkloadTx source pending = (taken, source')) :
    ∃ lost, pending.toList ++ source.workload = lost ++ source'.workload ∧
      ∀ r, taken = .ok r → lost = r.toList := by
  cases pending with
  | some tx =>
      simp only [nextWorkloadTx] at h
      split at h <;> obtain ⟨rfl, rfl⟩ := Prod.mk.injEq .. ▸ h
      · exact ⟨[tx], rfl, nofun⟩
      · refine ⟨[tx], rfl, fun r hr => ?_⟩
        obtain rfl := Except.ok.inj hr
        rfl
  | none =>
      simp only [nextWorkloadTx] at h
      split at h
      · rename_i tx source₁ hread
        have h₁ : source.nextTx.1 = .ok (some tx) := by rw [hread]
        have h₂ : source.nextTx.2 = source₁ := by rw [hread]
        split at h <;> obtain ⟨rfl, rfl⟩ := Prod.mk.injEq .. ▸ h
        · rename_i hphase
          refine ⟨[], ?_, nofun⟩
          refine (h₂ ▸ TxSource.nextTx_other fun r hr => ?_ : source₁.workload = _).symm
          obtain rfl : tx = r := by simpa using h₁.symm.trans hr
          simp [hphase]
        · rename_i hphase
          have hwork : tx.tx.phase = .workload := by
            cases hp : tx.tx.phase with
            | setup => exact absurd hp hphase
            | workload => rfl
          refine ⟨[tx], h₂ ▸ TxSource.nextTx_workload h₁ hwork, fun r hr => ?_⟩
          obtain rfl := Except.ok.inj hr
          rfl
      · rename_i hread
        have hother : source.nextTx.2.workload = source.workload :=
          TxSource.nextTx_other fun r hr => (hread r _ (Prod.ext hr rfl)).elim
        rw [h] at hother
        refine ⟨[], hother.symm, fun r hr => ?_⟩
        subst hr
        cases r with
        | none => rfl
        | some tx => exact absurd h (hread tx _)

theorem flow_fail {s : State} {l : Label} (m : String) : Flow s l (s.fail m) :=
  .fails rfl rfl rfl rfl

theorem flow_goto {s : State} {l : Label} {c : Control} (h : c.held = s.control.held) :
    Flow s l (s.goto c) :=
  .keeps rfl rfl (congrArg (· ++ s.source.workload) h)

theorem flow_endInterval {s : State} {l : Label} (args : Args) (tail : Bool)
    (h : s.control.held = []) : Flow s l (s.endInterval args tail) := by
  unfold State.endInterval
  split <;> exact flow_goto h.symm

theorem flow_endInterval_discard {s : State} {l : Label} (args : Args) (tail : Bool)
    {next : Option Read} (h : s.control.held = next.toList) :
    Flow s l ((s.discard next).endInterval args tail) := by
  unfold State.endInterval
  split <;> exact .discards rfl (by rw [h]; rfl) rfl

theorem flow_warmUp {s : State} {l : Label} (rampUp : Bool) (duration : ℕ) {next : Option Read}
    (h : s.control.held = next.toList) : Flow s l (s.warmUp rampUp duration next) := by
  unfold State.warmUp
  split <;> exact flow_goto h.symm

theorem flow_setupRead {s : State} {l : Label} (args : Args) {setup : List Read}
    (h : s.control = .setupRead setup) : Flow s l (s.setupRead args setup) := by
  have hheld : s.control.held = [] := by rw [h]; rfl
  unfold State.setupRead
  cases hread : s.source.nextTx with
  | mk taken source =>
      have hsource : s.source.nextTx.2 = source := by rw [hread]
      have htaken : s.source.nextTx.1 = taken := by rw [hread]
      -- whatever was read, unless it is the first workload transaction
      have hother : (∀ r, taken = .ok (some r) → r.tx.phase ≠ .workload) →
          source.workload = s.ahead := fun hne => by
        rw [State.ahead, hheld, List.nil_append, ← hsource]
        exact TxSource.nextTx_other fun r hr => hne r (htaken.symm.trans hr)
      cases taken with
      | error e =>
          have hahead : s.ahead = [] ++ source.workload := (hother nofun).symm
          exact .fails rfl rfl rfl hahead
      | ok taken =>
          cases taken with
          | none => exact .keeps rfl rfl (hother nofun)
          | some tx =>
              dsimp only
              cases hphase : tx.tx.phase with
              | setup =>
                  refine .keeps rfl rfl (hother fun r hr => ?_)
                  obtain rfl : tx = r := by simpa using hr
                  simp [hphase]
              | workload =>
                  refine .keeps rfl rfl ?_
                  rw [State.ahead, State.ahead, hheld, List.nil_append,
                    TxSource.nextTx_workload htaken hphase, hsource]
                  rfl

/-- The input has ended: `s'` is `s` after the read. -/
theorem flow_inputEnded {s s' : State} {l : Label} (args : Args) (loop : Loop)
    (hhanded : s'.handed = s.handed) (hdiscarded : s'.discarded = s.discarded)
    (hahead : s.ahead = s'.source.workload) : Flow s l (s'.inputEnded args loop) := by
  have hfail : ∀ m, Flow s l (s'.fail m) := fun m =>
    .fails hhanded hdiscarded rfl (by rw [hahead]; rfl : s.ahead = [] ++ (s'.fail m).ahead)
  cases loop with
  | proposers deadline => exact hfail _
  | warmUp rampUp start duration => exact hfail _
  | interval tail deadline =>
      simp only [State.inputEnded, State.endInterval]
      split
      · exact hfail _
      · split <;> exact .keeps hhanded hdiscarded hahead.symm

theorem flow_readDone {s : State} {l : Label} (args : Args) {loop : Loop} {next : Option Read}
    (h : s.control = .read loop next) : Flow s l (s.readDone args loop next) := by
  have hheld : s.control.held = next.toList := by rw [h]; rfl
  unfold State.readDone
  cases hread : nextWorkloadTx s.source next with
  | mk taken source =>
      obtain ⟨lost, hahead, hlost⟩ := nextWorkloadTx_spec hread
      rw [← hheld] at hahead
      cases taken with
      | error e => exact .fails rfl rfl rfl hahead
      | ok taken =>
          rw [hlost taken rfl] at hahead
          cases taken with
          | some tx => exact .keeps rfl rfl hahead.symm
          | none => exact flow_inputEnded args loop rfl rfl hahead

theorem flow_takenTx {s : State} (args : Args) {loop : Loop} {tx : Read}
    (outcome : Except String Unit) (h : s.control = .took loop tx) :
    Flow s (.run outcome) (s.takenTx args loop tx) := by
  have hheld : s.control.held = [tx] := by rw [h]; rfl
  have hands : loop.inTime s.now = true → Flow s (.run outcome)
      { s with handed := s.handed ++ [tx], control := .sending loop } := fun hin =>
    .hands ⟨loop, tx, outcome, h, hin, rfl⟩ rfl rfl (congrArg (· ++ s.source.workload) hheld)
  cases loop with
  | proposers deadline => exact hands rfl
  | warmUp rampUp start duration => exact hands rfl
  | interval tail deadline =>
      show Flow s _ (if _ then _ else _)
      split
      · exact flow_endInterval_discard args tail hheld
      · rename_i hin
        exact hands (by simpa [Loop.inTime] using hin)

theorem flow_loopHead {s t : State} {l : Label} {args : Args} {loop : Loop} {next : Option Read}
    (h : s.control = .head loop next) (hst : s.loopHead args loop next = some t) : Flow s l t := by
  have hheld : s.control.held = next.toList := by rw [h]; rfl
  cases loop with
  | proposers deadline => cases hst
  | warmUp rampUp start duration =>
      simp only [State.loopHead] at hst
      split at hst <;> obtain rfl := Option.some.inj hst
      · exact flow_goto hheld.symm
      · exact .discards rfl (by rw [hheld]; rfl) rfl
  | interval tail deadline =>
      simp only [State.loopHead] at hst
      split at hst <;> obtain rfl := Option.some.inj hst
      · exact flow_endInterval_discard args tail hheld
      · exact flow_goto hheld.symm

theorem flow_await {s t : State} {l : Label} (outcome : Except String Unit) (h : Flow s l t) :
    Flow s l (s.await outcome t) := by
  cases outcome with
  | error e => exact flow_fail e
  | ok _ => exact h

theorem flow_run {s t : State} {args : Args} {outcome : Except String Unit}
    (hst : s.run args outcome = some t) : Flow s (.run outcome) t := by
  unfold State.run at hst
  split at hst
  case h_4 h => exact flow_loopHead h hst
  case h_12 | h_13 => cases hst
  all_goals
    obtain rfl := Option.some.inj hst
    rename_i h
  case h_1 => exact flow_setupRead args h
  case h_5 => exact flow_readDone args h
  case h_6 => exact flow_takenTx args outcome h
  all_goals refine flow_await outcome ?_
  case h_3 =>
    unfold State.prepareWorkload
    split
    · exact flow_goto (by rw [h]; rfl)
    · exact flow_warmUp _ _ (by rw [h]; rfl)
  case h_8 => exact flow_warmUp _ _ (by rw [h]; rfl)
  all_goals exact flow_goto (by rw [h]; rfl)

theorem flow_joined {s t : State} {args : Args} {outcome : Option (Except String Unit)}
    (hst : s.joined args outcome = some t) : Flow s (.joined outcome) t := by
  unfold State.joined at hst
  split at hst
  case h_4 => cases hst
  all_goals
    obtain rfl := Option.some.inj hst
    rename_i h
  case h_1 => exact flow_goto (by rw [h]; rfl)
  case h_2 => exact flow_fail _
  case h_3 => exact .discards rfl (by rw [h]; rfl) (by rw [State.ahead, h]; rfl)

theorem flow_expire {s t : State} {args : Args} (hst : s.expire args = some t) :
    Flow s .expire t := by
  unfold State.expire at hst
  split at hst
  case h_5 => cases hst
  all_goals
    rename_i h
    split at hst
  all_goals first | cases hst; done | obtain rfl := Option.some.inj hst
  case h_3.isTrue => exact flow_endInterval args _ (by rw [h]; rfl)
  all_goals exact flow_fail _

/-- What a step of the command does with the transaction at hand. -/
theorem step_flow {args : Args} {s t : State} {l : Label} (hst : step args s l = some t) :
    Flow s l t := by
  cases l with
  | tick elapsed =>
      obtain rfl := Option.some.inj hst
      exact .keeps rfl rfl rfl
  | run outcome => exact flow_run hst
  | joined outcome => exact flow_joined hst
  | expire => exact flow_expire hst

/-! ## Runs -/

section Runs

variable {args : Args} {lines : List Line} {s t : State} {l : Label} {ls : List Label}

/-- The condition on a step: nothing is handed over once a loop has discarded a transaction. -/
def NothingAfterDiscard (s : State) (l : Label) : Prop :=
  HandsOver s l → s.discarded = []

theorem step_handsOver (hst : step args s l = some t) (h : HandsOver s l) :
    ∃ tx, t.handed = s.handed ++ [tx] ∧ s.ahead = tx :: t.ahead := by
  obtain ⟨loop, tx, outcome, hc, hin, rfl⟩ := h
  refine ⟨tx, ?_⟩
  obtain rfl : s.takenTx args loop tx = t := by
    simpa only [step, State.run, hc, Option.some.injEq] using hst
  have hahead : s.ahead = tx :: s.source.workload := by rw [State.ahead, hc]; rfl
  cases loop with
  | proposers deadline => exact ⟨rfl, hahead⟩
  | warmUp rampUp start duration => exact ⟨rfl, hahead⟩
  | interval tail deadline =>
      have hnot : ¬ passed deadline s.now = true := by simpa [Loop.inTime] using hin
      rw [show s.takenTx args (.interval tail deadline) tx =
        { s with handed := s.handed ++ [tx], control := .sending (.interval tail deadline) } from
          if_neg hnot]
      exact ⟨rfl, hahead⟩

/-- A command that has failed takes no further step but the clock's. -/
theorem step_hasFailed (hst : step args s l = some t) (hf : s.control.hasFailed = true) :
    t.control = s.control ∧ t.source = s.source ∧ t.handed = s.handed := by
  cases hc : s.control with
  | failed m =>
      cases l with
      | tick elapsed =>
          obtain rfl := Option.some.inj hst
          exact ⟨hc, rfl, rfl⟩
      | _ => simp [step, State.run, State.joined, State.expire, hc] at hst
  | _ =>
      rw [hc] at hf
      cases hf

/-- The histories only grow. -/
theorem step_grows (hst : step args s l = some t) :
    s.handed <+: t.handed ∧ s.discarded <+: t.discarded := by
  cases step_flow hst with
  | keeps hh hd _ => exact ⟨hh ▸ List.prefix_rfl, hd ▸ List.prefix_rfl⟩
  | hands _ hh hd _ => exact ⟨hh ▸ List.prefix_append _ _, hd ▸ List.prefix_rfl⟩
  | discards hh hd _ => exact ⟨hh ▸ List.prefix_rfl, hd ▸ List.prefix_append _ _⟩
  | fails hh hd _ _ => exact ⟨hh ▸ List.prefix_rfl, hd ▸ List.prefix_rfl⟩

theorem run_grows {ok : State → Label → Prop} (h : (system args lines).Run ok s ls t) :
    s.handed <+: t.handed ∧ s.discarded <+: t.discarded := by
  induction h with
  | nil s => exact ⟨List.prefix_rfl, List.prefix_rfl⟩
  | cons _ hst _ ih =>
      exact ⟨(step_grows hst).1.trans ih.1, (step_grows hst).2.trans ih.2⟩

/-- Every workload transaction of the input is ahead or was taken; the handed over and the discarded
    ones were taken, and none is both. -/
def Accounted (input : List Read) (s : State) : Prop :=
  ∃ taken, input = taken ++ s.ahead ∧ (∀ r ∈ s.handed ++ s.discarded, r ∈ taken) ∧
    s.handed.Disjoint s.discarded

theorem Accounted.step {input : List Read} (hnodup : input.Nodup) (h : Accounted input s)
    (hst : step args s l = some t) : Accounted input t := by
  obtain ⟨taken, rfl, hmem, hdisj⟩ := h
  cases step_flow hst with
  | keeps hh hd ha => exact ⟨taken, by rw [ha], by rwa [hh, hd], by rwa [hh, hd]⟩
  | @hands tx _ hh hd ha =>
      have hnew : tx ∉ taken := fun hin =>
        List.disjoint_of_nodup_append hnodup hin (ha ▸ List.mem_cons_self)
      refine ⟨taken ++ [tx], by rw [ha, List.append_assoc]; rfl, ?_, ?_⟩
      · intro r hr
        rw [hh, hd, List.mem_append, List.mem_append, List.mem_singleton] at hr
        rw [List.mem_append, List.mem_singleton]
        rcases hr with (hr | hr) | hr
        · exact Or.inl (hmem r (List.mem_append_left _ hr))
        · exact Or.inr hr
        · exact Or.inl (hmem r (List.mem_append_right _ hr))
      · rw [hh, hd, List.disjoint_append_left, List.singleton_disjoint]
        exact ⟨hdisj, fun hin => hnew (hmem tx (List.mem_append_right _ hin))⟩
  | discards hh hd ha =>
      have hnew : ∀ r ∈ s.control.held, r ∉ taken := fun r hr hin =>
        List.disjoint_of_nodup_append hnodup hin (List.mem_append_left _ hr)
      refine ⟨taken ++ s.control.held, by rw [ha, List.append_assoc], ?_, ?_⟩
      · intro r hr
        rw [hh, hd, ← List.append_assoc, List.mem_append] at hr
        exact List.mem_append.2 (hr.imp_left (hmem r))
      · rw [hh, hd, List.disjoint_append_right]
        exact ⟨hdisj, fun r hr hin => hnew r hin (hmem r (List.mem_append_left _ hr))⟩
  | @fails lost hh hd _ ha =>
      refine ⟨taken ++ lost, by rw [ha, List.append_assoc], ?_, by rwa [hh, hd]⟩
      rw [hh, hd]
      exact fun r hr => List.mem_append_left _ (hmem r hr)

/-- What is handed over is the beginning of the input, and what lies between it and the transactions
    ahead was discarded or lost in a failure. -/
def Contiguous (input : List Read) (s : State) : Prop :=
  ∃ lost, input = s.handed ++ lost ++ s.ahead ∧
    (lost ≠ [] → s.discarded ≠ [] ∨ s.control.hasFailed = true)

theorem Contiguous.step {input : List Read} (h : Contiguous input s)
    (hok : NothingAfterDiscard s l) (hst : step args s l = some t) : Contiguous input t := by
  obtain ⟨lost, rfl, hlost⟩ := h
  by_cases hf : s.control.hasFailed = true
  · obtain ⟨hc, hs, hh⟩ := step_hasFailed hst hf
    exact ⟨lost, by rw [State.ahead, State.ahead, hc, hs, hh], fun _ => Or.inr (hc ▸ hf)⟩
  have hdiscarded : lost ≠ [] → s.discarded ≠ [] := fun hne => (hlost hne).resolve_right hf
  cases step_flow hst with
  | keeps hh hd ha => exact ⟨lost, by rw [hh, ha], fun hne => Or.inl (hd ▸ hdiscarded hne)⟩
  | hands hhands hh hd ha =>
      obtain rfl : lost = [] := by
        by_contra hne
        exact hdiscarded hne (hok hhands)
      exact ⟨[], by simp [hh, ha], fun hne => absurd rfl hne⟩
  | discards hh hd ha =>
      refine ⟨lost ++ s.control.held, by simp [hh, ha], fun hne => Or.inl ?_⟩
      rw [hd]
      simp only [ne_eq, List.append_eq_nil_iff, not_and_or] at hne ⊢
      exact hne.imp_left hdiscarded
  | @fails more hh hd hfail ha =>
      exact ⟨lost ++ more, by simp [hh, ha], fun _ => Or.inr hfail⟩

/-- When the first `handed.length + 1` transactions of the input are `handed` and `tx`, and `tx` comes
    right after `taken`, then `handed` is all that was taken. -/
theorem eq_of_concat_prefix {handed taken rest : List Read} {tx : Read}
    (hnodup : (taken ++ tx :: rest).Nodup) (h : handed ++ [tx] <+: taken ++ tx :: rest) :
    handed = taken := by
  obtain ⟨more, hmore⟩ := h
  rw [List.append_assoc, List.singleton_append] at hmore
  rw [← hmore] at hnodup
  have htx := (List.nodup_middle.1 hnodup)
  rw [List.nodup_cons, List.mem_append, not_or] at htx
  exact ((List.append_cons_inj_of_notMem htx.1.1 htx.1.2).1 hmore).1

/-- A run whose end has the beginning of the input handed over never hands over after a loop has
    discarded a transaction. -/
theorem run_of_prefix {input : List Read} (hnodup : input.Nodup)
    (h : (system args lines).Run System.anyStep s ls t) (hs : Accounted input s)
    (hhanded : t.handed <+: input) : (system args lines).Run NothingAfterDiscard s ls t := by
  induction h with
  | nil s => exact .nil s
  | @cons s u t l ls _ hst hrest ih =>
      refine .cons (fun hhands => ?_) hst (ih (hs.step hnodup hst) hhanded)
      obtain ⟨taken, rfl, hmem, hdisj⟩ := hs
      obtain ⟨tx, hh, ha⟩ := step_handsOver hst hhands
      rw [ha] at hnodup hhanded
      obtain rfl := eq_of_concat_prefix hnodup (hh ▸ (run_grows hrest).1.trans hhanded)
      exact List.eq_nil_iff_forall_not_mem.2 fun r hr =>
        hdisj (hmem r (List.mem_append_right _ hr)) hr

theorem run_of_discarded_eq_nil (h : (system args lines).Run System.anyStep s ls t)
    (hnil : t.discarded = []) : (system args lines).Run NothingAfterDiscard s ls t := by
  induction h with
  | nil s => exact .nil s
  | cons _ hst hrest ih =>
      refine .cons (fun _ => ?_) hst (ih hnil)
      have hgrows := (step_grows hst).2.trans (run_grows hrest).2
      exact List.prefix_nil.1 (hnil ▸ hgrows)

end Runs

namespace Sample

/-- Three workload transactions of one account. -/
def input : List Line := List.replicate 3 (.ok { submissionKeys := [⟨1⟩] })

/-- Proposer warm-up, a ramp-up and a tail of one clock unit, and a measurement of two. -/
def arguments : Args where
  warmupValidators := true
  duration := some 2

def ok : Label := .run (.ok ())

/-- The first transaction goes to the warm-up, the ramp-up sends nothing, and the second one is read in
    the measurement. -/
def measuring : List Label :=
  List.replicate 3 ok ++ [.joined none] ++ List.replicate 3 ok ++ [.joined (some (.ok ())), ok, .tick 1] ++
    List.replicate 4 ok

end Sample

end TxGen.Send
