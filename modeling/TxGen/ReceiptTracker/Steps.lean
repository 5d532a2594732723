import TxGen.ReceiptTracker.Model

set_option autoImplicit false

/-! # What a step of the receipt tracker can do

`Resolves` is what dispatching and expiring do to the interests: some are taken out, and each of
these gets one verdict. `Move` lists the changes of the tracker, its tasks and the chain. -/

namespace TxGen

namespace ReceiptTracker

variable {s t u : ReceiptTracker}

/-! ## Verdicts -/

/-- The waiters that have a verdict or still wait for one. -/
def accountedIds (s : ReceiptTracker) : List ℕ :=
  s.resolved.map Prod.fst ++ s.pending.map Interest.id

/-- From `s` to `t`, interests are resolved with verdicts that are `right` for them, and nothing else
    changes. -/
structure Resolves (right : Interest → Verdict → Prop) (s t : ReceiptTracker) : Prop where
  frame : t = { s with pending := t.pending, resolved := t.resolved }
  pending : t.pending.Sublist s.pending
  once : t.accountedIds.Perm s.accountedIds
  verdicts : ∀ x ∈ t.resolved, x ∈ s.resolved ∨ ∃ e ∈ s.pending, x.1 = e.id ∧ right e x.2

section Frame

variable {right : Interest → Verdict → Prop} (h : Resolves right s t)
include h

theorem Resolves.running : t.running = s.running := by rw [h.frame]
theorem Resolves.preparing : t.preparing = s.preparing := by rw [h.frame]
theorem Resolves.nextId : t.nextId = s.nextId := by rw [h.frame]
theorem Resolves.channels : t.channels = s.channels := by rw [h.frame]
theorem Resolves.registrations : t.registrations = s.registrations := by rw [h.frame]
theorem Resolves.scanners : t.scanners = s.scanners := by rw [h.frame]
theorem Resolves.chain : t.chain = s.chain := by rw [h.frame]
theorem Resolves.submitted : t.submitted = s.submitted := by rw [h.frame]
theorem Resolves.waiters : t.waiters = s.waiters := by rw [h.frame]
theorem Resolves.dropped : t.dropped = s.dropped := by rw [h.frame]

end Frame

theorem Resolves.refl (right : Interest → Verdict → Prop) (s : ReceiptTracker) :
    Resolves right s s :=
  ⟨rfl, .refl _, .refl _, fun _ hx => Or.inl hx⟩

theorem Resolves.trans {right : Interest → Verdict → Prop} (h : Resolves right s t)
    (h' : Resolves right t u) : Resolves right s u := by
  refine ⟨?_, h'.pending.trans h.pending, h'.once.trans h.once, fun x hx => ?_⟩
  · rw [h'.frame, h.frame]
  · rcases h'.verdicts x hx with hx | ⟨e, he, hid, hright⟩
    · exact h.verdicts x hx
    · exact Or.inr ⟨e, h.pending.subset he, hid, hright⟩

theorem Resolves.mono {right right' : Interest → Verdict → Prop}
    (himp : ∀ e v, right e v → right' e v) (h : Resolves right s t) : Resolves right' s t :=
  ⟨h.frame, h.pending, h.once, fun x hx => (h.verdicts x hx).imp_right
    fun ⟨e, he, hid, hright⟩ => ⟨e, he, hid, himp _ _ hright⟩⟩

theorem resolve_resolves (s : ReceiptTracker) (p : Interest → Bool) (verdict : Verdict) :
    Resolves (fun e v => p e = true ∧ v = verdict) s (s.resolve p verdict) := by
  refine ⟨rfl, List.filter_sublist, ?_, fun x hx => ?_⟩
  · simp only [accountedIds, resolve, List.map_append, List.map_map, List.append_assoc]
    refine List.Perm.append_left _ ?_
    rw [show Prod.fst ∘ (fun e : Interest => (e.id, verdict)) = Interest.id from rfl,
      ← List.map_append]
    exact (List.filter_append_perm p s.pending).map Interest.id
  · rcases List.mem_append.1 hx with hx | hx
    · exact Or.inl hx
    · obtain ⟨e, he, rfl⟩ := List.mem_map.1 hx
      obtain ⟨hmem, hp⟩ := List.mem_filter.1 he
      exact Or.inr ⟨e, hmem, rfl, hp, rfl⟩

theorem not_of_mem_resolve {p : Interest → Bool} {verdict : Verdict} {e : Interest}
    (he : e ∈ (s.resolve p verdict).pending) : e ∈ s.pending ∧ p e = false := by
  simpa [resolve] using he

/-- A receipt goes to the waiters of its transaction. -/
def ByReceipt (receipts : List Receipt) (e : Interest) (v : Verdict) : Prop :=
  ∃ r ∈ receipts, e.hash = r.transactionHash ∧ v = .included (some r)

theorem dispatch_resolves (s : ReceiptTracker) (receipts : List Receipt) :
    Resolves (ByReceipt receipts) s (s.dispatch receipts) ∧
      ∀ e ∈ (s.dispatch receipts).pending, ∀ r ∈ receipts, e.hash ≠ r.transactionHash := by
  induction receipts generalizing s with
  | nil => exact ⟨.refl _ s, fun _ _ _ hr => absurd hr List.not_mem_nil⟩
  | cons r receipts ih =>
      have hfirst := s.resolve_resolves (fun e => e.hash = r.transactionHash) (.included (some r))
      obtain ⟨hrest, hnone⟩ :=
        ih (s.resolve (fun e => e.hash = r.transactionHash) (.included (some r)))
      refine ⟨.trans (hfirst.mono ?_) (hrest.mono ?_), fun e he r' hr' => ?_⟩
      · rintro e v ⟨hhash, rfl⟩
        exact ⟨r, List.mem_cons_self, of_decide_eq_true hhash, rfl⟩
      · rintro e v ⟨r', hr', h⟩
        exact ⟨r', List.mem_cons_of_mem _ hr', h⟩
      · rcases List.mem_cons.1 hr' with rfl | hr'
        · have := (not_of_mem_resolve (hrest.pending.subset he)).2
          simpa using this
        · exact hnone e he r' hr'

/-- Inclusion alone resolves a waiter that asked for no more. -/
def ByHash (hashes : List TxHash) (e : Interest) (v : Verdict) : Prop :=
  e.hash ∈ hashes ∧ e.receipt = false ∧ v = .included none

theorem dispatchHashes_resolves (s : ReceiptTracker) (hashes : List TxHash) :
    Resolves (ByHash hashes) s (s.dispatchHashes hashes).1 ∧
      ((s.dispatchHashes hashes).2 = false →
        ∀ e ∈ (s.dispatchHashes hashes).1.pending, e.hash ∉ hashes) := by
  induction hashes generalizing s with
  | nil => exact ⟨.refl _ s, fun _ _ _ => List.not_mem_nil⟩
  | cons hash hashes ih =>
      have hfirst := s.resolve_resolves (fun e => e.hash = hash && !e.receipt) (.included none)
      obtain ⟨hrest, hnone⟩ :=
        ih (s.resolve (fun e => e.hash = hash && !e.receipt) (.included none))
      refine ⟨.trans (hfirst.mono ?_) (hrest.mono ?_), fun hneeds e he hin => ?_⟩
      · rintro e v ⟨hp, rfl⟩
        simp only [Bool.and_eq_true, decide_eq_true_eq, Bool.not_eq_true'] at hp
        exact ⟨hp.1 ▸ List.mem_cons_self, hp.2, rfl⟩
      · rintro e v ⟨hin, h⟩
        exact ⟨List.mem_cons_of_mem _ hin, h⟩
      · simp only [dispatchHashes, Bool.or_eq_false_iff, List.any_eq_false, Bool.and_eq_true,
          decide_eq_true_eq, not_and, Bool.not_eq_true] at hneeds
        obtain ⟨hmem, hp⟩ := not_of_mem_resolve (hrest.pending.subset he)
        rcases List.mem_cons.1 hin with rfl | hin
        · simp [hneeds.1 e hmem rfl] at hp
        · exact hnone hneeds.2 e he hin

/-- A waiter expires by the time of a block. -/
def ByExpiry (timestamp : ℕ) (e : Interest) (v : Verdict) : Prop :=
  (∃ expiry ∈ e.expiresAt, expiry ≤ timestamp) ∧ v = .expired

theorem expire_resolves (s : ReceiptTracker) (timestamp : ℕ) :
    Resolves (ByExpiry timestamp) s (s.expire timestamp) := by
  refine (s.resolve_resolves _ .expired).mono ?_
  rintro e v ⟨hp, rfl⟩
  obtain ⟨expiry, hexpiry, hle⟩ := (Option.any_eq_true _ _).1 hp
  exact ⟨⟨expiry, hexpiry, of_decide_eq_true hle⟩, rfl⟩

/-! ## Moves -/

/-- The changes of the tracker, its callers, its scanners and the chain. -/
inductive Move (expiry : TxHash → Option ℕ) (s : ReceiptTracker) : ReceiptTracker → Prop
  | prepare : Move expiry s s.prepare
  | prepared {i : ℕ} {r : ReceiptRegistration} (hr : s.registrations[i]? = some r)
      (hstage : r.stage = .waiting) (hready : s.channels[r.channel]? = some (some (.ok ()))) :
      Move expiry s (s.setRegistration i r .prepared)
  | dropRegistration {i : ℕ} {r : ReceiptRegistration} (hr : s.registrations[i]? = some r)
      (hstage : r.stage ≠ .gone) :
      Move expiry s { s.setRegistration i r .gone with preparing := s.preparing - 1 }
  | register {i : ℕ} {r : ReceiptRegistration} {hash : TxHash} {receipt : Bool}
      {expiresAt : Option ℕ} (hr : s.registrations[i]? = some r) (hstage : r.stage = .prepared)
      (hexpiry : expiresAt = none ∨ expiresAt = expiry hash) :
      Move expiry s ((s.register hash receipt expiresAt).setRegistration i r .dropping)
  | dropWaiter {id : ℕ} (hlt : id < s.nextId) : Move expiry s (s.dropWaiter id)
  /-- The scanner goes on without having done anything. -/
  | stage {i : ℕ} {sc : Scanner} {stage : ScanStage} (hsc : s.scanners[i]? = some sc)
      (hstage : stage = .top ∨ stage = .head ∨ stage = .sleep) :
      Move expiry s (s.setScanner i { sc with stage })
  | stop {i : ℕ} {sc : Scanner} (hsc : s.scanners[i]? = some sc) (hpending : s.pending = [])
      (hpreparing : s.preparing = 0) :
      Move expiry s { s with running := false, scanners := s.scanners.eraseIdx i }
  | giveUp {i : ℕ} {sc : Scanner} (hsc : s.scanners[i]? = some sc) : Move expiry s (s.giveUp i)
  | baseline {i head : ℕ} {sc : Scanner} (hsc : s.scanners[i]? = some sc)
      (hnone : sc.nextBlock = none) (hlt : head < s.chain.length) :
      Move expiry s ((s.setReady (some (.ok ()))).setScanner i
        { nextBlock := some (head + 1), stage := .sleep })
  | headRead {i head number number' : ℕ} {sc : Scanner} (hsc : s.scanners[i]? = some sc)
      (hsome : sc.nextBlock = some number) (hle : number' ≤ number) :
      Move expiry s (s.setScanner i
        { nextBlock := some number', stage := nextIteration head number' 64 })
  | dispatchHashes {i head number left : ℕ} {sc : Scanner} {block : Block}
      (hsc : s.scanners[i]? = some sc) (hstage : sc.stage = .block head number left)
      (hblock : s.chain[number]? = some block) :
      Move expiry s ((s.dispatchHashes block.hashes).1.setScanner i
        { sc with stage := if (s.dispatchHashes block.hashes).2
            then .receipts head number left s.nextId else .expire head number left s.nextId })
  | dispatch {i head number left seen : ℕ} {sc : Scanner} {block : Block}
      (hsc : s.scanners[i]? = some sc) (hstage : sc.stage = .receipts head number left seen)
      (hblock : s.chain[number]? = some block) :
      Move expiry s ((s.dispatch (block.receipts number)).setScanner i
        { sc with stage := .expire head number left seen })
  | expire {i head number left seen : ℕ} {sc : Scanner} {block : Block}
      (hsc : s.scanners[i]? = some sc) (hstage : sc.stage = .expire head number left seen)
      (hblock : s.chain[number]? = some block) :
      Move expiry s ((s.expire block.timestamp).setScanner i
        { nextBlock := some (number + 1), stage := nextIteration head (number + 1) left })
  | submit {hash : TxHash} : Move expiry s { s with submitted := insert hash s.submitted }
  | newBlock {block : Block} (h : s.admissible expiry block = true) :
      Move expiry s { s with chain := s.chain ++ [block] }

variable {expiry : TxHash → Option ℕ}

theorem gotHead_move {i head : ℕ} {sc : Scanner} (hsc : s.scanners[i]? = some sc)
    (hlt : head < s.chain.length) : s.Move expiry (s.gotHead i sc head) := by
  unfold gotHead
  split
  · rename_i hnone
    exact .baseline hsc hnone hlt
  · rename_i number hsome
    refine .headRead hsc hsome ?_
    split
    · exact Nat.le_of_lt (by assumption)
    · exact Nat.le_refl number

theorem scan_move {i : ℕ} {sc : Scanner} {reply : Reply} (hsc : s.scanners[i]? = some sc)
    (h : s.scan i sc reply = some t) : s.Move expiry t := by
  cases reply with
  | done =>
      simp only [scan] at h
      split at h
      · obtain rfl := Option.some.inj h
        unfold stopIfIdle
        split
        · rename_i hidle
          simp only [Bool.and_eq_true, List.isEmpty_iff, beq_iff_eq] at hidle
          exact .stop hsc hidle.1 hidle.2
        · exact .stage hsc (Or.inr (Or.inl rfl))
      · rename_i hstage
        split at h
        · rename_i hblock
          obtain rfl := Option.some.inj h
          exact .expire hsc hstage hblock
        · cases h
      · obtain rfl := Option.some.inj h
        exact .stage hsc (Or.inl rfl)
      · cases h
  | head head =>
      simp only [scan] at h
      split at h
      · split at h
        · rename_i hlt
          obtain rfl := Option.some.inj h
          exact gotHead_move hsc hlt
        · cases h
      · cases h
  | found =>
      simp only [scan] at h
      split at h
      · rename_i hstage
        split at h
        · rename_i hblock
          obtain rfl := Option.some.inj h
          exact .dispatchHashes hsc hstage hblock
        · cases h
      · rename_i hstage
        split at h
        · rename_i hblock
          obtain rfl := Option.some.inj h
          exact .dispatch hsc hstage hblock
        · cases h
      · cases h
  | missing =>
      simp only [scan] at h
      split at h
      · obtain rfl := Option.some.inj h
        exact .stage hsc (Or.inr (Or.inr rfl))
      · obtain rfl := Option.some.inj h
        exact .stage hsc (Or.inr (Or.inr rfl))
      · cases h
  | failed =>
      simp only [scan] at h
      split at h
      case h_4 => cases h
      all_goals
        obtain rfl := Option.some.inj h
        exact .stage hsc (Or.inr (Or.inr rfl))
  | unsupported =>
      simp only [scan] at h
      split at h
      case h_4 => cases h
      all_goals
        obtain rfl := Option.some.inj h
        exact .giveUp hsc

theorem step_move {l : Label} (h : s.step expiry l = some t) : s.Move expiry t := by
  cases l with
  | prepare =>
      obtain rfl := Option.some.inj h
      exact .prepare
  | prepared i =>
      simp only [step] at h
      split at h
      · rename_i hr
        split at h
        · rename_i hok
          simp only [Bool.and_eq_true, decide_eq_true_eq] at hok
          obtain rfl := Option.some.inj h
          exact .prepared hr hok.1 hok.2
        · cases h
      · cases h
  | dropRegistration i =>
      simp only [step] at h
      split at h
      · rename_i hr
        split at h
        · cases h
        · rename_i hstage
          obtain rfl := Option.some.inj h
          exact .dropRegistration hr hstage
      · cases h
  | register i hash receipt watchExpiry =>
      simp only [step] at h
      split at h
      · rename_i hr
        split at h
        · rename_i hstage
          obtain rfl := Option.some.inj h
          refine .register hr hstage ?_
          cases watchExpiry with
          | false => exact Or.inl rfl
          | true => exact Or.inr rfl
        · cases h
      · cases h
  | dropWaiter id =>
      simp only [step] at h
      split at h
      · rename_i hid
        simp only [Bool.and_eq_true, decide_eq_true_eq] at hid
        obtain rfl := Option.some.inj h
        exact .dropWaiter hid.1
      · cases h
  | scan i reply =>
      simp only [step] at h
      split at h
      · rename_i hsc
        exact scan_move hsc h
      · cases h
  | submit hash =>
      obtain rfl := Option.some.inj h
      exact .submit
  | newBlock block =>
      simp only [step] at h
      split at h
      · rename_i hadm
        obtain rfl := Option.some.inj h
        exact .newBlock hadm
      · cases h

end ReceiptTracker

end TxGen
