import TxGen.ReceiptTracker.Lifecycle

set_option autoImplicit false

/-! # The verdicts of the receipt tracker are sound

The chain does not reorganise, its times do not decrease, and a transaction is included before its
expiry. Then a waiter that was registered before its transaction was submitted is in no block below
the cursor as long as it is pending: so its inclusion is reported with the block that holds it, and
when a sweep expires it no later block can hold it either.

The cursor leaves a block only after everyone who was registered when its hashes were dispatched has
been told. -/

namespace TxGen

/-- The block that the scan is at. -/
def ScanStage.number? : ScanStage → Option ℕ
  | .block _ number _ | .receipts _ number _ _ | .expire _ number _ _ => some number
  | .top | .head | .sleep => none

namespace ReceiptTracker

variable {expiry : TxHash → Option ℕ} {s t : ReceiptTracker}

/-! ## The chain -/

structure ChainInv (expiry : TxHash → Option ℕ) (s : ReceiptTracker) : Prop where
  submitted : ∀ b ∈ s.chain, ∀ hash ∈ b.hashes, hash ∈ s.submitted
  /-- Each transaction is in one block. -/
  unique : ∀ {m n : ℕ} {b b' : Block} {hash : TxHash}, s.chain[m]? = some b →
    s.chain[n]? = some b' → hash ∈ b.hashes → hash ∈ b'.hashes → m = n
  monotone : ∀ {m n : ℕ} {b b' : Block}, s.chain[m]? = some b → s.chain[n]? = some b' → m ≤ n →
    b.timestamp ≤ b'.timestamp
  unexpired : ∀ b ∈ s.chain, ∀ hash ∈ b.hashes, ∀ e ∈ expiry hash, b.timestamp < e

/-- What is known of a new block. -/
structure Admissible (expiry : TxHash → Option ℕ) (s : ReceiptTracker) (block : Block) : Prop where
  later : ∀ b ∈ s.chain, b.timestamp ≤ block.timestamp
  submitted : ∀ hash ∈ block.hashes, hash ∈ s.submitted
  fresh : ∀ hash ∈ block.hashes, ∀ b ∈ s.chain, hash ∉ b.hashes
  unexpired : ∀ hash ∈ block.hashes, ∀ e ∈ expiry hash, block.timestamp < e

theorem admissible_spec {block : Block} (h : s.admissible expiry block = true) :
    s.Admissible expiry block := by
  simp only [admissible, Bool.and_eq_true, List.all_eq_true, decide_eq_true_eq, Bool.not_eq_true',
    Option.all_eq_true] at h
  obtain ⟨⟨hlater, -⟩, hall⟩ := h
  refine ⟨hlater, fun hash hin => (hall hash hin).1.1, fun hash hin b hb => ?_,
    fun hash hin => (hall hash hin).2⟩
  simpa using (hall hash hin).1.2 b hb

/-- A block of the longer chain is an old one or the new one. -/
theorem getElem?_append_block {chain : List Block} {block b : Block} {n : ℕ}
    (h : (chain ++ [block])[n]? = some b) :
    chain[n]? = some b ∨ n = chain.length ∧ b = block := by
  rcases Nat.lt_trichotomy n chain.length with hlt | rfl | hgt
  · exact Or.inl ((List.getElem?_append_left hlt).symm.trans h)
  · simp only [List.getElem?_concat_length, Option.some.injEq] at h
    exact Or.inr ⟨rfl, h.symm⟩
  · rw [List.getElem?_eq_none (by simp; omega)] at h
    cases h

theorem ChainInv.newBlock (h : s.ChainInv expiry) {block : Block}
    (ha : s.Admissible expiry block) :
    ChainInv expiry { s with chain := s.chain ++ [block] } := by
  refine ⟨fun b hb hash hin => ?_, fun {m n b b' hash} hm hn hin hin' => ?_,
    fun {m n b b'} hm hn hle => ?_, fun b hb hash hin => ?_⟩
  · rcases List.mem_append.1 hb with hb | hb
    · exact h.submitted b hb hash hin
    · obtain rfl := List.mem_singleton.1 hb
      exact ha.submitted hash hin
  · rcases getElem?_append_block hm with hm' | ⟨rfl, rfl⟩ <;>
      rcases getElem?_append_block hn with hn' | ⟨rfl, rfl⟩
    · exact h.unique hm' hn' hin hin'
    · exact absurd hin (ha.fresh hash hin' b (List.mem_of_getElem? hm'))
    · exact absurd hin' (ha.fresh hash hin b' (List.mem_of_getElem? hn'))
    · rfl
  · rcases getElem?_append_block hm with hm' | ⟨rfl, rfl⟩ <;>
      rcases getElem?_append_block hn with hn' | ⟨rfl, rfl⟩
    · exact h.monotone hm' hn' hle
    · exact ha.later b (List.mem_of_getElem? hm')
    · have := (List.getElem?_eq_some_iff.1 hn').1
      omega
    · exact le_rfl
  · rcases List.mem_append.1 hb with hb | hb
    · exact h.unexpired b hb hash hin
    · obtain rfl := List.mem_singleton.1 hb
      exact ha.unexpired hash hin

/-! ## Verdicts -/

/-- The verdict is right for the waiter, and stays so however the chain goes on. -/
def RightVerdict (expiry : TxHash → Option ℕ) (s : ReceiptTracker) (e : Interest) : Verdict → Prop
  | .included receipt => ∃ n b, s.chain[n]? = some b ∧ e.hash ∈ b.hashes ∧
      (receipt = some ⟨e.hash, n⟩ ∨ receipt = none ∧ e.receipt = false)
  | .expired => e.early = true → ∃ E ∈ expiry e.hash, (∃ b ∈ s.chain, E ≤ b.timestamp) ∧
      ∀ b ∈ s.chain, e.hash ∉ b.hashes
  | .failed _ => True

theorem RightVerdict.newBlock {e : Interest} {v : Verdict} {block : Block}
    (h : s.RightVerdict expiry e v) (ha : s.Admissible expiry block) :
    RightVerdict expiry { s with chain := s.chain ++ [block] } e v := by
  cases v with
  | included receipt =>
      obtain ⟨n, b, hb, hin, hr⟩ := h
      exact ⟨n, b, (List.getElem?_append_left (List.getElem?_eq_some_iff.1 hb).1).trans hb, hin, hr⟩
  | expired =>
      intro hearly
      obtain ⟨E, hE, ⟨b, hb, hle⟩, hnone⟩ := h hearly
      refine ⟨E, hE, ⟨b, List.mem_append_left _ hb, hle⟩, fun b' hb' hin => ?_⟩
      rcases List.mem_append.1 hb' with hb' | hb'
      · exact hnone b' hb' hin
      · -- the new block comes too late for it
        obtain rfl := List.mem_singleton.1 hb'
        have hlt := ha.unexpired _ hin E hE
        have := ha.later b hb
        omega
  | failed _ => trivial

structure WaiterInv (expiry : TxHash → Option ℕ) (s : ReceiptTracker) : Prop where
  once : s.accountedIds.Nodup
  length : s.waiters.length = s.nextId
  pending : ∀ e ∈ s.pending, s.waiters[e.id]? = some e
  expiresAt : ∀ e ∈ s.waiters, ∀ E ∈ e.expiresAt, E ∈ expiry e.hash
  verdicts : ∀ x ∈ s.resolved, ∃ e, s.waiters[x.1]? = some e ∧ s.RightVerdict expiry e x.2

theorem WaiterInv.id_lt (h : s.WaiterInv expiry) {id : ℕ} (hid : id ∈ s.accountedIds) :
    id < s.nextId := by
  rw [← h.length]
  rcases List.mem_append.1 hid with hid | hid
  · obtain ⟨x, hx, rfl⟩ := List.mem_map.1 hid
    obtain ⟨e, he, -⟩ := h.verdicts x hx
    exact (List.getElem?_eq_some_iff.1 he).1
  · obtain ⟨e, he, rfl⟩ := List.mem_map.1 hid
    exact (List.getElem?_eq_some_iff.1 (h.pending e he)).1

/-- Only the scanners, the registrations, the channels, the submissions or the counters change. -/
theorem WaiterInv.of_same (h : s.WaiterInv expiry) (hnext : t.nextId = s.nextId)
    (hpending : t.pending = s.pending) (hresolved : t.resolved = s.resolved)
    (hwaiters : t.waiters = s.waiters) (hchain : t.chain = s.chain) : t.WaiterInv expiry := by
  have hright : ∀ e v, t.RightVerdict expiry e v ↔ s.RightVerdict expiry e v := by
    intro e v
    cases v <;> simp only [RightVerdict, hchain]
  refine ⟨?_, ?_, ?_, ?_, ?_⟩
  · rw [accountedIds, hresolved, hpending]; exact h.once
  · rw [hwaiters, hnext]; exact h.length
  · rw [hwaiters, hpending]; exact h.pending
  · rw [hwaiters]; exact h.expiresAt
  · simp only [hwaiters, hresolved, hright]; exact h.verdicts

theorem WaiterInv.register (h : s.WaiterInv expiry) {hash : TxHash} {receipt : Bool}
    {expiresAt : Option ℕ} (hexpiry : expiresAt = none ∨ expiresAt = expiry hash) :
    (s.register hash receipt expiresAt).WaiterInv expiry := by
  unfold ReceiptTracker.register
  split
  · exact h
  · have hold : ∀ {id : ℕ} {e : Interest}, s.waiters[id]? = some e → ∀ l : List Interest,
        (s.waiters ++ l)[id]? = some e := fun hid l =>
      (List.getElem?_append_left (List.getElem?_eq_some_iff.1 hid).1).trans hid
    refine ⟨?_, ?_, fun e he => ?_, fun e he => ?_, fun x hx => ?_⟩
    · have hfresh : s.nextId ∉ s.accountedIds := fun hin => (h.id_lt hin).false
      simp only [accountedIds, List.map_append, ← List.append_assoc]
      exact List.nodup_append.2 ⟨h.once, List.nodup_singleton _, by
        rintro a ha b hb rfl
        simp only [List.map_cons, List.map_nil, List.mem_singleton] at hb
        exact hfresh (hb ▸ ha)⟩
    · simp [h.length]
    · rcases List.mem_append.1 he with he | he
      · exact hold (h.pending e he) _
      · obtain rfl := List.mem_singleton.1 he
        simp [← h.length]
    · rcases List.mem_append.1 he with he | he
      · exact h.expiresAt e he
      · obtain rfl := List.mem_singleton.1 he
        intro E hE
        rcases hexpiry with rfl | rfl
        · cases hE
        · exact hE
    · obtain ⟨e, he, hright⟩ := h.verdicts x hx
      exact ⟨e, hold he _, hright⟩

theorem WaiterInv.dropWaiter (h : s.WaiterInv expiry) (id : ℕ) :
    (s.dropWaiter id).WaiterInv expiry := by
  refine ⟨h.once.sublist ?_, h.length, fun e he => h.pending e (List.mem_filter.1 he).1,
    h.expiresAt, h.verdicts⟩
  exact (List.filter_sublist.map _).append_left _

/-- Verdicts are sent that are right. -/
theorem WaiterInv.resolves (h : s.WaiterInv expiry) {right : Interest → Verdict → Prop}
    (hr : Resolves right s t)
    (hright : ∀ e ∈ s.pending, ∀ v, right e v → s.RightVerdict expiry e v) :
    t.WaiterInv expiry := by
  have hsame : ∀ e v, t.RightVerdict expiry e v ↔ s.RightVerdict expiry e v := by
    intro e v
    cases v <;> simp only [RightVerdict, hr.chain]
  refine ⟨hr.once.nodup_iff.2 h.once, ?_, fun e he => ?_, ?_, fun x hx => ?_⟩
  · rw [hr.waiters, hr.nextId]; exact h.length
  · rw [hr.waiters]; exact h.pending e (hr.pending.subset he)
  · rw [hr.waiters]; exact h.expiresAt
  · simp only [hr.waiters, hsame]
    rcases hr.verdicts x hx with hx | ⟨e, he, hid, hv⟩
    · exact h.verdicts x hx
    · exact ⟨e, hid ▸ h.pending e he, hright e he _ hv⟩

/-! ## The cursor -/

/-- The early waiters that are pending are in no block below the cursor. -/
def Clear (s : ReceiptTracker) (cursor : ℕ) : Prop :=
  ∀ e ∈ s.pending, e.early = true → ∀ n < cursor, ∀ b, s.chain[n]? = some b → e.hash ∉ b.hashes

/-- Everyone who was registered when the hashes of the block were dispatched has been told, and so has
    every early waiter. -/
def Dispatched (s : ReceiptTracker) (number seen : ℕ) : Prop :=
  seen ≤ s.nextId ∧ ∃ b, s.chain[number]? = some b ∧
    ∀ e ∈ s.pending, e.hash ∈ b.hashes → seen ≤ e.id ∧ e.early = false

structure ScannerInv (s : ReceiptTracker) (sc : Scanner) : Prop where
  cursor_le : ∀ {cursor : ℕ}, sc.nextBlock = some cursor → cursor ≤ s.chain.length
  clear : ∀ {cursor : ℕ}, sc.nextBlock = some cursor → s.Clear cursor
  at_cursor : ∀ {number : ℕ}, sc.stage.number? = some number → sc.nextBlock = some number
  seen_le : ∀ {head number left seen : ℕ}, sc.stage = .receipts head number left seen →
    seen ≤ s.nextId
  dispatched : ∀ {head number left seen : ℕ}, sc.stage = .expire head number left seen →
    s.Dispatched number seen

/-- A scanner that is at no block. -/
theorem ScannerInv.of_idle {sc : Scanner} (hle : ∀ {c : ℕ}, sc.nextBlock = some c → c ≤ s.chain.length)
    (hclear : ∀ {c : ℕ}, sc.nextBlock = some c → s.Clear c) (hidle : sc.stage.number? = none) :
    s.ScannerInv sc := by
  refine ⟨hle, hclear, fun hnumber => ?_, fun hstage => ?_, fun hstage => ?_⟩
  · rw [hidle] at hnumber
    cases hnumber
  · rw [hstage] at hidle
    cases hidle
  · rw [hstage] at hidle
    cases hidle

theorem ScannerInv.of_le {sc : Scanner} (h : s.ScannerInv sc)
    (hpending : ∀ e ∈ t.pending, e ∈ s.pending) (hnext : s.nextId ≤ t.nextId)
    (hchain : t.chain = s.chain) : t.ScannerInv sc := by
  refine ⟨fun hc => hchain ▸ h.cursor_le hc, fun hc e he hearly => ?_, h.at_cursor,
    fun hstage => (h.seen_le hstage).trans hnext, fun hstage => ?_⟩
  · rw [hchain]
    exact h.clear hc e (hpending e he) hearly
  · obtain ⟨hle, b, hb, hall⟩ := h.dispatched hstage
    exact ⟨hle.trans hnext, b, hchain ▸ hb, fun e he => hall e (hpending e he)⟩

/-- A waiter that comes while a block is scanned is early only if the block does not hold its
    transaction. -/
theorem ScannerInv.register {sc : Scanner} (h : s.ScannerInv sc) (hc : s.ChainInv expiry)
    (hash : TxHash) (receipt : Bool) (expiresAt : Option ℕ) :
    (s.register hash receipt expiresAt).ScannerInv sc := by
  unfold ReceiptTracker.register
  split
  · exact h
  · have hfresh : (!decide (hash ∈ s.submitted)) = true → ∀ b ∈ s.chain, hash ∉ b.hashes := by
      intro hnot b hb hin
      simp [hc.submitted b hb hash hin] at hnot
    refine ⟨h.cursor_le, fun hcur e he hearly n hn b hb => ?_, h.at_cursor,
      fun hstage => Nat.le_succ_of_le (h.seen_le hstage), fun hstage => ?_⟩
    · rcases List.mem_append.1 he with he | he
      · exact h.clear hcur e he hearly n hn b hb
      · obtain rfl := List.mem_singleton.1 he
        exact hfresh hearly b (List.mem_of_getElem? hb)
    · obtain ⟨hle, b, hb, hall⟩ := h.dispatched hstage
      refine ⟨Nat.le_succ_of_le hle, b, hb, fun e he hin => ?_⟩
      rcases List.mem_append.1 he with he | he
      · exact hall e he hin
      · obtain rfl := List.mem_singleton.1 he
        refine ⟨hle, Bool.eq_false_iff.2 fun hearly => ?_⟩
        exact hfresh hearly b (List.mem_of_getElem? hb) hin

theorem ScannerInv.newBlock {sc : Scanner} (h : s.ScannerInv sc) (block : Block) :
    ScannerInv { s with chain := s.chain ++ [block] } sc := by
  refine ⟨fun hc => ?_, fun hc e he hearly n hn b hb => ?_, h.at_cursor, h.seen_le,
    fun hstage => ?_⟩
  · exact (h.cursor_le hc).trans (by simp)
  · rcases getElem?_append_block hb with hb | ⟨rfl, -⟩
    · exact h.clear hc e he hearly n hn b hb
    · exact absurd (hn.trans_le (h.cursor_le hc)) (lt_irrefl _)
  · obtain ⟨hle, b, hb, hall⟩ := h.dispatched hstage
    exact ⟨hle, b, (List.getElem?_append_left (List.getElem?_eq_some_iff.1 hb).1).trans hb, hall⟩

/-! ## Every step -/

structure VerdictInv (expiry : TxHash → Option ℕ) (s : ReceiptTracker) : Prop where
  lifecycle : s.LifecycleInv
  chain : s.ChainInv expiry
  waiters : s.WaiterInv expiry
  scanner : ∀ sc ∈ s.scanners, s.ScannerInv sc

theorem ChainInv.of_same (h : s.ChainInv expiry) (hchain : t.chain = s.chain)
    (hsubmitted : s.submitted ⊆ t.submitted) : t.ChainInv expiry := by
  refine ⟨?_, ?_, ?_, ?_⟩
  · rw [hchain]
    exact fun b hb hash hin => hsubmitted (h.submitted b hb hash hin)
  · rw [hchain]; exact h.unique
  · rw [hchain]; exact h.monotone
  · rw [hchain]; exact h.unexpired

/-- After a step of scanner `i`, it is as the step left it and the others are as they were. -/
theorem VerdictInv.scanners_set (h : s.VerdictInv expiry) {i : ℕ} {sc' : Scanner}
    (hpending : ∀ e ∈ t.pending, e ∈ s.pending) (hnext : s.nextId ≤ t.nextId)
    (hchain : t.chain = s.chain) (hscanners : t.scanners = s.scanners.set i sc')
    (hsc' : t.ScannerInv sc') : ∀ sc ∈ t.scanners, t.ScannerInv sc := by
  intro sc hsc
  rw [hscanners] at hsc
  rcases List.mem_or_eq_of_mem_set hsc with hsc | rfl
  · exact (h.scanner sc hsc).of_le hpending hnext hchain
  · exact hsc'

theorem number?_nextIteration {head number left n : ℕ}
    (h : (nextIteration head number left).number? = some n) : n = number := by
  unfold nextIteration at h
  split at h
  · cases h
  · split at h
    · cases h
    · exact (Option.some.inj h).symm

/-- The scan loop goes on at the cursor. -/
theorem ScannerInv.of_nextIteration {head number left : ℕ} (hle : number ≤ s.chain.length)
    (hclear : s.Clear number) :
    s.ScannerInv { nextBlock := some number, stage := nextIteration head number left } := by
  have hstage : ∀ {stage : ScanStage}, nextIteration head number left = stage →
      stage = .sleep ∨ ∃ n, stage = .block head number n := by
    rintro stage rfl
    unfold nextIteration
    split
    · exact Or.inl rfl
    · split
      · exact Or.inl rfl
      · exact Or.inr ⟨_, rfl⟩
  refine ⟨fun hc => ?_, fun hc => ?_, fun hn => ?_, fun hst => ?_, fun hst => ?_⟩
  · exact Option.some.inj hc ▸ hle
  · exact Option.some.inj hc ▸ hclear
  · rw [number?_nextIteration hn]
  · rcases hstage hst with h | ⟨_, h⟩ <;> cases h
  · rcases hstage hst with h | ⟨_, h⟩ <;> cases h

/-- What a sweep at the block `number` expires is in no block. -/
theorem VerdictInv.right_of_byExpiry (h : s.VerdictInv expiry) {number seen : ℕ} {block : Block}
    (hblock : s.chain[number]? = some block) (hclear : s.Clear number)
    (hdisp : s.Dispatched number seen) {e : Interest} (he : e ∈ s.pending) {v : Verdict}
    (hv : ByExpiry block.timestamp e v) : s.RightVerdict expiry e v := by
  obtain ⟨⟨E, hE, hle⟩, rfl⟩ := hv
  intro hearly
  have hE' : E ∈ expiry e.hash :=
    h.waiters.expiresAt e (List.mem_of_getElem? (h.waiters.pending e he)) E hE
  refine ⟨E, hE', ⟨block, List.mem_of_getElem? hblock, hle⟩, fun b hb hin => ?_⟩
  obtain ⟨m, hm⟩ := List.mem_iff_getElem?.1 hb
  rcases Nat.lt_trichotomy m number with hlt | rfl | hgt
  · exact hclear e he hearly m hlt b hm hin
  · obtain ⟨-, b', hb', hall⟩ := hdisp
    obtain rfl := Option.some.inj (hm.symm.trans hb')
    simp [(hall e he hin).2] at hearly
  · have hmono := h.chain.monotone hblock hm hgt.le
    have hlt := h.chain.unexpired b hb _ hin E hE'
    omega

theorem right_of_byHash {number : ℕ} {block : Block} (hblock : s.chain[number]? = some block)
    {e : Interest} {v : Verdict} (hv : ByHash block.hashes e v) : s.RightVerdict expiry e v := by
  obtain ⟨hin, hreceipt, rfl⟩ := hv
  exact ⟨number, block, hblock, hin, Or.inr ⟨rfl, hreceipt⟩⟩

theorem right_of_byReceipt {number : ℕ} {block : Block} (hblock : s.chain[number]? = some block)
    {e : Interest} {v : Verdict} (hv : ByReceipt (block.receipts number) e v) :
    s.RightVerdict expiry e v := by
  obtain ⟨r, hr, hhash, rfl⟩ := hv
  obtain ⟨hash, hin, rfl⟩ := List.mem_map.1 hr
  exact ⟨number, block, hblock, hhash ▸ hin, Or.inl (by rw [hhash])⟩

theorem verdictInv_init : VerdictInv expiry {} := by
  refine ⟨lifecycleInv_init, ⟨?_, ?_, ?_, ?_⟩, ⟨?_, ?_, ?_, ?_, ?_⟩, ?_⟩ <;> simp [accountedIds]

/-- A step that leaves waiters, verdicts and chain alone. -/
theorem VerdictInv.of_same (h : s.VerdictInv expiry) (hlife : t.LifecycleInv)
    (hnext : t.nextId = s.nextId) (hpending : t.pending = s.pending)
    (hresolved : t.resolved = s.resolved) (hwaiters : t.waiters = s.waiters)
    (hchain : t.chain = s.chain) (hsubmitted : s.submitted ⊆ t.submitted)
    (hscanners : ∀ sc ∈ t.scanners, sc ∈ s.scanners ∨ t.ScannerInv sc) : t.VerdictInv expiry := by
  refine ⟨hlife, h.chain.of_same hchain hsubmitted,
    h.waiters.of_same hnext hpending hresolved hwaiters hchain, fun sc hsc => ?_⟩
  rcases hscanners sc hsc with hsc | hsc
  · exact (h.scanner sc hsc).of_le (fun e he => hpending ▸ he) hnext.ge hchain
  · exact hsc

/-- The scanner resolves interests and goes on. -/
theorem VerdictInv.of_resolves (h : s.VerdictInv expiry) {right : Interest → Verdict → Prop}
    {u : ReceiptTracker} {i : ℕ} {sc' : Scanner} (hr : Resolves right s u)
    (hright : ∀ e ∈ s.pending, ∀ v, right e v → s.RightVerdict expiry e v)
    (hlife : (u.setScanner i sc').LifecycleInv) (hsc' : u.ScannerInv sc') :
    (u.setScanner i sc').VerdictInv expiry := by
  have hscanners : (u.setScanner i sc').scanners = s.scanners.set i sc' := by
    show u.scanners.set i sc' = _
    rw [hr.scanners]
  refine ⟨hlife, h.chain.of_same hr.chain hr.submitted.symm.subset,
    (h.waiters.resolves hr hright).of_same rfl rfl rfl rfl rfl, ?_⟩
  exact h.scanners_set (fun e he => hr.pending.subset he) hr.nextId.ge hr.chain hscanners
    (hsc'.of_le (fun _ he => he) le_rfl rfl)

theorem VerdictInv.move (h : s.VerdictInv expiry) (hm : s.Move expiry t) : t.VerdictInv expiry := by
  have hlife := h.lifecycle.move hm
  cases hm with
  | prepare =>
      unfold ReceiptTracker.prepare at hlife ⊢
      by_cases hrun : s.running = true
      · rw [if_pos hrun] at hlife ⊢
        exact h.of_same hlife rfl rfl rfl rfl rfl (Finset.Subset.refl _) fun sc hsc => Or.inl hsc
      · rw [if_neg hrun] at hlife ⊢
        refine h.of_same hlife rfl rfl rfl rfl rfl (Finset.Subset.refl _) fun sc hsc => ?_
        rcases List.mem_append.1 hsc with hsc | hsc
        · exact Or.inl hsc
        · obtain rfl := List.mem_singleton.1 hsc
          exact Or.inr (.of_idle nofun nofun rfl)
  | prepared _ _ _ =>
      exact h.of_same hlife rfl rfl rfl rfl rfl (Finset.Subset.refl _) fun sc hsc => Or.inl hsc
  | dropRegistration _ _ =>
      exact h.of_same hlife rfl rfl rfl rfl rfl (Finset.Subset.refl _) fun sc hsc => Or.inl hsc
  | @register i r hash receipt expiresAt hr _ hexpiry =>
      have hchain : (s.register hash receipt expiresAt).chain = s.chain ∧
          (s.register hash receipt expiresAt).submitted = s.submitted ∧
          (s.register hash receipt expiresAt).scanners = s.scanners := by
        unfold ReceiptTracker.register
        split <;> exact ⟨rfl, rfl, rfl⟩
      refine ⟨hlife, h.chain.of_same hchain.1 hchain.2.1.symm.subset,
        (h.waiters.register hexpiry).of_same rfl rfl rfl rfl rfl, fun sc hsc => ?_⟩
      have hsc' : sc ∈ (s.register hash receipt expiresAt).scanners := hsc
      rw [hchain.2.2] at hsc'
      exact ((h.scanner sc hsc').register h.chain hash receipt expiresAt).of_le
        (fun _ he => he) le_rfl rfl
  | dropWaiter _ =>
      refine ⟨hlife, h.chain.of_same rfl (Finset.Subset.refl _), h.waiters.dropWaiter _,
        fun sc hsc => ?_⟩
      exact (h.scanner sc hsc).of_le (fun e he => (List.mem_filter.1 he).1) le_rfl rfl
  | @stage i sc stage hsc hstage =>
      refine h.of_same hlife rfl rfl rfl rfl rfl (Finset.Subset.refl _) fun sc' hsc' => ?_
      rcases List.mem_or_eq_of_mem_set hsc' with hsc' | rfl
      · exact Or.inl hsc'
      · have hold := h.scanner sc (List.mem_of_getElem? hsc)
        refine Or.inr (.of_idle hold.cursor_le hold.clear ?_)
        rcases hstage with rfl | rfl | rfl <;> rfl
  | stop hsc _ _ =>
      refine h.of_same hlife rfl rfl rfl rfl rfl (Finset.Subset.refl _) fun sc' hsc' => ?_
      exact Or.inl ((List.eraseIdx_sublist _ _).subset hsc')
  | @giveUp i sc hsc =>
      have hr := (s.setReady (some (.error unsupportedMessage))).resolve_resolves (fun _ => true)
        (.failed unsupportedMessage)
      have hw : (s.setReady (some (.error unsupportedMessage))).WaiterInv expiry :=
        h.waiters.of_same rfl rfl rfl rfl rfl
      have hres := hw.resolves hr fun e _ v hv => by
        obtain ⟨-, rfl⟩ := hv
        trivial
      refine ⟨hlife, h.chain.of_same rfl (Finset.Subset.refl _),
        hres.of_same rfl rfl rfl rfl rfl, fun sc' hsc' => ?_⟩
      have hnil : (s.giveUp i).scanners = [] := h.lifecycle.erase_scanner hsc
      rw [hnil] at hsc'
      cases hsc'
  | @baseline i head sc hsc hnone hlt =>
      refine h.of_same hlife rfl rfl rfl rfl rfl (Finset.Subset.refl _) fun sc' hsc' => ?_
      rcases List.mem_or_eq_of_mem_set hsc' with hsc' | rfl
      · exact Or.inl hsc'
      · -- nobody is registered yet
        have hnil := (h.lifecycle.unready sc (List.mem_of_getElem? hsc) hnone).2
        refine Or.inr (.of_idle (fun hc => ?_) (fun _ e he => ?_) rfl)
        · exact Option.some.inj hc ▸ hlt
        · have he' : e ∈ s.pending := he
          rw [hnil] at he'
          cases he'
  | @headRead i head number number' sc hsc hsome hle =>
      refine h.of_same hlife rfl rfl rfl rfl rfl (Finset.Subset.refl _) fun sc' hsc' => ?_
      rcases List.mem_or_eq_of_mem_set hsc' with hsc' | rfl
      · exact Or.inl hsc'
      · have hold := h.scanner sc (List.mem_of_getElem? hsc)
        refine Or.inr (.of_nextIteration (hle.trans (hold.cursor_le hsome)) ?_)
        exact fun e he hearly n hn => hold.clear hsome e he hearly n (hn.trans_le hle)
  | @dispatchHashes i head number left sc block hsc hstage hblock =>
      obtain ⟨hr, hnone⟩ := s.dispatchHashes_resolves block.hashes
      have hold := h.scanner sc (List.mem_of_getElem? hsc)
      have hcur : sc.nextBlock = some number := hold.at_cursor (by rw [hstage]; rfl)
      have hold' := hold.of_le (fun e he => hr.pending.subset he) hr.nextId.ge hr.chain
      refine h.of_resolves hr (fun e _ v hv => right_of_byHash hblock hv) hlife ?_
      cases hneeds : (s.dispatchHashes block.hashes).2 with
      | true =>
          refine ⟨hold'.cursor_le, hold'.clear, fun hn => ?_, fun hst => ?_, nofun⟩
          · exact hcur.trans hn
          · obtain ⟨-, -, -, rfl⟩ := ScanStage.receipts.inj hst
            exact hr.nextId.ge
      | false =>
          refine ⟨hold'.cursor_le, hold'.clear, fun hn => ?_, nofun, fun hst => ?_⟩
          · exact hcur.trans hn
          · obtain ⟨-, rfl, -, rfl⟩ := ScanStage.expire.inj hst
            exact ⟨hr.nextId.ge, block, hr.chain ▸ hblock, fun e he hin =>
              absurd hin (hnone hneeds e he)⟩
  | @dispatch i head number left seen sc block hsc hstage hblock =>
      obtain ⟨hr, hnone⟩ := s.dispatch_resolves (block.receipts number)
      have hold := h.scanner sc (List.mem_of_getElem? hsc)
      have hcur : sc.nextBlock = some number := hold.at_cursor (by rw [hstage]; rfl)
      have hold' := hold.of_le (fun e he => hr.pending.subset he) hr.nextId.ge hr.chain
      refine h.of_resolves hr (fun e _ v hv => right_of_byReceipt hblock hv) hlife ?_
      refine ⟨hold'.cursor_le, hold'.clear, fun hn => hcur.trans hn, nofun, fun hst => ?_⟩
      obtain ⟨-, rfl, -, rfl⟩ := ScanStage.expire.inj hst
      refine ⟨hr.nextId ▸ hold.seen_le hstage, block, hr.chain ▸ hblock, fun e he hin => ?_⟩
      exact absurd rfl (hnone e he ⟨e.hash, number⟩ (List.mem_map_of_mem hin))
  | @expire i head number left seen sc block hsc hstage hblock =>
      have hr := s.expire_resolves block.timestamp
      have hold := h.scanner sc (List.mem_of_getElem? hsc)
      have hcur : sc.nextBlock = some number := hold.at_cursor (by rw [hstage]; rfl)
      have hclear := hold.clear hcur
      have hdisp := hold.dispatched hstage
      refine h.of_resolves hr (fun e he v hv => h.right_of_byExpiry hblock hclear hdisp he hv)
        hlife (.of_nextIteration ?_ fun e he hearly n hn b hb hin => ?_)
      · rw [hr.chain]
        exact (List.getElem?_eq_some_iff.1 hblock).1
      · rw [hr.chain] at hb
        have he' := hr.pending.subset he
        rcases Nat.lt_succ_iff_lt_or_eq.1 hn with hn | rfl
        · exact hclear e he' hearly n hn b hb hin
        · obtain ⟨-, b', hb', hall⟩ := hdisp
          obtain rfl := Option.some.inj (hb.symm.trans hb')
          simp [(hall e he' hin).2] at hearly
  | submit =>
      exact h.of_same hlife rfl rfl rfl rfl rfl (Finset.subset_insert _ _) fun sc hsc => Or.inl hsc
  | @newBlock block hadm =>
      have ha := admissible_spec hadm
      refine ⟨hlife, h.chain.newBlock ha, ⟨h.waiters.once, h.waiters.length, h.waiters.pending,
        h.waiters.expiresAt, fun x hx => ?_⟩, fun sc hsc => (h.scanner sc hsc).newBlock block⟩
      obtain ⟨e, he, hright⟩ := h.waiters.verdicts x hx
      exact ⟨e, he, hright.newBlock ha⟩

theorem verdictInv_reachable (h : (receiptTrackerSystem expiry).Reachable s) :
    s.VerdictInv expiry :=
  h.invariant verdictInv_init fun _ _ _ hs hst => hs.move (step_move hst)

/-! ## The cursor moves -/

/-- The cursor of a scanner goes back, or it leaves a block that has been dispatched: every waiter
    that is pending and in the block was registered after its hashes were dispatched. -/
def CursorMoves (s t : ReceiptTracker) : Prop :=
  ∀ (i c c' : ℕ) (sc sc' : Scanner), s.scanners[i]? = some sc → t.scanners[i]? = some sc' →
    sc.nextBlock = some c → sc'.nextBlock = some c' →
      c' ≤ c ∨ c' = c + 1 ∧ ∃ head left seen, sc.stage = .expire head c left seen ∧
        s.Dispatched c seen

theorem CursorMoves.of_same (h : t.scanners = s.scanners) : s.CursorMoves t := by
  intro i c c' sc sc' hsc hsc' hc hc'
  rw [h, hsc] at hsc'
  obtain rfl := Option.some.inj hsc'
  exact Or.inl (Option.some.inj (hc'.symm.trans hc)).le

/-- Scanner `i` takes a step. -/
theorem CursorMoves.of_set {i : ℕ} {sc sc' : Scanner} (hsc : s.scanners[i]? = some sc)
    (h : t.scanners = s.scanners.set i sc')
    (hmove : ∀ {c c' : ℕ}, sc.nextBlock = some c → sc'.nextBlock = some c' →
      c' ≤ c ∨ c' = c + 1 ∧ ∃ head left seen, sc.stage = .expire head c left seen ∧
        s.Dispatched c seen) : s.CursorMoves t := by
  intro j c c' sc₁ sc₂ hsc₁ hsc₂ hc hc'
  rw [h, List.getElem?_set] at hsc₂
  split at hsc₂
  · rename_i hij
    subst hij
    rw [hsc] at hsc₁
    obtain rfl := Option.some.inj hsc₁
    split at hsc₂
    · obtain rfl := Option.some.inj hsc₂
      exact hmove hc hc'
    · cases hsc₂
  · rw [hsc₁] at hsc₂
    obtain rfl := Option.some.inj hsc₂
    exact Or.inl (Option.some.inj (hc'.symm.trans hc)).le

theorem CursorMoves.of_nil (h : t.scanners = []) : s.CursorMoves t := by
  intro i c c' sc sc' _ hsc'
  rw [h] at hsc'
  cases hsc'

theorem VerdictInv.cursorMoves (h : s.VerdictInv expiry) (hm : s.Move expiry t) :
    s.CursorMoves t := by
  cases hm with
  | prepare =>
      unfold ReceiptTracker.prepare
      by_cases hrun : s.running = true
      · rw [if_pos hrun]
        exact .of_same rfl
      · have hnil : s.scanners = [] := by
          by_contra hne
          exact hrun (h.lifecycle.running_iff.2 hne)
        intro i c c' sc sc' hsc
        rw [hnil] at hsc
        cases hsc
  | prepared _ _ _ => exact .of_same rfl
  | dropRegistration _ _ => exact .of_same rfl
  | register _ _ _ =>
      refine .of_same ?_
      unfold ReceiptTracker.register
      split <;> rfl
  | dropWaiter _ => exact .of_same rfl
  | stage hsc _ => exact .of_set hsc rfl fun hc hc' => Or.inl (Option.some.inj (hc'.symm.trans hc)).le
  | stop hsc _ _ => exact .of_nil (h.lifecycle.erase_scanner hsc)
  | giveUp hsc => exact .of_nil (h.lifecycle.erase_scanner hsc)
  | baseline hsc hnone _ =>
      refine .of_set hsc rfl fun hc _ => ?_
      rw [hnone] at hc
      cases hc
  | headRead hsc hsome hle =>
      refine .of_set hsc rfl fun hc hc' => Or.inl ?_
      obtain rfl := Option.some.inj (hsome.symm.trans hc)
      exact Option.some.inj hc' ▸ hle
  | @dispatchHashes i head number left sc block hsc _ _ =>
      have hsame := (s.dispatchHashes_resolves block.hashes).1.scanners
      refine .of_set hsc (congrArg (List.set · i _) hsame) fun hc hc' => Or.inl ?_
      exact (Option.some.inj (hc'.symm.trans hc)).le
  | @dispatch i head number left seen sc block hsc _ _ =>
      have hsame := (s.dispatch_resolves (block.receipts number)).1.scanners
      refine .of_set hsc (congrArg (List.set · i _) hsame) fun hc hc' => Or.inl ?_
      exact (Option.some.inj (hc'.symm.trans hc)).le
  | @expire i head number left seen sc block hsc hstage _ =>
      have hold := h.scanner sc (List.mem_of_getElem? hsc)
      have hcur : sc.nextBlock = some number := hold.at_cursor (by rw [hstage]; rfl)
      refine .of_set hsc rfl fun hc hc' => Or.inr ?_
      obtain rfl := Option.some.inj (hcur.symm.trans hc)
      exact ⟨(Option.some.inj hc').symm, head, left, seen, hstage, hold.dispatched hstage⟩
  | submit => exact .of_same rfl
  | newBlock _ => exact .of_same rfl

/-- What a caller may rely on, and what the scanner promises about its cursor. -/
structure Sound (expiry : TxHash → Option ℕ) (s : ReceiptTracker) : Prop where
  once : (s.resolved.map Prod.fst).Nodup
  /-- The receipt is the one of the only block that holds the transaction; there is none only if none
      was asked for. -/
  included : ∀ id receipt, (id, .included receipt) ∈ s.resolved →
    ∃ e n b, s.waiters[id]? = some e ∧ s.chain[n]? = some b ∧ e.hash ∈ b.hashes ∧
      (∀ m b', s.chain[m]? = some b' → e.hash ∈ b'.hashes → m = n) ∧
      (receipt = some ⟨e.hash, n⟩ ∨ receipt = none ∧ e.receipt = false)
  expired : ∀ id e, (id, .expired) ∈ s.resolved → s.waiters[id]? = some e → e.early = true →
    ∀ b ∈ s.chain, e.hash ∉ b.hashes
  cursor : ∀ sc ∈ s.scanners, ∀ c, sc.nextBlock = some c → s.Clear c
  moves : ∀ l t, s.step expiry l = some t → s.CursorMoves t

namespace Sample

/-- Transaction 9 expires at time 5. -/
def expiryOf (hash : TxHash) : Option ℕ := if hash = 9 then some 5 else none

/-- Two early waiters; the receipts of the block that holds one of them are read at the second try,
    and the next block expires the other. -/
def observed : List Label :=
  [.newBlock ⟨0, []⟩, .prepare, .scan 0 .done, .scan 0 (.head 0), .scan 0 .done, .prepared 0,
    .register 0 7 true false, .dropRegistration 0, .prepare, .prepared 1, .register 1 9 false true,
    .dropRegistration 1, .submit 7, .submit 9, .newBlock ⟨3, [7]⟩, .newBlock ⟨6, []⟩,
    .scan 0 .done, .scan 0 (.head 1), .scan 0 .found, .scan 0 .failed, .scan 0 .done, .scan 0 .done,
    .scan 0 (.head 2), .scan 0 .found, .scan 0 .found, .scan 0 .done, .scan 0 .found, .scan 0 .done]

end Sample

end ReceiptTracker

open ReceiptTracker

/-- Under every interleaving, on every chain that does not reorganise, with complete receipts. -/
theorem receipt_tracker_sound {expiry : TxHash → Option ℕ} {s : ReceiptTracker}
    (h : (receiptTrackerSystem expiry).Reachable s) : s.Sound expiry := by
  have hinv := verdictInv_reachable h
  refine ⟨(List.nodup_append.1 hinv.waiters.once).1, fun id receipt hx => ?_,
    fun id e hx he hearly => ?_, fun sc hsc c hc => (hinv.scanner sc hsc).clear hc,
    fun l t hst => hinv.cursorMoves (step_move hst)⟩
  · obtain ⟨e, he, n, b, hb, hin, hr⟩ := hinv.waiters.verdicts _ hx
    exact ⟨e, n, b, he, hb, hin, fun m b' hb' hin' => hinv.chain.unique hb' hb hin' hin, hr⟩
  · obtain ⟨e', he', hright⟩ := hinv.waiters.verdicts _ hx
    obtain rfl := Option.some.inj (he.symm.trans he')
    obtain ⟨-, -, -, hnone⟩ := hright hearly
    exact hnone

open ReceiptTracker.Sample in
theorem receipt_tracker_sound_observed : ∃ s,
    (receiptTrackerSystem expiryOf).Run System.anyStep {} observed s ∧
      s.resolved = [(0, .included (some ⟨7, 1⟩)), (1, .expired)] ∧ s.Sound expiryOf := by
  have hcheck : ((receiptTrackerSystem expiryOf).exec {} observed).any
      (fun s => s.resolved = [(0, .included (some ⟨7, 1⟩)), (1, .expired)]) = true := by
    decide
  obtain ⟨s, hrun, hresolved⟩ := System.run_of_check hcheck
  exact ⟨s, hrun, hresolved, receipt_tracker_sound ⟨_, hrun⟩⟩

end TxGen
