import TxGen.LogWait.HubSafety

set_option autoImplicit false

/-! # Every subscriber of the log hub sees the chain

Registering, leaving and looking at the channel keep the invariant, so that it holds in every run. -/

namespace TxGen

namespace LogHub

open Ledger

variable {δ : Type} {L : BlockLedger δ} {firstTopic : δ → Option (BitVec 256)} {s t : LogPollHub δ}

theorem HubInv.subscribe (h : HubInv L firstTopic s) (behavior : SubscriptionBehavior)
    (interest : LogInterest) : HubInv L firstTopic (s.subscribe behavior interest) := by
  have hplan : ∀ plan, PlanValid s plan → PlanValid (s.subscribe behavior interest) plan := by
    intro plan hplan
    refine hplan.congr (Nat.le_succ _) fun x hx hle => ?_
    rcases List.mem_append.1 hx with hold | hnew
    · exact ⟨x, hold, rfl, rfl⟩
    · -- the plan is older than the new subscription
      obtain rfl := List.mem_singleton.1 hnew
      exact absurd (hle.trans hplan.generation) (Nat.not_succ_le_self _)
  have hscanners : ∀ sc ∈ (s.subscribe behavior interest).scanners, sc ∈ s.scanners ∨
      (sc.commits = [] ∧ sc.checkpoint = none ∧ sc.stage = .ticking) := by
    intro sc hsc
    simp only [LogPollHub.subscribe] at hsc
    split at hsc
    · exact Or.inl hsc
    · rcases List.mem_append.1 hsc with hold | hnew
      · exact Or.inl hold
      · rw [List.mem_singleton.1 hnew]
        exact Or.inr ⟨rfl, rfl, rfl⟩
  refine ⟨h.chain, h.history, ?_, ?_, ?_, ?_, ?_, ?_, fun _ => rfl, ?_, ?_⟩
  · simp [LogPollHub.subscribe, h.registered]
  · intro x hx
    rcases List.mem_append.1 hx with hold | hnew
    · exact (h.ids x hold).trans (Nat.le_succ _)
    · rw [List.mem_singleton.1 hnew]
      exact Nat.le_refl _
  · simp only [LogPollHub.subscribe, List.map_append, List.map_cons, List.map_nil]
    refine List.nodup_append.2 ⟨h.nodup, List.nodup_singleton _, ?_⟩
    intro id hid id' hid' heq
    obtain ⟨x, hx, rfl⟩ := List.mem_map.1 hid
    obtain rfl := List.mem_singleton.1 hid'
    have hle := h.ids x hx
    omega
  · intro x hx
    rcases List.mem_append.1 hx with hold | hnew
    · exact (h.generations x hold).trans (Nat.le_succ _)
    · rw [List.mem_singleton.1 hnew]
      exact Nat.le_refl _
  · exact fun u hu => (h.update u hu).trans (Nat.le_succ _)
  · have hlen := h.running
    simp only [LogPollHub.subscribe]
    by_cases hrunning : s.state.running = true
    · simpa [hrunning] using hlen
    · simpa [hrunning] using hlen
  · intro sc hsc
    rcases hscanners sc hsc with hold | ⟨hcommits, hcheckpoint, hstage⟩
    · exact (h.scanners sc hold).congr rfl rfl hplan
    · refine ⟨?_, ?_, ?_, ?_, ?_, ?_⟩
      · unfold StageValid
        rw [hstage]
        trivial
      all_goals simp [hcommits, hcheckpoint]
  · intro sc hsc x hx
    have hempty : ∀ y : LogWindowSubscription δ, y.received = [] → s.state.generation < y.generation →
        SubscriptionValid firstTopic (s.subscribe behavior interest) sc y [] := by
      intro y hreceived hlater
      refine ⟨hreceived.symm, by simp, List.nil_sublist _, fun generation window hupdate hle => ?_⟩
      have hold := h.update ⟨generation, .ok window⟩ hupdate
      exact absurd (hle.trans hold) (Nat.not_le.2 hlater)
    rcases List.mem_append.1 hx with hold | hnew
    · rcases hscanners sc hsc with hin | ⟨hcommits, -, -⟩
      · obtain ⟨given, hgiven⟩ := h.subscriptions sc hin x hold
        exact ⟨given, hgiven.congr rfl rfl rfl⟩
      · -- somebody waits already, so there is a scanner already
        have hbusy := h.busy (List.ne_nil_of_mem hold)
        have hsame : (s.subscribe behavior interest).scanners = s.scanners := by
          simp [LogPollHub.subscribe, hbusy]
        rw [hsame] at hsc
        obtain ⟨given, hgiven⟩ := h.subscriptions sc hsc x hold
        exact ⟨given, hgiven.congr rfl rfl rfl⟩
    · obtain rfl := List.mem_singleton.1 hnew
      exact ⟨[], hempty _ rfl (Nat.lt_succ_self _)⟩

theorem HubInv.drop (h : HubInv L firstTopic s) (id : ℕ) : HubInv L firstTopic (s.drop id) := by
  have hsub : ∀ x ∈ (s.drop id).subscriptions, x ∈ s.subscriptions := fun x hx =>
    (List.mem_filter.1 hx).1
  refine ⟨h.chain, h.history, ?_, fun x hx => h.ids x (hsub x hx), ?_,
    fun x hx => (h.generations x (hsub x hx)).trans (Nat.le_succ _),
    fun u hu => (h.update u hu).trans (Nat.le_succ _), h.running, fun hne => h.busy ?_, ?_, ?_⟩
  · simp only [LogPollHub.drop, h.registered, List.filter_map]
    rfl
  · exact h.nodup.sublist (List.filter_sublist.map _)
  · intro hnone
    refine hne (List.eq_nil_iff_forall_not_mem.2 fun x hx => ?_)
    have hin := hsub x hx
    rw [hnone] at hin
    cases hin
  · intro sc hsc
    refine (h.scanners sc hsc).congr rfl rfl fun plan hplan => ?_
    exact hplan.congr (Nat.le_succ _) fun x hx _ => ⟨x, hsub x hx, rfl, rfl⟩
  · intro sc hsc x hx
    obtain ⟨given, hgiven⟩ := h.subscriptions sc hsc x (hsub x hx)
    exact ⟨given, hgiven.congr rfl rfl rfl⟩

/-- One subscriber has looked at the channel, and has been given what is new there or nothing. -/
theorem HubInv.modify (h : HubInv L firstTopic s) (id : ℕ)
    (f : LogWindowSubscription δ → LogWindowSubscription δ)
    (hkeeps : ∀ x, (f x).id = x.id ∧ (f x).generation = x.generation ∧ (f x).interest = x.interest)
    (hgiven : ∀ sc ∈ s.scanners, ∀ x ∈ s.subscriptions, x.id = id →
      (∃ given, SubscriptionValid firstTopic s sc x given) →
      ∃ given, SubscriptionValid firstTopic s sc (f x) given) :
    HubInv L firstTopic (s.modify id f) := by
  have hmem : ∀ x ∈ (s.modify id f).subscriptions, ∃ y ∈ s.subscriptions,
      x = if y.id = id then f y else y := by
    intro x hx
    obtain ⟨y, hy, heq⟩ := List.mem_map.1 hx
    exact ⟨y, hy, heq.symm⟩
  have hsame : ∀ y : LogWindowSubscription δ, (if y.id = id then f y else y).id = y.id ∧
      (if y.id = id then f y else y).generation = y.generation ∧
      (if y.id = id then f y else y).interest = y.interest := by
    intro y
    split
    · exact hkeeps y
    · exact ⟨rfl, rfl, rfl⟩
  refine ⟨h.chain, h.history, ?_, fun x hx => ?_, ?_, fun x hx => ?_, h.update, h.running, fun hne =>
    h.busy fun hnone => hne ?_, ?_, ?_⟩
  · simp only [LogPollHub.modify, h.registered, List.map_map]
    refine List.map_congr_left fun y _ => ?_
    simp only [Function.comp_apply, (hsame y).1, (hsame y).2.2]
  · obtain ⟨y, hy, rfl⟩ := hmem x hx
    rw [(hsame y).1]
    exact h.ids y hy
  · simp only [LogPollHub.modify, List.map_map]
    have hids : s.subscriptions.map ((·.id) ∘ fun x => if x.id = id then f x else x) =
        s.subscriptions.map (·.id) := List.map_congr_left fun y _ => (hsame y).1
    rw [hids]
    exact h.nodup
  · obtain ⟨y, hy, rfl⟩ := hmem x hx
    rw [(hsame y).2.1]
    exact h.generations y hy
  · simp [LogPollHub.modify, hnone]
  · intro sc hsc
    refine (h.scanners sc hsc).congr rfl rfl fun plan hplan => ?_
    refine hplan.congr (Nat.le_refl _) fun x hx _ => ?_
    obtain ⟨y, hy, rfl⟩ := hmem x hx
    exact ⟨y, hy, (hsame y).2.1.symm, (hsame y).2.2.symm⟩
  · intro sc hsc x hx
    obtain ⟨y, hy, rfl⟩ := hmem x hx
    have hbefore := h.subscriptions sc hsc y hy
    have hafter : ∃ given, SubscriptionValid firstTopic s sc (if y.id = id then f y else y) given := by
      split
      · next hid => exact hgiven sc hsc y hy hid hbefore
      · exact hbefore
    obtain ⟨given, hvalid⟩ := hafter
    exact ⟨given, hvalid.congr rfl rfl rfl⟩

theorem HubInv.observe (h : HubInv L firstTopic s) (id : ℕ) :
    HubInv L firstTopic (s.modify id fun x => { x with seen := s.version }) := by
  refine h.modify id _ (fun x => ⟨rfl, rfl, rfl⟩) ?_
  rintro sc - x - - ⟨given, hgiven⟩
  refine ⟨given, hgiven.received, hgiven.complete, hgiven.sublist, fun generation window hupdate hle => ?_⟩
  obtain ⟨before, chain, hcommits, hcomplete, -⟩ := hgiven.channel generation window hupdate hle
  exact ⟨before, chain, hcommits, hcomplete, fun hne => absurd rfl hne⟩

theorem HubInv.receive (h : HubInv L firstTopic s) {id : ℕ} {result : Option (Except String (LogWindow δ))}
    (hreceive : s.receive id = some (t, result)) : HubInv L firstTopic t := by
  unfold LogPollHub.receive at hreceive
  simp only [Option.bind_eq_bind, Option.bind_eq_some_iff] at hreceive
  obtain ⟨subscription, hfind, hreceive⟩ := hreceive
  split at hreceive
  · cases hreceive
  next hnew =>
  split at hreceive
  · obtain ⟨rfl, -⟩ := Prod.mk.inj (Option.some.inj hreceive)
    exact h.observe id
  next update hupdate =>
  split at hreceive
  · obtain ⟨rfl, -⟩ := Prod.mk.inj (Option.some.inj hreceive)
    exact h.observe id
  next window hwindow =>
  split at hreceive
  · next hle =>
      obtain ⟨rfl, -⟩ := Prod.mk.inj (Option.some.inj hreceive)
      have hchannel : s.update = some ⟨update.generation, .ok window⟩ := by
        rw [hupdate]
        exact congrArg some (congrArg (WindowUpdate.mk update.generation) hwindow)
      refine h.modify id _ (fun x => ⟨rfl, rfl, rfl⟩) ?_
      rintro sc - x hx hid ⟨given, hgiven⟩
      -- there is one subscription with the ID
      have hsub : subscription = x := by
        have hin := List.mem_of_find?_eq_some hfind
        have hsid : subscription.id = id := by simpa using List.find?_some hfind
        exact List.inj_on_of_nodup_map h.nodup hin hx (hsid.trans hid.symm)
      subst hsub
      obtain ⟨before, chain, hcommits, hcomplete, hsublist⟩ := hgiven.channel _ window hchannel hle
      have hlast := hsublist hnew
      refine ⟨given ++ [(window, chain)], ?_, ?_, ?_, fun generation window' hupdate' hle' => ?_⟩
      · rw [List.map_append, hgiven.received]
        rfl
      · intro y hy
        rcases List.mem_append.1 hy with hold | hlast
        · exact hgiven.complete y hold
        · rw [List.mem_singleton.1 hlast]
          exact hcomplete
      · rw [hcommits]
        exact hlast.append (List.Sublist.refl _)
      · obtain ⟨before', chain', hcommits', hcomplete', -⟩ := hgiven.channel _ window' hupdate' hle'
        exact ⟨before', chain', hcommits', hcomplete', fun hne => absurd rfl hne⟩
  · obtain ⟨rfl, -⟩ := Prod.mk.inj (Option.some.inj hreceive)
    exact h.observe id

theorem HubInv.step (h : HubInv L firstTopic s) {behavior : SubscriptionBehavior} {l : Label δ}
    (hok : Admissible L s l) (hstep : s.step behavior firstTopic l = some t) : HubInv L firstTopic t := by
  cases l with
  | evolve chain =>
      obtain rfl := Option.some.inj hstep
      exact h.evolve hok.1 hok.2
  | subscribe interest =>
      obtain rfl := Option.some.inj hstep
      exact h.subscribe behavior interest
  | scan i failure =>
      obtain ⟨scanner, hi, rfl⟩ := Option.map_eq_some_iff.1 hstep
      exact h.scan hi behavior failure
  | receive id =>
      obtain ⟨⟨hub, result⟩, hreceive, rfl⟩ := Option.map_eq_some_iff.1 hstep
      exact h.receive hreceive
  | observe id =>
      obtain rfl := Option.some.inj hstep
      exact h.observe id
  | drop id =>
      simp only [LogPollHub.step, Option.ite_none_right_eq_some, Option.some.injEq] at hstep
      obtain ⟨-, rfl⟩ := hstep
      exact h.drop id

theorem hubInv_init {chain : Chain δ} (hchain : chain ∈ L.chains) :
    HubInv L firstTopic { chain, history := [chain] } := by
  constructor <;> simp [hchain]

theorem hubInv_run {behavior : SubscriptionBehavior} {chain : Chain δ} (hchain : chain ∈ L.chains)
    {ls : List (Label δ)} (hrun : (hubSystem behavior firstTopic chain).Run (Admissible L)
      (hubSystem behavior firstTopic chain).init ls s) : HubInv L firstTopic s :=
  hrun.invariant (fun _ _ _ hok hs hstep => hs.step hok hstep) (hubInv_init hchain)

/-- The subscriber was given windows of canonical chains that have every log it waits for; those of one
epoch are windows of one growing chain. -/
def Served (firstTopic : δ → Option (BitVec 256)) (s : LogPollHub δ) (x : LogWindowSubscription δ) : Prop :=
  ∃ given : List (LogWindow δ × Chain δ), given.map Prod.fst = x.received ∧
    (∀ y ∈ given, y.2 ∈ s.history ∧ Complete firstTopic x.interest y.1 y.2) ∧ given.Pairwise Follows

end LogHub

open LogHub

/-- Whatever the subscribers, the scanner and the chain do, as long as no lost block comes back: there is
at most one scanner, and one for as long as anybody waits; and each subscriber is served. -/
theorem hub_serves {δ : Type} {L : BlockLedger δ} {firstTopic : δ → Option (BitVec 256)}
    {behavior : SubscriptionBehavior} {chain : Chain δ} (hchain : chain ∈ L.chains)
    {ls : List (Label δ)} {s : LogPollHub δ}
    (hrun : (hubSystem behavior firstTopic chain).Run (Admissible L)
      (hubSystem behavior firstTopic chain).init ls s) :
    s.scanners.length ≤ 1 ∧ (s.subscriptions ≠ [] → s.scanners.length = 1) ∧
      ∀ x ∈ s.subscriptions, Served firstTopic s x := by
  have h := hubInv_run hchain hrun
  have hlen := h.running
  refine ⟨?_, fun hne => ?_, fun x hx => ?_⟩
  · split at hlen <;> omega
  · rwa [if_pos (h.busy hne)] at hlen
  · -- the scanner that serves `x`
    have hbusy := h.busy (List.ne_nil_of_mem hx)
    rw [if_pos hbusy] at hlen
    obtain ⟨scanner, honly⟩ := List.length_eq_one_iff.1 hlen
    have hin : scanner ∈ s.scanners := by simp [honly]
    obtain ⟨given, hgiven⟩ := h.subscriptions scanner hin x hx
    have hvalid := h.scanners scanner hin
    exact ⟨given, hgiven.received,
      fun y hy => ⟨hvalid.canonical y (hgiven.sublist.subset hy), hgiven.complete y hy⟩,
      hvalid.ordered.sublist hgiven.sublist⟩

/-! ### A block is added, and its log is found -/

namespace HubSample

def log : MinedLog Unit where
  address := 0
  removed := false
  data := ()
  blockNumber := 1
  blockHash := 1
  transactionHash := 0
  logIndex := 0

def blocks : Chain Unit := [⟨0, []⟩, ⟨1, [log]⟩]

def interest : LogInterest := { topic0 := none, address := none, startBlock := 0, maxBlockRange := 1 }

/-- The chain of the two blocks, and the first block alone. -/
def ledger : BlockLedger Unit where
  chains := {chain | chain = blocks.take 1 ∨ chain = blocks}
  determined := by
    have hpart : ∀ chain : Chain Unit, chain = blocks.take 1 ∨ chain = blocks → ∀ (n : ℕ) (b : LogHub.Block Unit),
        chain[n]? = some b → chain.take (n + 1) = blocks.take (n + 1) := by
      rintro chain (rfl | rfl) n b hb
      · have hlt : n < 1 := (List.getElem?_eq_some_iff.1 hb).1
        rw [List.take_take, Nat.min_eq_left hlt]
      · rfl
    intro chain hchain chain' hchain' n b b' hb hb' _
    exact (hpart chain hchain n b hb).trans (hpart chain' hchain' n b' hb').symm
  nonempty := by
    rintro chain (rfl | rfl) <;> simp [blocks]
  short := by
    rintro chain (rfl | rfl) <;> simp [blocks, u64Max]
  numbered := by
    have hwhole : ∀ (n : ℕ) (b : LogHub.Block Unit), blocks[n]? = some b → ∀ log ∈ b.logs, log.blockNumber = n := by
      rintro (_ | _ | n) b hb log hlog <;> simp [blocks] at hb <;> subst hb <;> simp at hlog
      rw [hlog]
      rfl
    rintro chain (rfl | rfl) n b hb
    · rw [List.getElem?_take] at hb
      exact hwhole n b (Option.ite_none_right_eq_some.1 hb).2
    · exact hwhole n b hb

def labels : List (Label Unit) :=
  .subscribe interest :: List.replicate 8 (.scan 0 none) ++ [.receive 1]

end HubSample

open HubSample in
theorem hub_serves_sample : ∃ s : LogPollHub Unit,
    (s.subscriptions.map fun x => x.received.map fun w => (w.epoch, w.head, w.logs.length)) = [[(0, 1, 1)]] ∧
      s.scanners.length ≤ 1 ∧ (s.subscriptions ≠ [] → s.scanners.length = 1) ∧
        ∀ x ∈ s.subscriptions, Served (fun _ => none) s x := by
  have hstep : (hubSystem .disabled (fun _ : Unit => none) (blocks.take 1)).step
      (hubSystem .disabled (fun _ : Unit => none) (blocks.take 1)).init (.evolve blocks) =
        some { chain := blocks, history := [blocks.take 1, blocks] } := rfl
  obtain ⟨s, hrest, hreceived⟩ := (hubSystem .disabled (fun _ : Unit => none) (blocks.take 1)).run_of_check
    (P := fun s => (s.subscriptions.map fun x =>
      x.received.map fun w => (w.epoch, w.head, w.logs.length)) = [[(0, 1, 1)]])
    (s := { chain := blocks, history := [blocks.take 1, blocks] })
    (show ((hubSystem .disabled (fun _ : Unit => none) (blocks.take 1)).exec _ labels).any _ = true by
      decide +kernel)
  have hsteady : Admissible ledger (hubSystem .disabled (fun _ : Unit => none) (blocks.take 1)).init
      (.evolve blocks) := by
    refine ⟨Or.inr rfl, fun c hc n hash hat _ => ?_⟩
    obtain rfl := List.mem_singleton.1 hc
    exact hat
  refine ⟨s, hreceived, hub_serves (Or.inl rfl) (System.Run.cons hsteady hstep (hrest.of_labels ?_))⟩
  intro l hl s'
  simp only [labels, List.replicate, List.cons_append, List.nil_append, List.mem_cons,
    List.not_mem_nil, or_false] at hl
  rcases hl with rfl | rfl | rfl | rfl | rfl | rfl | rfl | rfl | rfl | rfl <;> trivial

end TxGen
