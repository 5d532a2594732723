import TxGen.LogWait.HubWindows

set_option autoImplicit false

/-! # The invariant of the log hub

There is one scanner as long as anybody waits; what it has collected belongs to one chain for as long as the
head of the scan is canonical; and the windows of one epoch are windows of one growing chain. -/

namespace TxGen

namespace LogHub

open Ledger

variable {δ : Type} (L : BlockLedger δ) (firstTopic : δ → Option (BitVec 256))

/-- The canonical chain changes to one of the network's, which has none of the lost blocks back. -/
def Admissible (s : LogPollHub δ) : Label δ → Prop
  | .evolve chain => chain ∈ L.chains ∧ Steady Block.hash s.history s.chain chain
  | _ => True

/-! ## The invariant -/

structure PlanValid (s : LogPollHub δ) (plan : TickPlan) : Prop where
  generation : plan.generation ≤ s.state.generation
  interests : ∀ x ∈ s.subscriptions, x.generation ≤ plan.generation → x.interest ∈ plan.interests

/-- What the scan has found is what the chain has, and the checkpoint is on the chain. -/
structure Found (scanner : Scanner δ) (plan : TickPlan) (head first next : ℕ) (logs : List (MinedLog δ))
    (chain : Chain δ) : Prop where
  logs : logs.Perm (scanned firstTopic plan.interests chain first next)
  checkpoint : ∀ (n : ℕ) (h : BitVec 256), scanner.checkpoint = some (n, h) →
    n ≤ head ∧ blockHash chain n = some h

/-- A scan between two of its queries: its result is right for as long as its head is canonical. -/
structure Scanning (s : LogPollHub δ) (scanner : Scanner δ) (plan : TickPlan) (head : ℕ)
    (headHash : BitVec 256) (first next : ℕ) (logs : List (MinedLog δ)) : Prop where
  planned : PlanValid s plan
  seen : Seen Block.hash s.history head headHash
  start : first = coverageStart plan head
  low : first ≤ next
  high : next ≤ max first (head + 1)
  found : blockHash s.chain head = some headHash → Found firstTopic scanner plan head first next logs s.chain

def StageValid (s : LogPollHub δ) (scanner : Scanner δ) : Prop :=
  match scanner.stage with
  | .ticking | .waiting => True
  | .subscribing plan | .head plan | .headHash plan _ => PlanValid s plan
  | .checkpoint plan head headHash => PlanValid s plan ∧ Seen Block.hash s.history head headHash
  | .logs plan head headHash first next logs =>
      Scanning firstTopic s scanner plan head headHash first next logs

/-- Two windows in this order: in one epoch the second is a window of the chain of the first, at or above
it. -/
def Follows (first second : LogWindow δ × Chain δ) : Prop :=
  first.1.epoch ≤ second.1.epoch ∧ (first.1.epoch = second.1.epoch →
    first.1.head ≤ second.1.head ∧ first.2.take (first.1.head + 1) = second.2.take (first.1.head + 1))

structure ScannerValid (s : LogPollHub δ) (scanner : Scanner δ) : Prop where
  stage : StageValid firstTopic s scanner
  checkpoint : ∀ (n : ℕ) (h : BitVec 256), scanner.checkpoint = some (n, h) → Seen Block.hash s.history n h
  canonical : ∀ x ∈ scanner.commits, x.2 ∈ s.history
  epochs : ∀ x ∈ scanner.commits, x.1.epoch ≤ scanner.epoch
  -- the windows of the present epoch are below the checkpoint
  latest : ∀ x ∈ scanner.commits, x.1.epoch = scanner.epoch → ∃ (n : ℕ) (h : BitVec 256),
    scanner.checkpoint = some (n, h) ∧ x.1.head ≤ n ∧ ∀ chain ∈ L.chains, blockHash chain n = some h →
      x.2.take (x.1.head + 1) = chain.take (x.1.head + 1)
  ordered : scanner.commits.Pairwise Follows

/-- The subscriber was given windows of the scanner, in their order, and the one in the channel comes
after those. -/
structure SubscriptionValid (s : LogPollHub δ) (scanner : Scanner δ) (x : LogWindowSubscription δ)
    (given : List (LogWindow δ × Chain δ)) : Prop where
  received : given.map Prod.fst = x.received
  complete : ∀ y ∈ given, Complete firstTopic x.interest y.1 y.2
  sublist : given.Sublist scanner.commits
  channel : ∀ (generation : ℕ) (window : LogWindow δ),
    s.update = some ⟨generation, .ok window⟩ → x.generation ≤ generation →
      ∃ before chain, scanner.commits = before ++ [(window, chain)] ∧
        Complete firstTopic x.interest window chain ∧ (s.version ≠ x.seen → given.Sublist before)

structure HubInv (s : LogPollHub δ) : Prop where
  chain : s.chain ∈ s.history
  history : ∀ c ∈ s.history, c ∈ L.chains
  registered : s.state.interests = s.subscriptions.map fun x => (x.id, x.interest)
  ids : ∀ x ∈ s.subscriptions, x.id ≤ s.state.nextId
  nodup : (s.subscriptions.map (·.id)).Nodup
  generations : ∀ x ∈ s.subscriptions, x.generation ≤ s.state.generation
  update : ∀ u, s.update = some u → u.generation ≤ s.state.generation
  running : s.scanners.length = if s.state.running then 1 else 0
  busy : s.subscriptions ≠ [] → s.state.running = true
  scanners : ∀ scanner ∈ s.scanners, ScannerValid L firstTopic s scanner
  subscriptions : ∀ scanner ∈ s.scanners, ∀ x ∈ s.subscriptions,
    ∃ given, SubscriptionValid firstTopic s scanner x given

variable {L firstTopic} {s t : LogPollHub δ} {scanner : Scanner δ}

/-! ## The chain changes -/

theorem Found.congr {plan : TickPlan} {head first next : ℕ} {logs : List (MinedLog δ)}
    {chain chain' : Chain δ} (hmem : chain ∈ L.chains) (hmem' : chain' ∈ L.chains)
    (htake : chain.take (head + 1) = chain'.take (head + 1)) (hlow : first ≤ next)
    (hhigh : next ≤ max first (head + 1))
    (h : Found firstTopic scanner plan head first next logs chain) :
    Found firstTopic scanner plan head first next logs chain' := by
  refine ⟨?_, fun n hash hcheckpoint => ?_⟩
  · rcases Nat.lt_or_ge (head + 1) next with hlt | hle
    · -- nothing has been asked for
      have heq : next = first := by omega
      have hlogs := h.logs
      rw [heq, scanned_empty] at hlogs ⊢
      exact hlogs
    · rw [← scanned_congr hmem hmem' hle htake]
      exact h.logs
  · obtain ⟨hle, hat⟩ := h.checkpoint n hash hcheckpoint
    exact ⟨hle, (hashAt_of_take htake (Nat.lt_succ_of_le hle)).symm.trans hat⟩

theorem PlanValid.congr {plan : TickPlan} (h : PlanValid s plan)
    (hgeneration : s.state.generation ≤ t.state.generation)
    (hsubs : ∀ x ∈ t.subscriptions, x.generation ≤ plan.generation →
      ∃ y ∈ s.subscriptions, y.generation = x.generation ∧ y.interest = x.interest) :
    PlanValid t plan := by
  refine ⟨h.generation.trans hgeneration, fun x hx hle => ?_⟩
  obtain ⟨y, hy, hsame, hinterest⟩ := hsubs x hx hle
  exact hinterest ▸ h.interests y hy (hsame ▸ hle)

/-- What a scan knows does not depend on the rest of the hub. -/
theorem StageValid.congr (h : StageValid firstTopic s scanner)
    (hplan : ∀ plan, PlanValid s plan → PlanValid t plan) (hhistory : s.history ⊆ t.history)
    (hfound : ∀ (plan : TickPlan) (head : ℕ) (headHash : BitVec 256) (first next : ℕ)
      (logs : List (MinedLog δ)), Scanning firstTopic s scanner plan head headHash first next logs →
        blockHash t.chain head = some headHash →
        Found firstTopic scanner plan head first next logs t.chain) :
    StageValid firstTopic t scanner := by
  unfold StageValid at h ⊢
  split at h
  · trivial
  · trivial
  · exact hplan _ h
  · exact hplan _ h
  · exact hplan _ h
  · exact ⟨hplan _ h.1, h.2.mono hhistory⟩
  · exact ⟨hplan _ h.planned, h.seen.mono hhistory, h.start, h.low, h.high, hfound _ _ _ _ _ _ h⟩

theorem ScannerValid.evolve (h : ScannerValid L firstTopic s scanner) {chain : Chain δ}
    (hmem : s.chain ∈ L.chains) (hmem' : chain ∈ L.chains)
    (hsteady : Steady Block.hash s.history s.chain chain) :
    ScannerValid L firstTopic { s with chain, history := s.history ++ [chain] } scanner := by
  have hsub : s.history ⊆ s.history ++ [chain] := List.subset_append_left _ _
  refine ⟨h.stage.congr (fun plan hplan => ⟨hplan.generation, hplan.interests⟩) hsub ?_,
    fun n hash hcheckpoint => (h.checkpoint n hash hcheckpoint).mono hsub,
    fun x hx => hsub (h.canonical x hx), h.epochs, h.latest, h.ordered⟩
  intro plan head headHash first next logs hscanning
  refine hsteady.carry (fun c hc c' hc' htake hfound => ?_) hscanning.seen hmem hmem' hscanning.found
  exact hfound.congr hc hc' htake hscanning.low hscanning.high

theorem HubInv.evolve (h : HubInv L firstTopic s) {chain : Chain δ} (hmem : chain ∈ L.chains)
    (hsteady : Steady Block.hash s.history s.chain chain) :
    HubInv L firstTopic { s with chain, history := s.history ++ [chain] } where
  chain := List.mem_append_right _ (List.mem_singleton_self _)
  history := by
    intro c hc
    rcases List.mem_append.1 hc with hold | hnew
    · exact h.history c hold
    · exact (List.mem_singleton.1 hnew) ▸ hmem
  registered := h.registered
  ids := h.ids
  nodup := h.nodup
  generations := h.generations
  update := h.update
  running := h.running
  busy := h.busy
  scanners := fun sc hsc => (h.scanners sc hsc).evolve (h.history _ h.chain) hmem hsteady
  subscriptions := by
    intro sc hsc x hx
    obtain ⟨given, hgiven⟩ := h.subscriptions sc hsc x hx
    exact ⟨given, hgiven.received, hgiven.complete, hgiven.sublist, hgiven.channel⟩

/-! ## The scanner goes on -/

theorem HubInv.only (h : HubInv L firstTopic s) {i : ℕ} (hi : s.scanners[i]? = some scanner) :
    i = 0 ∧ s.scanners = [scanner] := by
  have hlen := h.running
  have hlt := (List.getElem?_eq_some_iff.1 hi).1
  have hone : s.scanners.length = 1 := by
    split at hlen <;> omega
  obtain ⟨only, honly⟩ := List.length_eq_one_iff.1 hone
  obtain rfl : i = 0 := by omega
  rw [honly] at hi
  obtain rfl : only = scanner := by simpa using hi
  exact ⟨rfl, honly⟩

theorem ScannerValid.congr (h : ScannerValid L firstTopic s scanner) (hchain : t.chain = s.chain)
    (hhistory : t.history = s.history) (hplan : ∀ plan, PlanValid s plan → PlanValid t plan) :
    ScannerValid L firstTopic t scanner := by
  refine ⟨h.stage.congr hplan (hhistory ▸ fun _ hc => hc) ?_, ?_, ?_, h.epochs, h.latest, h.ordered⟩
  · intro plan head headHash first next logs hscanning hat
    rw [hchain] at hat ⊢
    exact hscanning.found hat
  · rw [hhistory]
    exact h.checkpoint
  · rw [hhistory]
    exact h.canonical

/-- Only the stage of the scanner and its counters change. -/
theorem ScannerValid.restage (h : ScannerValid L firstTopic s scanner) {scanner' : Scanner δ}
    (hcheckpoint : scanner'.checkpoint = scanner.checkpoint) (hepoch : scanner'.epoch = scanner.epoch)
    (hcommits : scanner'.commits = scanner.commits) (hstage : StageValid firstTopic s scanner') :
    ScannerValid L firstTopic s scanner' := by
  refine ⟨hstage, ?_, ?_, ?_, ?_, ?_⟩
  · rw [hcheckpoint]
    exact h.checkpoint
  · rw [hcommits]
    exact h.canonical
  · rw [hcommits, hepoch]
    exact h.epochs
  · rw [hcommits, hepoch, hcheckpoint]
    exact h.latest
  · rw [hcommits]
    exact h.ordered

/-- A new epoch begins: none of the windows belongs to it. -/
theorem ScannerValid.invalidated (h : ScannerValid L firstTopic s scanner) {scanner' : Scanner δ}
    (hcheckpoint : scanner'.checkpoint = none) (hepoch : scanner'.epoch = scanner.epoch + 1)
    (hcommits : scanner'.commits = scanner.commits) (hstage : StageValid firstTopic s scanner') :
    ScannerValid L firstTopic s scanner' := by
  refine ⟨hstage, ?_, ?_, ?_, ?_, ?_⟩
  · intro n hash hsome
    rw [hcheckpoint] at hsome
    cases hsome
  · rw [hcommits]
    exact h.canonical
  · rw [hcommits, hepoch]
    exact fun x hx => (h.epochs x hx).trans (Nat.le_succ _)
  · rw [hcommits, hepoch]
    intro x hx hsame
    have hle := h.epochs x hx
    omega
  · rw [hcommits]
    exact h.ordered

theorem SubscriptionValid.congr {x : LogWindowSubscription δ} {given : List (LogWindow δ × Chain δ)}
    (h : SubscriptionValid firstTopic s scanner x given) {scanner' : Scanner δ}
    (hcommits : scanner'.commits = scanner.commits) (hupdate : t.update = s.update)
    (hversion : t.version = s.version) : SubscriptionValid firstTopic t scanner' x given := by
  refine ⟨h.received, h.complete, ?_, ?_⟩
  · rw [hcommits]
    exact h.sublist
  · rw [hcommits, hupdate, hversion]
    exact h.channel

theorem HubInv.setScanner (h : HubInv L firstTopic s) (honly : s.scanners = [scanner])
    {scanner' : Scanner δ} (hvalid : ScannerValid L firstTopic s scanner')
    (hcommits : scanner'.commits = scanner.commits) :
    HubInv L firstTopic (s.setScanner 0 scanner') := by
  have hset : (s.setScanner 0 scanner').scanners = [scanner'] := by
    simp [LogPollHub.setScanner, honly]
  refine ⟨h.chain, h.history, h.registered, h.ids, h.nodup, h.generations, h.update, ?_, h.busy, ?_, ?_⟩
  · rw [hset]
    have hlen := h.running
    rwa [honly] at hlen
  · rw [hset]
    intro sc hsc
    rw [List.mem_singleton.1 hsc]
    exact hvalid.congr rfl rfl fun plan hplan => ⟨hplan.generation, hplan.interests⟩
  · rw [hset]
    intro sc hsc x hx
    rw [List.mem_singleton.1 hsc]
    obtain ⟨given, hgiven⟩ := h.subscriptions scanner (by simp [honly]) x hx
    exact ⟨given, hgiven.congr hcommits rfl rfl⟩

theorem HubInv.send_error (h : HubInv L firstTopic s) {generation : ℕ} {message : String}
    (hle : generation ≤ s.state.generation) :
    HubInv L firstTopic (s.send generation (.error message)) := by
  unfold LogPollHub.send
  split
  · exact h
  refine ⟨h.chain, h.history, h.registered, h.ids, h.nodup, h.generations, ?_, h.running, h.busy,
    fun sc hsc => ?_, fun sc hsc x hx => ?_⟩
  · intro u hu
    obtain rfl := Option.some.inj hu
    exact hle
  · exact (h.scanners sc hsc).congr rfl rfl fun plan hplan => ⟨hplan.generation, hplan.interests⟩
  · obtain ⟨given, hgiven⟩ := h.subscriptions sc hsc x hx
    refine ⟨given, hgiven.received, hgiven.complete, hgiven.sublist, fun generation window hupdate => ?_⟩
    simp at hupdate

theorem send_scanners (generation : ℕ) (result : Except String (LogWindow δ)) :
    (s.send generation result).scanners = s.scanners := by
  unfold LogPollHub.send
  split <;> rfl

/-- A request failed. -/
theorem HubInv.scanFailed (h : HubInv L firstTopic s) (honly : s.scanners = [scanner]) {plan : TickPlan}
    (hplan : PlanValid s plan) (message : String) :
    HubInv L firstTopic (s.scanFailed 0 scanner plan message) := by
  have hvalid := h.scanners scanner (by simp [honly])
  unfold LogPollHub.scanFailed
  split
  · have hsent : HubInv L firstTopic (s.send plan.generation (.error message)) :=
      h.send_error hplan.generation
    have honly' : (s.send plan.generation (.error message)).scanners = [scanner] := by
      rw [send_scanners, honly]
    exact hsent.setScanner honly'
      ((hsent.scanners scanner (by simp [honly'])).restage rfl rfl rfl trivial) rfl
  · exact h.setScanner honly (hvalid.restage rfl rfl rfl trivial) rfl

theorem HubInv.tickPlan (h : HubInv L firstTopic s) (honly : s.scanners = [scanner]) :
    HubInv L firstTopic (s.tickPlan 0 scanner) := by
  have hvalid := h.scanners scanner (by simp [honly])
  unfold LogPollHub.tickPlan
  split
  · -- nobody waits: the scanner stops
    next hnone =>
      have hempty : s.subscriptions = [] := by
        have hregistered := h.registered
        rw [hnone] at hregistered
        exact List.map_eq_nil_iff.1 hregistered.symm
      refine ⟨h.chain, h.history, h.registered, h.ids, h.nodup, h.generations, h.update, ?_,
        fun hne => absurd hempty hne, ?_, ?_⟩
      · simp [honly]
      · simp [honly]
      · simp [honly]
  · -- the plan has the interests of all who are registered
    refine h.setScanner honly (hvalid.restage rfl rfl rfl ?_) rfl
    have hplan : PlanValid s { generation := s.state.generation, interests := s.state.interests.map (·.2) } := by
      refine ⟨Nat.le_refl _, fun x hx _ => ?_⟩
      rw [h.registered, List.map_map]
      exact List.mem_map.2 ⟨x, hx, rfl⟩
    unfold StageValid
    dsimp only
    by_cases hinit : scanner.subscriptionInitialized = true
    · rw [if_pos hinit]
      exact hplan
    · rw [if_neg hinit]
      exact hplan

theorem HubInv.subscribeWake (h : HubInv L firstTopic s) (honly : s.scanners = [scanner])
    {plan : TickPlan} (hplan : PlanValid s plan) (behavior : SubscriptionBehavior)
    (failure : Option String) :
    HubInv L firstTopic (s.subscribeWake behavior 0 scanner plan failure) := by
  have hvalid := h.scanners scanner (by simp [honly])
  unfold LogPollHub.subscribeWake
  split
  · exact h.setScanner honly (hvalid.restage rfl rfl rfl hplan) rfl
  · next message =>
      split
      · have hsent : HubInv L firstTopic (s.send plan.generation (.error message)) :=
          h.send_error hplan.generation
        have honly' : (s.send plan.generation (.error message)).scanners = [scanner] := by
          rw [send_scanners, honly]
        exact hsent.setScanner honly'
          ((hsent.scanners scanner (by simp [honly'])).restage rfl rfl rfl trivial) rfl
      · exact h.setScanner honly (hvalid.restage rfl rfl rfl hplan) rfl

/-- The scan begins to ask for logs, with a checkpoint that is on the chain of its head or with none. -/
theorem scanning_start {plan : TickPlan} {head : ℕ} {headHash : BitVec 256} {scanner' : Scanner δ}
    (hplan : PlanValid s plan) (hseen : Seen Block.hash s.history head headHash)
    (hcheckpoint : ∀ (n : ℕ) (h : BitVec 256), scanner'.checkpoint = some (n, h) →
      n ≤ head ∧ (blockHash s.chain head = some headHash → blockHash s.chain n = some h)) :
    StageValid firstTopic s (scanner'.startLogs plan head headHash) := by
  refine ⟨hplan, hseen, rfl, Nat.le_refl _, Nat.le_max_left _ _, fun hat => ⟨?_, fun n hash hsome => ?_⟩⟩
  · rw [scanned_empty]
  · obtain ⟨hle, hon⟩ := hcheckpoint n hash hsome
    exact ⟨hle, hon hat⟩

theorem HubInv.compareCheckpoint (h : HubInv L firstTopic s) (honly : s.scanners = [scanner])
    {plan : TickPlan} {head : ℕ} {headHash : BitVec 256} (hplan : PlanValid s plan)
    (hseen : Seen Block.hash s.history head headHash) (failure : Option String) :
    HubInv L firstTopic (s.compareCheckpoint 0 scanner plan head headHash failure) := by
  have hvalid := h.scanners scanner (by simp [honly])
  have hfresh : HubInv L firstTopic
      (s.setScanner 0 (scanner.invalidate.startLogs plan head headHash)) := by
    refine h.setScanner honly (hvalid.invalidated rfl rfl rfl (scanning_start hplan hseen ?_)) rfl
    intro n hash hsome
    cases hsome
  have hkeep : (∀ (n : ℕ) (hash : BitVec 256), scanner.checkpoint = some (n, hash) →
      n ≤ head ∧ (blockHash s.chain head = some headHash → blockHash s.chain n = some hash)) →
      HubInv L firstTopic (s.setScanner 0 (scanner.startLogs plan head headHash)) := fun hcheckpoint =>
    h.setScanner honly (hvalid.restage rfl rfl rfl (scanning_start hplan hseen hcheckpoint)) rfl
  unfold LogPollHub.compareCheckpoint
  split
  · next hnone =>
      refine hkeep fun n hash hsome => ?_
      rw [hnone] at hsome
      cases hsome
  · next number hash hsome =>
      -- which of the two blocks is the higher one
      split
      · next hsame =>
          split
          · next heq =>
              refine hkeep fun n hash' hsome' => ?_
              obtain ⟨rfl, rfl⟩ : number = n ∧ hash = hash' := by
                simpa using hsome.symm.trans hsome'
              exact ⟨hsame.le, fun hat => by rw [hsame, hat, heq]⟩
          · exact hfresh
      · split
        · next hbelow =>
            split
            · next message => exact h.scanFailed honly hplan message
            · split
              · next hat =>
                  refine hkeep fun n hash' hsome' => ?_
                  obtain ⟨rfl, rfl⟩ : number = n ∧ hash = hash' := by
                    simpa using hsome.symm.trans hsome'
                  exact ⟨hbelow.le, fun _ => hat⟩
              · exact hfresh
        · exact hfresh

/-- One more range of blocks. -/
theorem HubInv.moreLogs (h : HubInv L firstTopic s) (honly : s.scanners = [scanner]) {plan : TickPlan}
    {head first next : ℕ} {headHash : BitVec 256} {logs : List (MinedLog δ)}
    (hscanning : Scanning firstTopic s scanner plan head headHash first next logs) (hle : next ≤ head) :
    HubInv L firstTopic (s.setScanner 0 { scanner with
      stage := .logs plan head headHash first
        (saturatingAdd (boundedRangeEnd next head (scanChunk plan.interests)) 1)
        (logs ++ getLogs firstTopic s.chain (unionFilter plan.interests next
          (boundedRangeEnd next head (scanChunk plan.interests)))) }) := by
  have hvalid := h.scanners scanner (by simp [honly])
  obtain ⟨last, hlast⟩ : ∃ last, boundedRangeEnd next head (scanChunk plan.interests) = last := ⟨_, rfl⟩
  have hhead : head < u64Max := by
    obtain ⟨past, hpast, hat⟩ := hscanning.seen
    exact (lt_of_hashAt hat).trans_le (L.short past (h.history past hpast))
  have hlow := hlast ▸ le_boundedRangeEnd (scanChunk plan.interests) hle hhead.le
  have hhigh := hlast ▸ boundedRangeEnd_le next head (scanChunk plan.interests)
  rw [hlast, saturatingAdd_of_lt (hhigh.trans_lt hhead)]
  refine h.setScanner honly (hvalid.restage rfl rfl rfl ?_) rfl
  have hfirst := hscanning.low
  refine ⟨hscanning.planned, hscanning.seen, hscanning.start, by omega, ?_, fun hat => ⟨?_, ?_⟩⟩
  · exact (Nat.succ_le_succ hhigh).trans (Nat.le_max_right _ _)
  · rw [getLogs_unionFilter]
    exact ((hscanning.found hat).logs.append_right _).trans (scanned_append hfirst (by omega))
  · exact (hscanning.found hat).checkpoint

/-- The head is canonical still, so the window and the windows before it in the epoch are windows of the
present chain. -/
theorem ScannerValid.committed (h : ScannerValid L firstTopic s scanner) (hmem : s.chain ∈ s.history)
    (hchain : s.chain ∈ L.chains) {plan : TickPlan} {head first next : ℕ} {headHash : BitVec 256}
    {logs : List (MinedLog δ)}
    (hscanning : Scanning firstTopic s scanner plan head headHash first next logs)
    (hat : blockHash s.chain head = some headHash) (window : LogWindow δ)
    (hepoch : window.epoch = scanner.epoch) (hhead : window.head = head) (failures : ℕ) :
    ScannerValid L firstTopic s { scanner with
      checkpoint := some (head, headHash)
      consecutiveScanFailures := failures
      stage := .waiting
      commits := scanner.commits ++ [(window, s.chain)] } := by
  have hfound := hscanning.found hat
  have hbefore : ∀ x ∈ scanner.commits, x.1.epoch = scanner.epoch →
      x.1.head ≤ head ∧ x.2.take (x.1.head + 1) = s.chain.take (x.1.head + 1) := by
    intro x hx hsame
    obtain ⟨n, hash, hcheckpoint, hle, hagree⟩ := h.latest x hx hsame
    obtain ⟨hbelow, hon⟩ := hfound.checkpoint n hash hcheckpoint
    exact ⟨hle.trans hbelow, hagree s.chain hchain hon⟩
  refine ⟨trivial, ?_, ?_, ?_, ?_, ?_⟩
  · intro n hash hsome
    obtain ⟨rfl, rfl⟩ : head = n ∧ headHash = hash := by simpa using hsome
    exact hscanning.seen
  · intro x hx
    rcases List.mem_append.1 hx with hold | hnew
    · exact h.canonical x hold
    · rw [List.mem_singleton.1 hnew]
      exact hmem
  · intro x hx
    rcases List.mem_append.1 hx with hold | hnew
    · exact h.epochs x hold
    · rw [List.mem_singleton.1 hnew]
      exact hepoch.le
  · intro x hx hsame
    refine ⟨head, headHash, rfl, ?_⟩
    have hpart : x.1.head ≤ head ∧ x.2.take (x.1.head + 1) = s.chain.take (x.1.head + 1) := by
      rcases List.mem_append.1 hx with hold | hnew
      · exact hbefore x hold hsame
      · rw [List.mem_singleton.1 hnew]
        exact ⟨hhead.le, rfl⟩
    refine ⟨hpart.1, fun chain hin hon => ?_⟩
    have htake := take_eq_of_hashAt hchain hin hat hon
    exact hpart.2.trans (take_of_take htake (Nat.succ_le_succ hpart.1))
  · refine List.pairwise_append.2 ⟨h.ordered, List.pairwise_singleton _ _, fun x hx y hy => ?_⟩
    rw [List.mem_singleton.1 hy]
    refine ⟨(h.epochs x hx).trans hepoch.ge, fun hsame => ?_⟩
    obtain ⟨hle, htake⟩ := hbefore x hx (hsame.trans hepoch)
    exact ⟨hle.trans hhead.ge, htake⟩

theorem HubInv.commit (h : HubInv L firstTopic s) (honly : s.scanners = [scanner]) {plan : TickPlan}
    {head first next : ℕ} {headHash : BitVec 256} {logs : List (MinedLog δ)}
    (hscanning : Scanning firstTopic s scanner plan head headHash first next logs) (hpast : head < next) :
    HubInv L firstTopic (s.commit 0 scanner plan head headHash first logs) := by
  have hvalid := h.scanners scanner (by simp [honly])
  have hlen := h.running
  rw [honly] at hlen
  unfold LogPollHub.commit
  split
  · next hat =>
      have hcommitted := hvalid.committed h.chain (h.history _ h.chain) hscanning hat
        { epoch := scanner.epoch, head, coverageStart := first, logs := sortLogs logs } rfl rfl 0
      dsimp only
      unfold LogPollHub.send
      split
      · -- nobody listens
        next hnone =>
          refine ⟨h.chain, h.history, h.registered, h.ids, h.nodup, h.generations, h.update, ?_, h.busy,
            ?_, fun sc hsc x hx => ?_⟩
          · simpa [LogPollHub.setScanner, honly] using hlen
          · simp only [LogPollHub.setScanner, honly, List.set_cons_zero, List.mem_singleton]
            rintro sc rfl
            exact hcommitted.congr rfl rfl fun plan hplan => ⟨hplan.generation, hplan.interests⟩
          · have hin : x ∈ s.subscriptions := hx
            rw [hnone] at hin
            cases hin
      · refine ⟨h.chain, h.history, h.registered, h.ids, h.nodup, h.generations, ?_, ?_, h.busy, ?_, ?_⟩
        · intro u hu
          obtain rfl := Option.some.inj hu
          exact hscanning.planned.generation
        · simpa [LogPollHub.setScanner, honly] using hlen
        · simp only [LogPollHub.setScanner, honly, List.set_cons_zero, List.mem_singleton]
          rintro sc rfl
          exact hcommitted.congr rfl rfl fun plan hplan => ⟨hplan.generation, hplan.interests⟩
        · simp only [LogPollHub.setScanner, honly, List.set_cons_zero, List.mem_singleton]
          rintro sc rfl x hx
          obtain ⟨given, hgiven⟩ := h.subscriptions scanner (by simp [honly]) x hx
          refine ⟨given, hgiven.received, hgiven.complete,
            hgiven.sublist.trans (List.sublist_append_left _ _), fun generation window hupdate hle => ?_⟩
          simp only [Option.some.injEq, WindowUpdate.mk.injEq, Except.ok.injEq] at hupdate
          obtain ⟨rfl, rfl⟩ := hupdate
          refine ⟨scanner.commits, s.chain, rfl, ?_, fun _ => hgiven.sublist⟩
          obtain rfl := hscanning.start
          exact complete_of_scan (hscanning.planned.interests x hx hle) (lt_of_hashAt hat) hpast
            hscanning.high (hscanning.found hat).logs
  · exact h.setScanner honly (hvalid.invalidated rfl rfl rfl trivial) rfl

/-- Whatever the scanner does next. -/
theorem HubInv.scan (h : HubInv L firstTopic s) {i : ℕ} (hi : s.scanners[i]? = some scanner)
    (behavior : SubscriptionBehavior) (failure : Option String) :
    HubInv L firstTopic (s.scan behavior firstTopic i scanner failure) := by
  obtain ⟨rfl, honly⟩ := h.only hi
  have hvalid := h.scanners scanner (by simp [honly])
  have hstage := hvalid.stage
  unfold StageValid at hstage
  unfold LogPollHub.scan
  cases hat : scanner.stage with
  | ticking => exact h.tickPlan honly
  | waiting => exact h.setScanner honly (hvalid.restage rfl rfl rfl trivial) rfl
  | subscribing plan =>
      rw [hat] at hstage
      exact h.subscribeWake honly hstage behavior failure
  | head plan =>
      rw [hat] at hstage
      cases failure with
      | none => exact h.setScanner honly (hvalid.restage rfl rfl rfl hstage) rfl
      | some message => exact h.scanFailed honly hstage message
  | headHash plan head =>
      rw [hat] at hstage
      cases failure with
      | none =>
          dsimp only
          split
          · exact h.setScanner honly (hvalid.restage rfl rfl rfl trivial) rfl
          · next headHash hhash =>
              exact h.setScanner honly (hvalid.restage rfl rfl rfl ⟨hstage, s.chain, h.chain, hhash⟩) rfl
      | some message => exact h.scanFailed honly hstage message
  | checkpoint plan head headHash =>
      rw [hat] at hstage
      exact h.compareCheckpoint honly hstage.1 hstage.2 failure
  | logs plan head headHash first next logs =>
      rw [hat] at hstage
      cases failure with
      | none =>
          dsimp only
          split
          · next hle => exact h.moreLogs honly hstage hle
          · next hpast => exact h.commit honly hstage (Nat.lt_of_not_le hpast)
      | some message => exact h.scanFailed honly hstage.planned message

end LogHub

end TxGen
