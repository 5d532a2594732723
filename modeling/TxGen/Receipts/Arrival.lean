import TxGen.Receipts.Conservation

set_option autoImplicit false

/-! # The order in which receipts arrive

The blocks of a range are fetched concurrently. Where a transaction has one receipt, the composition of
the run does not depend on which block arrives first: the transactions that are counted are the same, and
each is counted under the labels of the first request that tracked it. -/

namespace TxGen

namespace Receipts

open OrderedMap KeyedList Fallible

/-! ## Collecting -/

section

variable (fetchBlockReceipts : ℕ → Except Report (List RpcReceiptDetails))

/-- The receipts of the blocks, in the order in which the blocks arrive. -/
def fetched (order : List ℕ) : List RpcReceiptDetails :=
  order.flatMap fun number => (fetchBlockReceipts number).toOption.getD []

/-- Every block has receipts. -/
def Answers (order : List ℕ) : Prop :=
  ∀ number ∈ order, ∃ details, fetchBlockReceipts number = .ok details

end

variable {fetchBlockReceipts : ℕ → Except Report (List RpcReceiptDetails)}
variable {blocks : List BlockStats} {tracked : Tracked}

theorem takeRecords_append (tracked : Tracked) (l l' : List RpcReceiptDetails) :
    (takeRecords tracked (l ++ l')).1 =
      (takeRecords tracked l).1 ++ (takeRecords (takeRecords tracked l).2 l').1 := by
  induction l generalizing tracked with
  | nil => rfl
  | cons details l ih =>
      rw [List.cons_append, takeRecords, takeRecords]
      split
      · exact ih tracked
      · simp only [ih, List.append_assoc]

/-- The blocks are read as if their receipts were one list. -/
theorem collectArrived_eq_ok {order : List ℕ} {records : List ReceiptGasRecord} :
    collectArrived fetchBlockReceipts tracked order = .ok records ↔
      Answers fetchBlockReceipts order ∧
        (takeRecords tracked (fetched fetchBlockReceipts order)).1 = records := by
  induction order generalizing tracked records with
  | nil => simp [collectArrived, Answers, fetched, takeRecords]
  | cons number order ih =>
      have hfetched : fetched fetchBlockReceipts (number :: order) =
          (fetchBlockReceipts number).toOption.getD [] ++ fetched fetchBlockReceipts order := rfl
      rw [collectArrived, hfetched, Answers, List.forall_mem_cons]
      cases hfetch : fetchBlockReceipts number with
      | error report => simp [bind, Except.bind]
      | ok details =>
          rw [takeRecords_append]
          show (do
            let rest ← collectArrived fetchBlockReceipts (takeRecords tracked details).2 order
            return (takeRecords tracked details).1 ++ rest) = Except.ok records ↔ _
          constructor
          · intro h
            obtain ⟨rest, hrest, hok⟩ := bind_ok.1 h
            obtain ⟨hanswers, rfl⟩ := ih.1 hrest
            exact ⟨⟨⟨details, rfl⟩, hanswers⟩, Except.ok.inj hok⟩
          · rintro ⟨⟨-, hanswers⟩, rfl⟩
            exact bind_ok.2 ⟨_, ih.2 ⟨hanswers, rfl⟩, rfl⟩

/-- A tracked transaction has a request. -/
def Tracked.Requested (tracked : Tracked) : Prop :=
  ∀ txHash requests, tracked txHash = some requests → requests ≠ []

theorem Tracked.Requested.update (h : tracked.Requested) (txHash : BitVec 256)
    {requests : Option (List ReceiptRequest)} (hnew : ∀ l, requests = some l → l ≠ []) :
    Tracked.Requested (Function.update tracked txHash requests) := by
  intro hash l hl
  by_cases hhash : hash = txHash
  · subst hhash
    rw [Function.update_self] at hl
    exact hnew l hl
  · rw [Function.update_of_ne hhash] at hl
    exact h hash l hl

theorem trackRequests_requested (requests : List ReceiptRequest) :
    (trackRequests requests).Requested := by
  unfold trackRequests
  dsimp only
  have hstart : Tracked.Requested fun _ => none := nofun
  generalize (fun _ => none : Tracked) = tracked at hstart ⊢
  generalize ([] : List (BitVec 256 × ReceiptMetricLabels × Option ℕ)) = seen
  induction requests generalizing tracked seen with
  | nil => exact hstart
  | cons request requests ih =>
      rw [List.foldl_cons]
      split
      · exact ih tracked hstart seen
      · refine ih _ (hstart.update _ fun l hl => ?_) _
        cases hl
        simp

/-! ## What is counted of what arrives -/

/-- A transaction has one receipt. -/
def Consistent (details : List RpcReceiptDetails) : Prop :=
  ∀ a ∈ details, ∀ b ∈ details, a.txHash = b.txHash → a = b

/-- The receipt is one of a transaction that used gas in a measured block. -/
def RpcReceiptDetails.countable (blocks : List BlockStats) (details : RpcReceiptDetails) : Bool :=
  details.gasUsed ≠ 0 && details.blockNumber.any fun number => number ∈ blocks.map (·.number)

/-- The record of a receipt for the first request that tracked its transaction. -/
def firstRecord (tracked : Tracked) (details : RpcReceiptDetails) : ReceiptGasRecord :=
  gasRecord details
    (((tracked details.txHash).getD [untracked details.txHash]).headD (untracked details.txHash))

/-- The transactions that used gas in a measured block. -/
def measuredTxs (blocks : List BlockStats) (details : List RpcReceiptDetails) : List RpcReceiptDetails :=
  firsts RpcReceiptDetails.txHash [] (details.filter (·.countable blocks))

theorem filter_requests (blocks : List BlockStats) (d : RpcReceiptDetails)
    (requests : List ReceiptRequest) :
    (requests.map (gasRecord d)).filter (countable blocks) =
      if d.countable blocks = true then requests.map (gasRecord d) else [] := by
  have hsame (request : ReceiptRequest) : countable blocks (gasRecord d request) = d.countable blocks :=
    rfl
  induction requests with
  | nil => simp
  | cons request requests ih =>
      rw [List.map_cons, List.filter_cons, hsame, ih]
      split <;> rfl

/-- Of the records of a receipt only the first one can be counted. -/
theorem firsts_requests (d : RpcReceiptDetails) {requests : List ReceiptRequest} (h : requests ≠ [])
    (seen : List (BitVec 256)) (l : List ReceiptGasRecord) :
    firsts ReceiptGasRecord.txHash seen (requests.map (gasRecord d) ++ l) =
      if d.txHash ∈ seen then firsts ReceiptGasRecord.txHash seen l
      else gasRecord d (requests.headD (untracked d.txHash)) ::
        firsts ReceiptGasRecord.txHash (d.txHash :: seen) l := by
  have hskip (seen : List (BitVec 256)) (hseen : d.txHash ∈ seen) (requests : List ReceiptRequest) :
      firsts ReceiptGasRecord.txHash seen (requests.map (gasRecord d) ++ l) =
        firsts ReceiptGasRecord.txHash seen l := by
    refine firsts_append_of_seen (fun record hrecord => ?_) l
    obtain ⟨request, -, rfl⟩ := List.mem_map.1 hrecord
    exact hseen
  split
  · next hseen => exact hskip seen hseen requests
  · next hseen =>
      cases requests with
      | nil => exact absurd rfl h
      | cons request requests =>
          have hfirst : (gasRecord d request).txHash ∉ seen := hseen
          rw [List.map_cons, List.cons_append, firsts, if_neg hfirst]
          exact congrArg _ (hskip _ List.mem_cons_self requests)

/-- Of what was taken, the first record of each transaction is counted. -/
theorem counted_takeRecords {tracked₀ : Tracked} {details : List RpcReceiptDetails}
    (hconsistent : Consistent details) (hrequested : tracked.Requested) (seen : List (BitVec 256))
    (hagree : ∀ d ∈ details, d.countable blocks = true → d.txHash ∉ seen →
      tracked d.txHash = tracked₀ d.txHash) :
    firsts ReceiptGasRecord.txHash seen ((takeRecords tracked details).1.filter (countable blocks)) =
      (firsts RpcReceiptDetails.txHash seen (details.filter (·.countable blocks))).map
        (firstRecord tracked₀) := by
  induction details generalizing tracked seen with
  | nil => rfl
  | cons d details ih =>
      have hconsistent' : Consistent details := fun a ha b hb =>
        hconsistent a (List.mem_cons_of_mem d ha) b (List.mem_cons_of_mem d hb)
      obtain ⟨hd, hrest⟩ := List.forall_mem_cons.1 hagree
      rw [takeRecords]
      by_cases hgas : d.gasUsed = 0
      · rw [if_pos hgas, List.filter_cons_of_neg (by simp [RpcReceiptDetails.countable, hgas])]
        exact ih hconsistent' hrequested seen hrest
      · rw [if_neg hgas]
        have hrequested' : Tracked.Requested (Function.update tracked d.txHash none) :=
          hrequested.update _ nofun
        -- no receipt that is still to be counted is of this transaction
        have hagree' (seen' : List (BitVec 256)) (hsub : ∀ hash ∈ seen, hash ∈ seen')
            (hmem : d.countable blocks = true → d.txHash ∈ seen') :
            ∀ d' ∈ details, d'.countable blocks = true → d'.txHash ∉ seen' →
              Function.update tracked d.txHash none d'.txHash = tracked₀ d'.txHash := by
          intro d' hd' hcount hnew
          have hne : d'.txHash ≠ d.txHash := by
            intro heq
            obtain rfl := hconsistent d' (List.mem_cons_of_mem d hd') d List.mem_cons_self heq
            exact hnew (hmem hcount)
          rw [Function.update_of_ne hne]
          exact hrest d' hd' hcount fun hseen => hnew (hsub _ hseen)
        have hrequests : (tracked d.txHash).getD [untracked d.txHash] ≠ [] := by
          cases hlookup : tracked d.txHash with
          | none => simp
          | some requests => exact hrequested _ _ hlookup
        dsimp only
        rw [List.filter_append, filter_requests]
        by_cases hcount : d.countable blocks = true
        · rw [if_pos hcount, List.filter_cons_of_pos hcount, firsts_requests d hrequests, firsts]
          split
          · next hseen =>
              exact ih hconsistent' hrequested' seen (hagree' seen (fun _ h => h) fun _ => hseen)
          · next hseen =>
              rw [List.map_cons, firstRecord, ← hd hcount hseen]
              refine congrArg _ (ih hconsistent' hrequested' _ ?_)
              exact hagree' _ (fun _ h => List.mem_cons_of_mem _ h) fun _ => List.mem_cons_self
        · rw [if_neg hcount, List.filter_cons_of_neg hcount, List.nil_append]
          exact ih hconsistent' hrequested' seen
            (hagree' seen (fun _ h => h) fun hc => absurd hc hcount)

/-! ## The composition of a run -/

section

variable {φ : Type} (zero : φ) (percent : ℕ → ℕ → φ)
variable (fetchBlockReceipts : ℕ → Except Report (List RpcReceiptDetails))
variable (requests : List ReceiptRequest) (startBlock endBlock : ℕ) (blocks : List BlockStats)

/-- `report.receipt_records.retain(..)`: the records of the measured blocks. -/
def retainMeasured (records : List ReceiptGasRecord) : List ReceiptGasRecord :=
  records.filter fun record =>
    record.blockNumber.any fun number => number ∈ blocks.map (·.number)

/-- The composition that is made of the blocks of a range after their receipts have arrived. -/
def composeRun (order : List ℕ) : Except Report (RunComposition φ) := do
  let records ← finish fetchBlockReceipts requests startBlock endBlock order
  blockComposition zero percent (retainMeasured blocks records) blocks

/-- An order in which the blocks of the range may arrive. -/
def ArrivalOrder (order : List ℕ) : Prop :=
  order.Perm (List.range' startBlock (endBlock + 1 - startBlock))

/-- The transactions that used gas in a measured block, as they are counted. -/
def countedTxs (order : List ℕ) : List ReceiptGasRecord :=
  (measuredTxs blocks (fetched fetchBlockReceipts order)).map (firstRecord (trackRequests requests))

end

section

variable {φ : Type} {zero : φ} {percent : ℕ → ℕ → φ}
variable {requests : List ReceiptRequest} {startBlock endBlock : ℕ} {order order' : List ℕ}

theorem counted_retainMeasured (blocks : List BlockStats) (records : List ReceiptGasRecord) :
    counted blocks (retainMeasured blocks records) = counted blocks records := by
  unfold counted retainMeasured
  rw [List.filter_filter]
  congr 1
  refine List.filter_congr fun record _ => ?_
  unfold countable
  rw [Bool.and_assoc, Bool.and_self]

theorem fetched_perm (h : order.Perm order') :
    (fetched fetchBlockReceipts order).Perm (fetched fetchBlockReceipts order') :=
  h.flatMap_right _

theorem Answers.perm (h : Answers fetchBlockReceipts order) (hperm : order.Perm order') :
    Answers fetchBlockReceipts order' := fun number hnumber => h number (hperm.mem_iff.2 hnumber)

theorem Consistent.perm {details details' : List RpcReceiptDetails} (h : Consistent details)
    (hperm : details.Perm details') : Consistent details' := fun a ha b hb =>
  h a (hperm.mem_iff.2 ha) b (hperm.mem_iff.2 hb)

theorem finish_eq_ok (horder : ArrivalOrder startBlock endBlock order)
    {records : List ReceiptGasRecord} :
    finish fetchBlockReceipts requests startBlock endBlock order = .ok records ↔
      Answers fetchBlockReceipts order ∧
        (takeRecords (trackRequests requests) (fetched fetchBlockReceipts order)).1 = records := by
  rw [finish, ← collectArrived_eq_ok]
  split
  · next hempty =>
      -- no block is in the range
      have hrange : List.range' startBlock (endBlock + 1 - startBlock) = [] := by
        rw [Nat.sub_eq_zero_of_le hempty]
        rfl
      rw [ArrivalOrder, hrange, List.perm_nil] at horder
      subst horder
      rfl
  · rfl

/-- What is counted of the records of a run. -/
theorem counted_finish (horder : ArrivalOrder startBlock endBlock order)
    (hconsistent : Consistent (fetched fetchBlockReceipts order)) {records : List ReceiptGasRecord}
    (h : finish fetchBlockReceipts requests startBlock endBlock order = .ok records) :
    counted blocks (retainMeasured blocks records) =
      countedTxs fetchBlockReceipts requests blocks order := by
  obtain ⟨-, rfl⟩ := (finish_eq_ok horder).1 h
  rw [counted_retainMeasured]
  exact counted_takeRecords hconsistent (trackRequests_requested requests) [] fun _ _ _ _ => rfl

theorem countedTxs_perm (hconsistent : Consistent (fetched fetchBlockReceipts order))
    (hperm : order.Perm order') :
    (countedTxs fetchBlockReceipts requests blocks order).Perm
      (countedTxs fetchBlockReceipts requests blocks order') := by
  refine (firsts_perm (fun a ha b hb => ?_) ((fetched_perm hperm).filter _) []).map _
  exact hconsistent a (List.mem_of_mem_filter ha) b (List.mem_of_mem_filter hb)

/-- What a run composes, it composes whatever block arrives first. -/
theorem composeRun_perm (horder : ArrivalOrder startBlock endBlock order)
    (hconsistent : Consistent (fetched fetchBlockReceipts order)) (hperm : order.Perm order')
    {result : RunComposition φ}
    (h : composeRun zero percent fetchBlockReceipts requests startBlock endBlock blocks order =
      .ok result) :
    composeRun zero percent fetchBlockReceipts requests startBlock endBlock blocks order' =
      .ok result := by
  have horder' : ArrivalOrder startBlock endBlock order' := hperm.symm.trans horder
  obtain ⟨records, hrecords, hcompose⟩ := bind_ok.1 h
  obtain ⟨hanswers, -⟩ := (finish_eq_ok horder).1 hrecords
  have hrecords' : finish fetchBlockReceipts requests startBlock endBlock order' = .ok _ :=
    (finish_eq_ok horder').2 ⟨hanswers.perm hperm, rfl⟩
  refine bind_ok.2 ⟨_, hrecords', ?_⟩
  rw [← hcompose]
  refine blockComposition_perm zero percent ?_
  rw [counted_finish horder hconsistent hrecords,
    counted_finish horder' (hconsistent.perm (fetched_perm hperm)) hrecords']
  exact (countedTxs_perm hconsistent hperm).symm

/-! ## The gas of a measured block -/

/-- The gas that is expected of a number is that of the last block that has it. -/
theorem expectedGas_eq {before after : List BlockStats} {block : BlockStats}
    (hlast : block.number ∉ after.map (·.number)) :
    expectedGas (before ++ block :: after) block.number = block.gasUsed := by
  have hskip : lookup? Prod.fst block.number
      (after.map fun block => (block.number, block.gasUsed)).reverse = none := by
    refine lookup?_eq_none.2 fun entry hentry heq => ?_
    obtain ⟨block', hblock, rfl⟩ := List.mem_map.1 (List.mem_reverse.1 hentry)
    exact hlast (heq ▸ List.mem_map_of_mem hblock)
  rw [expectedGas, find?_ofList, List.map_append, List.map_cons, List.reverse_append,
    List.reverse_cons, List.append_assoc, lookup?_append, hskip]
  simp [lookup?_cons]

/-- The transactions of a block that are not the system's: of each its first receipt. -/
def blockTxs (details : List RpcReceiptDetails) (number : ℕ) : List RpcReceiptDetails :=
  firsts RpcReceiptDetails.txHash []
    (details.filter fun d => d.gasUsed ≠ 0 && d.blockNumber = some number)

/-- Where each transaction has one receipt, those that are counted in a block are those of the block. -/
theorem inBlock_countedTxs (hconsistent : Consistent (fetched fetchBlockReceipts order)) {number : ℕ}
    (hmeasured : number ∈ blocks.map (·.number)) :
    inBlock (countedTxs fetchBlockReceipts requests blocks order) number =
      (blockTxs (fetched fetchBlockReceipts order) number).map
        (firstRecord (trackRequests requests)) := by
  unfold inBlock countedTxs measuredTxs blockTxs
  rw [List.filter_map]
  congr 1
  rw [filter_firsts fun a ha b hb hhash => ?_]
  · rw [List.filter_filter]
    congr 1
    refine List.filter_congr fun d _ => ?_
    rw [Bool.eq_iff_iff]
    simp only [RpcReceiptDetails.countable, Bool.and_eq_true, decide_eq_true_eq, Option.any_eq_true,
      Function.comp_apply, firstRecord, gasRecord]
    constructor
    · rintro ⟨hnumber, hgas, -⟩
      exact ⟨hgas, of_decide_eq_true hnumber⟩
    · rintro ⟨hgas, hnumber⟩
      exact ⟨decide_eq_true hnumber, hgas, number, hnumber, hmeasured⟩
  · rw [hconsistent a (List.mem_of_mem_filter ha) b (List.mem_of_mem_filter hb) hhash]

/-! ## Conservation -/

/-- A composition counts each transaction of the measured blocks once. -/
theorem blockComposition_conserves {receipts : List ReceiptGasRecord} {result : RunComposition φ}
    (h : blockComposition zero percent receipts blocks = .ok result) :
    Conserves blocks (counted blocks receipts) result := by
  rcases foldlM_record_start blocks receipts with ⟨tally, hok, htally⟩ | ⟨-, herror⟩
  · rw [blockComposition, hok] at h
    refine composeTally_conserves htally (fun tx htx => ?_) h
    have hcount := (List.mem_filter.1 (mem_of_mem_firsts htx).1).2
    simp only [countable, Bool.and_eq_true, decide_eq_true_eq, Option.any_eq_true] at hcount
    obtain ⟨-, number, hnumber, hmem⟩ := hcount
    exact ⟨number, hmem, hnumber⟩
  · rw [blockComposition, herror] at h
    cases h

/-- Block composition conserves transactions and gas. Of each transaction that used gas in a measured
block one receipt is counted, and what is said of the blocks and of the run are the totals of these. Where
each transaction has one receipt, they are the transactions of the blocks, whose gas is the gas that was
measured, and the composition does not depend on the order in which the blocks arrive. -/
theorem composition_conserves (zero : φ) (percent : ℕ → ℕ → φ) (blocks : List BlockStats) :
    (∀ (receipts : List ReceiptGasRecord) (result : RunComposition φ),
      blockComposition zero percent receipts blocks = .ok result →
        Keyed ReceiptGasRecord.txHash (counted blocks receipts) ∧
        (∀ tx ∈ counted blocks receipts, tx ∈ receipts ∧ countable blocks tx = true) ∧
        (∀ receipt ∈ receipts, countable blocks receipt = true →
          ∃ tx ∈ counted blocks receipts, tx.txHash = receipt.txHash) ∧
        Conserves blocks (counted blocks receipts) result) ∧
    ∀ (fetchBlockReceipts : ℕ → Except Report (List RpcReceiptDetails))
      (requests : List ReceiptRequest) (startBlock endBlock : ℕ) (order : List ℕ),
      ArrivalOrder startBlock endBlock order → Consistent (fetched fetchBlockReceipts order) →
      ∀ result, composeRun zero percent fetchBlockReceipts requests startBlock endBlock blocks order =
          .ok result →
        Conserves blocks (countedTxs fetchBlockReceipts requests blocks order) result ∧
        (∀ before block after, blocks = before ++ block :: after →
          block.number ∉ after.map (·.number) →
            ((blockTxs (fetched fetchBlockReceipts order) block.number).map (·.gasUsed)).sum =
              block.gasUsed) ∧
        ∀ order', ArrivalOrder startBlock endBlock order' →
          composeRun zero percent fetchBlockReceipts requests startBlock endBlock blocks order' =
            .ok result := by
  refine ⟨fun receipts result hok => ⟨firsts_keyed _ _, fun tx htx => ?_, fun receipt hmem hcount => ?_,
    blockComposition_conserves hok⟩, ?_⟩
  · exact List.mem_filter.1 (mem_of_mem_firsts htx).1
  · exact exists_mem_firsts (List.mem_filter.2 ⟨hmem, hcount⟩) List.not_mem_nil
  · intro fetchBlockReceipts requests startBlock endBlock order horder hconsistent result hok
    obtain ⟨records, hrecords, hcompose⟩ := bind_ok.1 hok
    have hconserves := blockComposition_conserves hcompose
    rw [counted_finish horder hconsistent hrecords] at hconserves
    refine ⟨hconserves, fun before block after hblocks hlast => ?_, fun order' horder' =>
      composeRun_perm horder hconsistent (horder.trans horder'.symm) hok⟩
    have hmeasured : block.number ∈ blocks.map (·.number) := by simp [hblocks]
    obtain ⟨composition, hcomposition, hnumber⟩ :=
      List.mem_map.1 ((hconserves.measured block.number).2 hmeasured)
    -- the gas of its composition is the gas of its transactions, and the gas that was measured
    have hgas := hconserves.gas composition hcomposition
    rw [(hconserves.composes composition hcomposition).gasUsed, hnumber,
      inBlock_countedTxs hconsistent hmeasured] at hgas
    calc ((blockTxs (fetched fetchBlockReceipts order) block.number).map (·.gasUsed)).sum
        = (totalsOf ((blockTxs (fetched fetchBlockReceipts order) block.number).map
            (firstRecord (trackRequests requests)))).gasUsed := by
          rw [totalsOf, List.map_map]
          rfl
      _ = expectedGas blocks block.number := hgas
      _ = block.gasUsed := by rw [hblocks, expectedGas_eq hlast]

end

namespace Sample

def receipt (txHash : BitVec 256) (number gas : ℕ) : RpcReceiptDetails where
  txHash
  sender := 7
  success := true
  blockNumber := some number
  blockHash := none
  gasUsed := gas
  effectiveGasPrice := none

def request (txHash : BitVec 256) (input : String) : ReceiptRequest where
  sender := none
  txHash
  labels := [("input", input)]
  scenarioInstance := none
  submittedAtUnixMs := none

/-- A share in percent, rounded down. -/
def share (part total : ℕ) : ℕ := part * 100 / total

def requests : List ReceiptRequest := [request 1 "transfer", request 1 "replay"]

def measuredBlocks : List BlockStats := [⟨10, 30⟩, ⟨11, 60⟩]

/-- A transaction that was tracked twice, one of the system, and one that was not tracked. -/
def fetchReceipts : ℕ → Except Report (List RpcReceiptDetails)
  | 10 => .ok [receipt 1 10 30, receipt 2 10 0]
  | 11 => .ok [receipt 3 11 60]
  | _ => bail "block not found"

/-- The transaction was in block 10 when its receipts were fetched, and later in block 11. -/
def fetchReorganized : ℕ → Except Report (List RpcReceiptDetails)
  | 10 => .ok [receipt 1 10 30]
  | 11 => .ok [receipt 1 11 30]
  | _ => bail "block not found"

end Sample

theorem composition_conserves_sample :
    ∃ result, composeRun 0 Sample.share Sample.fetchReceipts Sample.requests 10 11
        Sample.measuredBlocks [10, 11] = .ok result ∧
      (∃ receipts, blockComposition 0 Sample.share receipts Sample.measuredBlocks = .ok result ∧
        Conserves Sample.measuredBlocks (counted Sample.measuredBlocks receipts) result) ∧
      ((blockTxs (fetched Sample.fetchReceipts [10, 11]) 11).map (·.gasUsed)).sum = 60 ∧
      composeRun 0 Sample.share Sample.fetchReceipts Sample.requests 10 11 Sample.measuredBlocks
        [11, 10] = .ok result := by
  have hconsistent : Consistent (fetched Sample.fetchReceipts [10, 11]) := by
    unfold Consistent
    decide
  have hcheck : (composeRun 0 Sample.share Sample.fetchReceipts Sample.requests 10 11
      Sample.measuredBlocks [10, 11]).toOption.any (fun _ => true) = true := by
    decide
  obtain ⟨result, hok, -⟩ := ok_of_check hcheck
  obtain ⟨receipts, -, hcompose⟩ := bind_ok.1 hok
  obtain ⟨hblocks, hruns⟩ := composition_conserves 0 Sample.share Sample.measuredBlocks
  obtain ⟨-, hgas, horders⟩ := hruns Sample.fetchReceipts Sample.requests 10 11 [10, 11]
    (List.Perm.refl _) hconsistent result hok
  exact ⟨result, hok, ⟨_, hcompose, (hblocks _ result hcompose).2.2.2⟩,
    hgas [⟨10, 30⟩] ⟨11, 60⟩ [] rfl List.not_mem_nil, horders [11, 10] (List.Perm.swap 10 11 [])⟩

/-- A transaction that is in two blocks is counted in the one that arrives first. -/
theorem composition_depends_on_arrival :
    ArrivalOrder 10 11 [10, 11] ∧ ArrivalOrder 10 11 [11, 10] ∧
      (composeRun 0 Sample.share Sample.fetchReorganized [] 10 11 [⟨10, 30⟩, ⟨11, 0⟩]
        [10, 11]).toOption.isSome = true ∧
      ((blockTxs (fetched Sample.fetchReorganized [10, 11]) 11).map (·.gasUsed)).sum = 30 ∧
      (composeRun 0 Sample.share Sample.fetchReorganized [] 10 11 [⟨10, 30⟩, ⟨11, 0⟩]
        [11, 10]).toOption.isSome = false := by
  unfold ArrivalOrder
  decide

end Receipts

end TxGen
