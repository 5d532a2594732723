import TxGen.Receipts.Composition

set_option autoImplicit false

/-! # Conservation of transactions and gas

A composition counts the first receipt of each transaction that used gas in a measured block. What it
says of a block and of the whole run are sums over these, so that it depends on them and not on the order
in which they were counted. -/

namespace TxGen

namespace Receipts

open OrderedMap KeyedList

/-! ## What is counted -/

/-- The receipt is one of a transaction that used gas in a measured block. -/
def countable (blocks : List BlockStats) (receipt : ReceiptGasRecord) : Bool :=
  receipt.gasUsed ≠ 0 && receipt.blockNumber.any fun number => number ∈ blocks.map (·.number)

/-- The receipts that are counted: of each transaction the first one. -/
def counted (blocks : List BlockStats) (receipts : List ReceiptGasRecord) : List ReceiptGasRecord :=
  firsts ReceiptGasRecord.txHash [] (receipts.filter (countable blocks))

/-- The totals of some transactions. -/
def totalsOf (txs : List ReceiptGasRecord) : KindTotals where
  txCount := txs.length
  gasUsed := (txs.map (·.gasUsed)).sum
  revertedTxCount := txs.countP fun tx => !tx.success

theorem totalsOf_perm {txs txs' : List ReceiptGasRecord} (h : txs.Perm txs') :
    totalsOf txs = totalsOf txs' := by
  unfold totalsOf
  rw [h.length_eq, (h.map _).sum_eq, h.countP_eq]

/-- The gas of the transactions of each input fits into 256 bits. -/
def Fits (txs : List ReceiptGasRecord) : Prop :=
  ∀ input, (totalsOf (part ReceiptGasRecord.input txs input)).gasUsed < 2 ^ 256

theorem Fits.perm {txs txs' : List ReceiptGasRecord} (h : Fits txs) (hperm : txs.Perm txs') :
    Fits txs' := fun input => totalsOf_perm (hperm.filter _) ▸ h input

/-- The transactions of a block. -/
def inBlock (txs : List ReceiptGasRecord) (number : ℕ) : List ReceiptGasRecord :=
  txs.filter fun tx => tx.blockNumber = some number

/-! ## Counting -/

def overflow : Report := ["composition gas total overflow"]

theorem gasUsed_part_le {txs txs' : List ReceiptGasRecord} (h : txs.Sublist txs')
    (input : WithBot String) : (totalsOf (part ReceiptGasRecord.input txs input)).gasUsed ≤
      (totalsOf (part ReceiptGasRecord.input txs' input)).gasUsed :=
  ((h.filter _).map _).sum_le_sum fun _ _ => Nat.zero_le _

theorem totalsOf_concat (txs : List ReceiptGasRecord) (tx : ReceiptGasRecord) :
    totalsOf (txs ++ [tx]) = {
      txCount := (totalsOf txs).txCount + 1
      gasUsed := (totalsOf txs).gasUsed + tx.gasUsed
      revertedTxCount := (totalsOf txs).revertedTxCount + if tx.success then 0 else 1 } := by
  cases hsuccess : tx.success <;> simp [totalsOf, hsuccess]

/-- What recording does to the kinds of some transactions. -/
theorem recordKind_eq {kinds : Kinds} {txs : List ReceiptGasRecord}
    (h : Classifies ReceiptGasRecord.input totalsOf txs kinds) (tx : ReceiptGasRecord) :
    recordKind kinds tx =
      if (totalsOf (part ReceiptGasRecord.input (txs ++ [tx]) tx.input)).gasUsed < 2 ^ 256 then
        .ok (kinds.insert tx.input
          (totalsOf (part ReceiptGasRecord.input txs tx.input ++ [tx])))
      else .error overflow := by
  have hfound : (kinds.find? tx.input).getD {} =
      totalsOf (part ReceiptGasRecord.input txs tx.input) := by
    rw [h tx.input]
    split
    · next hnone =>
        rw [hnone]
        rfl
    · rfl
  rw [part_concat, if_pos rfl, recordKind, hfound, KindTotals.record, addGas, totalsOf_concat]
  split <;> rfl

/-- The tally of the transactions that were counted. -/
structure Describes (blocks : List BlockStats) (tally : Tally) (txs : List ReceiptGasRecord) :
    Prop where
  outside : ∀ number, number ∉ blocks.map (·.number) → tally.perBlock.find? number = none
  measured : ∀ number, number ∈ blocks.map (·.number) → ∃ kinds,
    tally.perBlock.find? number = some kinds ∧
      Classifies ReceiptGasRecord.input totalsOf (inBlock txs number) kinds
  summary : Classifies ReceiptGasRecord.input totalsOf txs tally.summary
  fits : Fits txs

variable {blocks : List BlockStats} {tally : Tally} {txs : List ReceiptGasRecord}

theorem describes_start (blocks : List BlockStats) : Describes blocks (Tally.start blocks) [] := by
  have hfind (number : ℕ) : (Tally.start blocks).perBlock.find? number =
      if number ∈ blocks.map (·.number) then some OrderedMap.empty else none := by
    rw [Tally.start, find?_ofList, ← List.map_reverse]
    split
    · next hmem =>
        cases hlookup : lookup? Prod.fst number
            (blocks.reverse.map fun block => (block.number, (OrderedMap.empty : Kinds))) with
        | none =>
            obtain ⟨block, hblock, rfl⟩ := List.mem_map.1 hmem
            exact absurd rfl (lookup?_eq_none.1 hlookup _
              (List.mem_map_of_mem (List.mem_reverse.2 hblock)))
        | some entry =>
            obtain ⟨block, -, rfl⟩ := List.mem_map.1 (mem_of_lookup? hlookup)
            rfl
    · next hmem =>
        rw [lookup?_eq_none.2]
        · rfl
        · intro entry hentry heq
          obtain ⟨block, hblock, rfl⟩ := List.mem_map.1 hentry
          exact hmem (heq ▸ List.mem_map_of_mem (List.mem_reverse.1 hblock))
  refine ⟨fun number hout => ?_, fun number hin => ?_, Classifies.nil, fun _ => ?_⟩
  · rw [hfind, if_neg hout]
  · exact ⟨OrderedMap.empty, by rw [hfind, if_pos hin], Classifies.nil⟩
  · simp [part, totalsOf]

/-- A receipt that is not counted changes nothing. -/
theorem record_skip (h : Describes blocks tally txs) {receipt : ReceiptGasRecord}
    (hskip : countable blocks receipt = true → receipt.txHash ∈ tally.seen) :
    tally.record receipt = .ok tally := by
  unfold Tally.record
  split
  · rfl
  · next hgas =>
      cases hnumber : receipt.blockNumber with
      | none => rfl
      | some number =>
          dsimp only
          by_cases hmem : number ∈ blocks.map (·.number)
          · have hseen : receipt.txHash ∈ tally.seen := by
              refine hskip ?_
              simp [countable, hgas, hnumber, List.mem_map.1 hmem]
            obtain ⟨kinds, hkinds, -⟩ := h.measured number hmem
            rw [hkinds]
            exact if_pos hseen
          · rw [h.outside number hmem]

theorem inBlock_concat (txs : List ReceiptGasRecord) (tx : ReceiptGasRecord) (number : ℕ) :
    inBlock (txs ++ [tx]) number =
      if tx.blockNumber = some number then inBlock txs number ++ [tx] else inBlock txs number := by
  unfold inBlock
  rw [List.filter_append]
  by_cases hnumber : tx.blockNumber = some number <;> simp [hnumber]

/-- A receipt that is counted is counted in its block and in the summary. -/
theorem record_count (h : Describes blocks tally txs) {receipt : ReceiptGasRecord}
    (hcount : countable blocks receipt = true) (hnew : receipt.txHash ∉ tally.seen) :
    if (totalsOf (part ReceiptGasRecord.input (txs ++ [receipt]) receipt.input)).gasUsed < 2 ^ 256 then
      ∃ tally', tally.record receipt = .ok tally' ∧ Describes blocks tally' (txs ++ [receipt]) ∧
        tally'.seen = receipt.txHash :: tally.seen
    else tally.record receipt = .error overflow := by
  simp only [countable, Bool.and_eq_true, decide_eq_true_eq, Option.any_eq_true] at hcount
  obtain ⟨hgas, number, hnumber, hmem⟩ := hcount
  obtain ⟨kinds, hkinds, hclasses⟩ := h.measured number hmem
  have hrecord : tally.record receipt = (do
      let kinds ← recordKind kinds receipt
      let summary ← recordKind tally.summary receipt
      return {
        perBlock := tally.perBlock.insert number kinds
        summary
        seen := receipt.txHash :: tally.seen }) := by
    simp only [Tally.record, hgas, if_false, hnumber, hkinds, hnew]
  have hblock : inBlock (txs ++ [receipt]) number = inBlock txs number ++ [receipt] := by
    rw [inBlock_concat, if_pos hnumber]
  -- what overflows in the block overflows in the summary
  have hle : (totalsOf (part ReceiptGasRecord.input (inBlock (txs ++ [receipt]) number)
        receipt.input)).gasUsed ≤
      (totalsOf (part ReceiptGasRecord.input (txs ++ [receipt]) receipt.input)).gasUsed :=
    gasUsed_part_le List.filter_sublist _
  rw [hrecord, recordKind_eq hclasses, recordKind_eq h.summary, ← hblock]
  split
  · next hsummary =>
      rw [if_pos (lt_of_le_of_lt hle hsummary)]
      refine ⟨_, rfl, ⟨fun n hout => ?_, fun n hin => ?_, h.summary.insert receipt, fun input => ?_⟩, rfl⟩
      · rw [find?_insert, if_neg, h.outside n hout]
        rintro rfl
        exact hout hmem
      · rw [find?_insert]
        by_cases hn : number = n
        · subst hn
          rw [if_pos rfl, hblock]
          exact ⟨_, rfl, hclasses.insert receipt⟩
        · rw [if_neg hn, inBlock_concat, if_neg (by simpa [hnumber] using hn)]
          exact h.measured n hin
      · by_cases hinput : receipt.input = input
        · subst hinput
          exact hsummary
        · rw [part_concat, if_neg hinput]
          exact h.fits input
  · split <;> rfl

/-- Counting receipts after others: it ends with their tally, if the gas fits. -/
theorem foldlM_record (h : Describes blocks tally txs) (receipts : List ReceiptGasRecord) :
    let txs' := txs ++ firsts ReceiptGasRecord.txHash tally.seen (receipts.filter (countable blocks))
    (∃ tally', receipts.foldlM Tally.record tally = .ok tally' ∧ Describes blocks tally' txs') ∨
      (¬ Fits txs' ∧ receipts.foldlM Tally.record tally = .error overflow) := by
  induction receipts generalizing tally txs with
  | nil => exact Or.inl ⟨tally, rfl, by simpa [firsts] using h⟩
  | cons receipt receipts ih =>
      rw [List.foldlM_cons]
      by_cases hcount : countable blocks receipt = true
      · by_cases hseen : receipt.txHash ∈ tally.seen
        · rw [record_skip h fun _ => hseen, List.filter_cons, if_pos hcount, firsts, if_pos hseen]
          exact ih h
        · have hrecord := record_count h hcount hseen
          rw [List.filter_cons, if_pos hcount, firsts, if_neg hseen]
          split at hrecord
          · obtain ⟨tally', hrecord, htally, hseen'⟩ := hrecord
            rw [hrecord, List.append_cons, ← hseen']
            exact ih htally
          · next hbig =>
              refine Or.inr ⟨fun hfits => ?_, by rw [hrecord]; rfl⟩
              -- what did not fit is a part of all that is to be counted
              refine hbig (lt_of_le_of_lt (gasUsed_part_le ?_ _) (hfits receipt.input))
              exact (List.Sublist.refl txs).append ((List.nil_sublist _).cons_cons receipt)
      · rw [record_skip h fun hc => absurd hc hcount, List.filter_cons, if_neg hcount]
        exact ih h

/-- What all receipts are counted to. -/
theorem foldlM_record_start (blocks : List BlockStats) (receipts : List ReceiptGasRecord) :
    (∃ tally, receipts.foldlM Tally.record (Tally.start blocks) = .ok tally ∧
        Describes blocks tally (counted blocks receipts)) ∨
      (¬ Fits (counted blocks receipts) ∧
        receipts.foldlM Tally.record (Tally.start blocks) = .error overflow) :=
  foldlM_record (describes_start blocks) receipts

/-- A tally is known by the transactions that were counted, whatever their order. -/
theorem Describes.unique {tally' : Tally} {txs' : List ReceiptGasRecord}
    (h : Describes blocks tally txs) (h' : Describes blocks tally' txs') (hperm : txs.Perm txs') :
    tally.perBlock = tally'.perBlock ∧ tally.summary = tally'.summary := by
  refine ⟨ext_find? fun number => ?_, h.summary.unique totalsOf_perm h'.summary hperm⟩
  by_cases hmem : number ∈ blocks.map (·.number)
  · obtain ⟨kinds, hkinds, hclasses⟩ := h.measured number hmem
    obtain ⟨kinds', hkinds', hclasses'⟩ := h'.measured number hmem
    rw [hkinds, hkinds', hclasses.unique totalsOf_perm hclasses' (hperm.filter _)]
  · rw [h.outside number hmem, h'.outside number hmem]

/-- The composition of a run does not depend on the order of what was counted. -/
theorem blockComposition_perm {φ : Type} (zero : φ) (percent : ℕ → ℕ → φ)
    {receipts receipts' : List ReceiptGasRecord}
    (hperm : (counted blocks receipts).Perm (counted blocks receipts')) :
    blockComposition zero percent receipts blocks = blockComposition zero percent receipts' blocks := by
  unfold blockComposition
  rcases foldlM_record_start blocks receipts with ⟨tally, hok, htally⟩ | ⟨hbig, herror⟩ <;>
    rcases foldlM_record_start blocks receipts' with ⟨tally', hok', htally'⟩ | ⟨hbig', herror'⟩
  · obtain ⟨hblocks, hsummary⟩ := htally.unique htally' hperm
    rw [hok, hok']
    show composeTally zero percent blocks tally = composeTally zero percent blocks tally'
    unfold composeTally
    rw [hblocks, hsummary]
  · exact absurd (htally.fits.perm hperm) hbig'
  · exact absurd (htally'.fits.perm hperm.symm) hbig
  · rw [herror, herror']

/-! ## What a composition says -/

section

variable {φ : Type} {zero : φ} {percent : ℕ → ℕ → φ}

def KindComposition.totals (kind : KindComposition φ) : KindTotals where
  txCount := kind.txCount
  gasUsed := kind.gasUsed
  revertedTxCount := kind.revertedTxCount

/-- What is said of some transactions: their totals, and those of each input that they have. -/
structure Composes (txs : List ReceiptGasRecord) (composition : TransactionComposition φ) : Prop where
  txCount : composition.txCount = (totalsOf txs).txCount
  gasUsed : composition.gasUsed = (totalsOf txs).gasUsed
  inputs : composition.kinds.Pairwise fun kind kind' => kind.input < kind'.input
  covers : ∀ tx ∈ txs, ∃ kind ∈ composition.kinds, kind.input = tx.input
  kinds : ∀ kind ∈ composition.kinds, part ReceiptGasRecord.input txs kind.input ≠ [] ∧
    kind.totals = totalsOf (part ReceiptGasRecord.input txs kind.input)
  kindCounts : (composition.kinds.map (·.txCount)).sum = (totalsOf txs).txCount
  kindGas : (composition.kinds.map (·.gasUsed)).sum = (totalsOf txs).gasUsed
  kindReverts : (composition.kinds.map (·.revertedTxCount)).sum = (totalsOf txs).revertedTxCount

theorem foldlM_addGas {l : List ℕ} {total sum : ℕ} (h : l.foldlM addGas total = .ok sum) :
    sum = total + l.sum := by
  induction l generalizing total with
  | nil =>
      cases h
      simp
  | cons gas l ih =>
      rw [List.foldlM_cons] at h
      obtain ⟨total', hadd, hrest⟩ := bind_eq_ok.1 h
      rw [addGas] at hadd
      split at hadd
      · cases hadd
        rw [ih hrest, List.sum_cons, Nat.add_assoc]
      · cases hadd

theorem totalsOf_revertedTxCount (txs : List ReceiptGasRecord) :
    (totalsOf txs).revertedTxCount = (txs.map fun tx => if tx.success then 0 else 1).sum := by
  induction txs with
  | nil => rfl
  | cons tx txs ih =>
      rw [List.map_cons, List.sum_cons, ← ih]
      cases hsuccess : tx.success <;> simp [totalsOf, hsuccess, Nat.add_comm]

theorem summarize_composes {kinds : Kinds} {composition : TransactionComposition φ}
    (hclasses : Classifies ReceiptGasRecord.input totalsOf txs kinds)
    (h : summarize zero percent kinds = .ok composition) : Composes txs composition := by
  obtain ⟨gasUsed, hgas, h⟩ := bind_eq_ok.1 h
  cases h
  have hgasUsed := foldlM_addGas hgas
  rw [Nat.zero_add] at hgasUsed
  have hcount : (kinds.values.map (·.txCount)).sum = (totalsOf txs).txCount := by
    rw [hclasses.sum_values KindTotals.txCount (fun _ => 1) (by simp [totalsOf])]
    simp [totalsOf]
  have hgasSum : (kinds.values.map (·.gasUsed)).sum = (totalsOf txs).gasUsed :=
    hclasses.sum_values KindTotals.gasUsed (·.gasUsed) fun _ => rfl
  have hreverts : (kinds.values.map (·.revertedTxCount)).sum = (totalsOf txs).revertedTxCount := by
    rw [totalsOf_revertedTxCount]
    exact hclasses.sum_values KindTotals.revertedTxCount _ totalsOf_revertedTxCount
  refine ⟨hcount, hgasUsed.trans hgasSum, ?_, fun tx htx => ?_, fun kind hkind => ?_, ?_, ?_, ?_⟩
  · exact List.pairwise_map.2 kinds.sorted
  · exact ⟨_, List.mem_map_of_mem (hclasses.exists_entry htx), rfl⟩
  · obtain ⟨⟨input, totals⟩, hentry, rfl⟩ := List.mem_map.1 hkind
    obtain ⟨hpart, rfl⟩ := hclasses.mem_entries.1 hentry
    exact ⟨hpart, rfl⟩
  all_goals
    rw [List.map_map]
    simp only [OrderedMap.values, List.map_map] at hcount hgasSum hreverts
    assumption

/-- What a composition says of an input; one that it does not have has no transactions. -/
def TransactionComposition.totals (composition : TransactionComposition φ) (input : WithBot String) :
    KindTotals :=
  ((lookup? KindComposition.input input composition.kinds).map KindComposition.totals).getD {}

theorem Composes.totals {composition : TransactionComposition φ} (h : Composes txs composition)
    (input : WithBot String) :
    composition.totals input = totalsOf (part ReceiptGasRecord.input txs input) := by
  unfold TransactionComposition.totals
  cases hlookup : lookup? KindComposition.input input composition.kinds with
  | none =>
      have hpart : part ReceiptGasRecord.input txs input = [] := by
        refine List.filter_eq_nil_iff.2 fun tx htx hinput => ?_
        obtain ⟨kind, hkind, heq⟩ := h.covers tx htx
        exact lookup?_eq_none.1 hlookup kind hkind (heq.trans (of_decide_eq_true hinput))
      rw [hpart]
      rfl
  | some kind =>
      have hinput : kind.input = input := key_of_lookup? hlookup
      rw [← hinput]
      exact (h.kinds kind (mem_of_lookup? hlookup)).2

/-- What the composition of a run says of the transactions that were counted. -/
structure Conserves (blocks : List BlockStats) (txs : List ReceiptGasRecord)
    (result : RunComposition φ) : Prop where
  blockCount : result.blockCount = blocks.length
  ascending : result.blocks.Pairwise fun block block' => block.blockNumber < block'.blockNumber
  measured : ∀ number, number ∈ result.blocks.map (·.blockNumber) ↔ number ∈ blocks.map (·.number)
  composes : ∀ block ∈ result.blocks, Composes (inBlock txs block.blockNumber) block.composition
  gas : ∀ block ∈ result.blocks, block.composition.gasUsed = expectedGas blocks block.blockNumber
  summary : Composes txs result.summary
  summaryCount : (result.blocks.map (·.composition.txCount)).sum = result.summary.txCount
  summaryGas : (result.blocks.map (·.composition.gasUsed)).sum = result.summary.gasUsed
  summaryKinds : ∀ input,
    (result.blocks.map fun block => (block.composition.totals input).txCount).sum =
        (result.summary.totals input).txCount ∧
      (result.blocks.map fun block => (block.composition.totals input).gasUsed).sum =
        (result.summary.totals input).gasUsed ∧
      (result.blocks.map fun block => (block.composition.totals input).revertedTxCount).sum =
        (result.summary.totals input).revertedTxCount

/-- A sum over transactions of measured blocks is the sum over the blocks. -/
theorem sum_inBlock {numbers : List ℕ} (hnumbers : numbers.Nodup)
    (hcover : ∀ tx ∈ txs, ∃ number ∈ numbers, tx.blockNumber = some number)
    (w : ReceiptGasRecord → ℕ) :
    (numbers.map fun number => ((inBlock txs number).map w).sum).sum = (txs.map w).sum := by
  let key : ReceiptGasRecord → WithBot ℕ := fun tx => tx.blockNumber
  have hkeys : (numbers.map WithBot.some).Nodup := hnumbers.map WithBot.coe_injective
  have hmem : ∀ tx ∈ txs, key tx ∈ numbers.map WithBot.some := by
    intro tx htx
    obtain ⟨number, hnumber, heq⟩ := hcover tx htx
    exact List.mem_map.2 ⟨number, hnumber, heq.symm⟩
  rw [← sum_parts hkeys hmem w, List.map_map]
  rfl

/-- The compositions of the blocks stand in the order of the blocks. -/
theorem compositions_spec {entries : List (ℕ × Kinds)} {compositions : List (BlockComposition φ)}
    (h : List.Forall₂ (fun entry block => (do
      let composition ← summarize zero percent entry.2
      return { blockNumber := entry.1, composition }) = Except.ok block) entries compositions) :
    compositions.map (·.blockNumber) = entries.map Prod.fst ∧
      ∀ block ∈ compositions, ∃ kinds, (block.blockNumber, kinds) ∈ entries ∧
        summarize zero percent kinds = .ok block.composition := by
  induction h with
  | nil => exact ⟨rfl, List.forall_mem_nil _⟩
  | cons hstep hsteps ih =>
      rename_i entry block entries compositions
      obtain ⟨hnumbers, hblocks⟩ := ih
      obtain ⟨composition, hsummarize, heq⟩ := bind_eq_ok.1 hstep
      cases heq
      refine ⟨by rw [List.map_cons, List.map_cons, hnumbers], List.forall_mem_cons.2 ⟨?_, ?_⟩⟩
      · exact ⟨entry.2, List.mem_cons_self, hsummarize⟩
      · intro block hblock
        obtain ⟨kinds, hmem, hsummarize⟩ := hblocks block hblock
        exact ⟨kinds, List.mem_cons_of_mem _ hmem, hsummarize⟩

theorem composeTally_conserves {result : RunComposition φ} (h : Describes blocks tally txs)
    (hcover : ∀ tx ∈ txs, ∃ number ∈ blocks.map (·.number), tx.blockNumber = some number)
    (hok : composeTally zero percent blocks tally = .ok result) : Conserves blocks txs result := by
  obtain ⟨compositions, hcompositions, hchecked⟩ := bind_eq_ok.1 hok
  obtain ⟨⟨⟩, hcheck, hsummarized⟩ := bind_eq_ok.1 hchecked
  obtain ⟨summary, hsummary, heq⟩ := bind_eq_ok.1 hsummarized
  cases heq
  obtain ⟨hnumbers, hblocks⟩ := compositions_spec (Fallible.mapM_ok.1 hcompositions)
  have hmeasured (number : ℕ) :
      number ∈ compositions.map (·.blockNumber) ↔ number ∈ blocks.map (·.number) := by
    rw [hnumbers]
    constructor
    · intro hmem
      obtain ⟨⟨number, kinds⟩, hentry, rfl⟩ := List.mem_map.1 hmem
      by_contra hout
      have hfound := OrderedMap.mem_entries.1 hentry
      rw [h.outside number hout] at hfound
      cases hfound
    · intro hmem
      obtain ⟨kinds, hkinds, -⟩ := h.measured number hmem
      exact List.mem_map_of_mem (OrderedMap.mem_entries.2 hkinds)
  have hcomposes : ∀ block ∈ compositions,
      Composes (inBlock txs block.blockNumber) block.composition := by
    intro block hblock
    obtain ⟨kinds, hentry, hsummarize⟩ := hblocks block hblock
    obtain ⟨kinds', hkinds, hclasses⟩ :=
      h.measured _ ((hmeasured _).1 (List.mem_map_of_mem hblock))
    rw [OrderedMap.mem_entries.1 hentry] at hkinds
    cases hkinds
    exact summarize_composes hclasses hsummarize
  have hnodup : (compositions.map (·.blockNumber)).Nodup := by
    rw [hnumbers]
    exact List.pairwise_map.2 tally.perBlock.keyed
  have hcover' : ∀ tx ∈ txs, ∃ number ∈ compositions.map (·.blockNumber),
      tx.blockNumber = some number := by
    intro tx htx
    obtain ⟨number, hmem, heq⟩ := hcover tx htx
    exact ⟨number, (hmeasured number).2 hmem, heq⟩
  have htotals := summarize_composes h.summary hsummary
  -- a sum that each block takes over its own transactions
  have hsum {val : BlockComposition φ → ℕ} {w : ReceiptGasRecord → ℕ} {total : ℕ}
      (hval : ∀ block ∈ compositions, val block = ((inBlock txs block.blockNumber).map w).sum)
      (htotal : total = (txs.map w).sum) : (compositions.map val).sum = total := by
    rw [htotal, ← sum_inBlock hnodup hcover' w, List.map_map, List.map_congr_left hval]
    rfl
  have hpartSum (input : WithBot String) {f : KindTotals → ℕ} {w : ReceiptGasRecord → ℕ}
      (hfield : ∀ txs, f (totalsOf txs) = (txs.map w).sum) :
      (compositions.map fun block => f (block.composition.totals input)).sum =
        f (summary.totals input) := by
    have hpart : ∀ tx ∈ part ReceiptGasRecord.input txs input,
        ∃ number ∈ compositions.map (·.blockNumber), tx.blockNumber = some number :=
      fun tx htx => hcover' tx (List.mem_of_mem_filter htx)
    rw [htotals.totals, hfield, ← sum_inBlock hnodup hpart w, List.map_map]
    congr 1
    refine List.map_congr_left fun block hblock => ?_
    rw [(hcomposes block hblock).totals, hfield, part, inBlock, List.filter_comm]
    rfl
  refine ⟨rfl, ?_, hmeasured, hcomposes, ?_, htotals, ?_, ?_, fun input => ⟨?_, ?_, ?_⟩⟩
  · have hsorted := List.pairwise_map.2 tally.perBlock.sorted
    rw [← hnumbers] at hsorted
    exact List.pairwise_map.1 hsorted
  · intro block hblock
    have hchecked := Fallible.forM_ok.1 hcheck block hblock
    exact not_not.1 (bailIf_eq_ok.1 hchecked)
  · refine hsum (w := fun _ => 1) (fun block hblock => ?_) ?_
    · rw [(hcomposes block hblock).txCount]
      simp [totalsOf]
    · rw [htotals.txCount]
      simp [totalsOf]
  · exact hsum (fun block hblock => (hcomposes block hblock).gasUsed) htotals.gasUsed
  · exact hpartSum input (f := KindTotals.txCount) (w := fun _ => 1) fun txs => by simp [totalsOf]
  · exact hpartSum input (f := KindTotals.gasUsed) fun txs => rfl
  · exact hpartSum input (f := KindTotals.revertedTxCount) totalsOf_revertedTxCount

end

end Receipts

end TxGen
