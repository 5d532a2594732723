import TxGen.BlockAccess.Merge

set_option autoImplicit false
set_option linter.unusedSectionVars false

/-! # What the merged access list holds

Each block's changes are found in the merged list at their shifted indexes, in block order, and the
list is again a well-formed access list. What a list says about an account is read off by `at?`; the
merge is followed account by account and slot by slot, and only the final sort fixes the order. -/

namespace TxGen.BlockAccess

open KeyedList

variable {A S : Type} [LinearOrder A] [LinearOrder S]

/-! ## What a list says -/

/-- What `f` reads from the account, nothing if the list does not have it. -/
def view {V : Type} (f : AccountChanges A S → List V) (list : BlockAccessList A S) (address : A) :
    List V :=
  ((lookup? AccountChanges.address address list).map f).getD []

/-- The changes of one slot -/
def slotChangesOf (slot : S) (account : AccountChanges A S) : List (Change ℕ) :=
  ((lookup? SlotChanges.slot slot account.storageChanges).map SlotChanges.changes).getD []

/-- The written slots -/
def writtenSlots (account : AccountChanges A S) : List S := account.storageChanges.map SlotChanges.slot

/-- The changes are those of one block, in ascending order of their indexes. -/
@[mk_iff]
structure Indexed {V : Type} (txCount : ℕ) (changes : List (Change V)) : Prop where
  ascending : changes.Pairwise fun a b => a.blockAccessIndex < b.blockAccessIndex
  bounded : ∀ change ∈ changes, change.blockAccessIndex ≤ txCount + 1

/-- An account of a block with `txCount` transactions -/
structure AccountChanges.WellFormed (txCount : ℕ) (account : AccountChanges A S) : Prop where
  slots : Keyed SlotChanges.slot account.storageChanges
  reads : account.storageReads.Nodup
  apart : ∀ slot ∈ account.storageReads, slot ∉ writtenSlots account
  storage : ∀ slotChanges ∈ account.storageChanges, Indexed txCount slotChanges.changes
  balance : Indexed txCount account.balanceChanges
  nonce : Indexed txCount account.nonceChanges
  code : Indexed txCount account.codeChanges

/-- The access list of a block with `txCount` transactions -/
structure WellFormed (txCount : ℕ) (list : BlockAccessList A S) : Prop where
  accounts : Keyed AccountChanges.address list
  account : ∀ account ∈ list, account.WellFormed txCount

/-- The account is sorted, and each slot is written or read but not both. -/
structure AccountChanges.Canonical (account : AccountChanges A S) : Prop where
  slots : account.storageChanges.Pairwise fun a b => a.slot < b.slot
  reads : account.storageReads.Pairwise (· < ·)
  apart : ∀ slot ∈ account.storageReads, slot ∉ writtenSlots account
  storage : ∀ slotChanges ∈ account.storageChanges,
    slotChanges.changes.Pairwise fun a b => a.blockAccessIndex < b.blockAccessIndex
  balance : account.balanceChanges.Pairwise fun a b => a.blockAccessIndex < b.blockAccessIndex
  nonce : account.nonceChanges.Pairwise fun a b => a.blockAccessIndex < b.blockAccessIndex
  code : account.codeChanges.Pairwise fun a b => a.blockAccessIndex < b.blockAccessIndex

/-- A sorted and well-formed access list -/
structure Canonical (list : BlockAccessList A S) : Prop where
  accounts : list.Pairwise fun a b => a.address < b.address
  account : ∀ account ∈ list, account.Canonical

/-- A source block's list and the shift of its indexes -/
structure Source (A S : Type) where
  txCount : ℕ
  shift : ℕ
  list : BlockAccessList A S

/-- The number of transactions in earlier blocks plus twice the position of the block -/
def shiftOf {B : Type} (transactionCount : B → ℕ) (blocks : List B) (position : ℕ) : ℕ :=
  ((blocks.take position).map transactionCount).sum + 2 * position

/-- The blocks with their lists, empty where a block has none -/
def sources {B : Type} (transactionCount : B → ℕ) (blocks : List B)
    (lists : List (Option (BlockAccessList A S))) : List (Source A S) :=
  (blocks.zip lists).zipIdx.map fun p =>
    ⟨transactionCount p.1.1, shiftOf transactionCount blocks p.2, p.1.2.getD []⟩

/-- The changes that `f` reads from the account in all blocks, at their shifted indexes -/
def shiftedChanges {V : Type} (f : AccountChanges A S → List (Change V)) (blocks : List (Source A S))
    (address : A) : List (Change V) :=
  blocks.flatMap fun source => shiftChanges source.shift (view f source.list address)

/-- The list has what the blocks have, and no more. -/
structure Lossless (blocks : List (Source A S)) (list : BlockAccessList A S) : Prop where
  accounts : ∀ address, (∃ account ∈ list, account.address = address) ↔
    ∃ source ∈ blocks, ∃ account ∈ source.list, account.address = address
  storage : ∀ address slot,
    view (slotChangesOf slot) list address = shiftedChanges (slotChangesOf slot) blocks address
  balance : ∀ address, view AccountChanges.balanceChanges list address
    = shiftedChanges AccountChanges.balanceChanges blocks address
  nonce : ∀ address, view AccountChanges.nonceChanges list address
    = shiftedChanges AccountChanges.nonceChanges blocks address
  code : ∀ address, view AccountChanges.codeChanges list address
    = shiftedChanges AccountChanges.codeChanges blocks address
  writes : ∀ address slot, slot ∈ view writtenSlots list address ↔
    ∃ source ∈ blocks, slot ∈ view writtenSlots source.list address
  reads : ∀ address slot, slot ∈ view AccountChanges.storageReads list address ↔
    (∃ source ∈ blocks, slot ∈ view AccountChanges.storageReads source.list address) ∧
      slot ∉ view writtenSlots list address

/-! ## Views of tables -/

theorem view_of_mem {V : Type} {f : AccountChanges A S → List V} {list : BlockAccessList A S}
    (hlist : Keyed AccountChanges.address list) {account : AccountChanges A S}
    (h : account ∈ list) : view f list account.address = f account := by
  simp [view, hlist.finds h]

/-- What is read from an account of the list is what the view has there. -/
theorem view_cases {V : Type} (f : AccountChanges A S → List V) (list : BlockAccessList A S)
    (address : A) : view f list address = [] ∨
      ∃ account ∈ list, account.address = address ∧ view f list address = f account := by
  unfold view
  cases hfound : lookup? AccountChanges.address address list with
  | none => exact Or.inl rfl
  | some account => exact Or.inr ⟨account, mem_of_lookup? hfound, key_of_lookup? hfound, rfl⟩

theorem mem_writtenSlots {slot : S} {account : AccountChanges A S} :
    slot ∈ writtenSlots account ↔
      (lookup? SlotChanges.slot slot account.storageChanges).isSome = true := by
  rw [isSome_lookup?, writtenSlots, List.mem_map]

theorem slotChangesOf_mem {account : AccountChanges A S}
    (h : Keyed SlotChanges.slot account.storageChanges) {slotChanges : SlotChanges S}
    (hmem : slotChanges ∈ account.storageChanges) :
    slotChangesOf slotChanges.slot account = slotChanges.changes := by
  simp [slotChangesOf, h.finds hmem]

theorem slotChangesOf_cases (slot : S) (account : AccountChanges A S) :
    slotChangesOf slot account = [] ∨
      ∃ slotChanges ∈ account.storageChanges, slotChangesOf slot account = slotChanges.changes := by
  unfold slotChangesOf
  cases hfound : lookup? SlotChanges.slot slot account.storageChanges with
  | none => exact Or.inl rfl
  | some slotChanges => exact Or.inr ⟨slotChanges, mem_of_lookup? hfound, rfl⟩

/-! ## Shifting -/

@[simp] theorem shiftChanges_nil {V : Type} (shift : ℕ) :
    shiftChanges shift ([] : List (Change V)) = [] := rfl

@[simp] theorem address_shiftAccountChanges (account : AccountChanges A S) (offset idx : ℕ) :
    (shiftAccountChanges account offset idx).address = account.address := rfl

@[simp] theorem storageReads_shiftAccountChanges (account : AccountChanges A S) (offset idx : ℕ) :
    (shiftAccountChanges account offset idx).storageReads = account.storageReads := rfl

theorem writtenSlots_shiftAccountChanges (account : AccountChanges A S) (offset idx : ℕ) :
    writtenSlots (shiftAccountChanges account offset idx) = writtenSlots account := by
  simp [writtenSlots, shiftAccountChanges, SlotChanges.shifted]

theorem slotChangesOf_shiftAccountChanges (slot : S) (account : AccountChanges A S)
    (offset idx : ℕ) : slotChangesOf slot (shiftAccountChanges account offset idx)
      = shiftChanges (offset + 2 * idx) (slotChangesOf slot account) := by
  have hslot : ∀ slotChanges : SlotChanges S,
      (slotChanges.shifted (offset + 2 * idx)).slot = slotChanges.slot := fun _ => rfl
  have hmap := lookup?_map hslot slot account.storageChanges
  simp only [slotChangesOf, shiftAccountChanges, hmap]
  cases lookup? SlotChanges.slot slot account.storageChanges <;> rfl

theorem view_map_shift {V : Type} (f : AccountChanges A S → List V) (list : BlockAccessList A S)
    (offset idx : ℕ) (address : A) :
    view f (list.map fun account => shiftAccountChanges account offset idx) address
      = view (fun account => f (shiftAccountChanges account offset idx)) list address := by
  simp only [view]
  rw [lookup?_map fun account => address_shiftAccountChanges account offset idx, Option.map_map]
  rfl

theorem shift_view {V : Type} (f : AccountChanges A S → List (Change V)) (shift : ℕ)
    (list : BlockAccessList A S) (address : A) :
    shiftChanges shift (view f list address)
      = view (fun account => shiftChanges shift (f account)) list address := by
  unfold view
  cases lookup? AccountChanges.address address list <;> rfl

/-! ## One account -/

theorem mem_retainUnseen {seen slots : List S} {slot : S} :
    slot ∈ retainUnseen seen slots ↔ slot ∈ slots ∧ slot ∉ seen := by
  induction slots generalizing seen with
  | nil => simp [retainUnseen]
  | cons head rest ih =>
      rw [retainUnseen]
      split
      · rename_i hseen
        rw [ih, List.mem_cons]
        constructor
        · rintro ⟨hrest, hnot⟩
          exact ⟨Or.inr hrest, hnot⟩
        · rintro ⟨rfl | hrest, hnot⟩
          · exact absurd hseen hnot
          · exact ⟨hrest, hnot⟩
      · rename_i hseen
        rw [List.mem_cons, ih, List.mem_cons, List.mem_cons]
        by_cases hhead : slot = head
        · subst hhead
          simp [hseen]
        · simp [hhead]

theorem nodup_retainUnseen (seen slots : List S) : (retainUnseen seen slots).Nodup := by
  induction slots generalizing seen with
  | nil => simp [retainUnseen]
  | cons head rest ih =>
      rw [retainUnseen]
      split
      · exact ih seen
      · refine List.nodup_cons.2 ⟨fun hmem => ?_, ih _⟩
        exact (mem_retainUnseen.1 hmem).2 List.mem_cons_self

/-- What every account of the growing list keeps -/
structure AccountChanges.Distinct (account : AccountChanges A S) : Prop where
  slots : Keyed SlotChanges.slot account.storageChanges
  reads : account.storageReads.Nodup
  apart : ∀ slot ∈ account.storageReads, slot ∉ writtenSlots account

theorem AccountChanges.WellFormed.distinct {txCount : ℕ} {account : AccountChanges A S}
    (h : account.WellFormed txCount) (offset idx : ℕ) :
    (shiftAccountChanges account offset idx).Distinct := by
  refine ⟨h.slots.map fun _ => rfl, h.reads, fun slot hslot => ?_⟩
  rw [writtenSlots_shiftAccountChanges]
  exact h.apart slot hslot

section Merge

variable {existing incoming : AccountChanges A S} (hex : existing.Distinct) (hin : incoming.Distinct)

include hex hin

theorem mergeSlotChanges_spec :
    Keyed SlotChanges.slot (mergeAccountChanges existing incoming).storageChanges ∧
      ∀ slot, lookup? SlotChanges.slot slot (mergeAccountChanges existing incoming).storageChanges
        = (lookup? SlotChanges.slot slot existing.storageChanges).merge extendSlot
            (lookup? SlotChanges.slot slot incoming.storageChanges) := by
  have hslot : ∀ a b : SlotChanges S, (extendSlot a b).slot = a.slot := fun _ _ => rfl
  exact mergeEntries_spec hslot (located_positions hex.slots) hex.slots hin.slots

theorem slotChangesOf_merge (slot : S) : slotChangesOf slot (mergeAccountChanges existing incoming)
    = slotChangesOf slot existing ++ slotChangesOf slot incoming := by
  simp only [slotChangesOf, (mergeSlotChanges_spec hex hin).2 slot]
  cases lookup? SlotChanges.slot slot existing.storageChanges <;>
    cases lookup? SlotChanges.slot slot incoming.storageChanges <;> simp [Option.merge, extendSlot]

theorem mem_writtenSlots_merge (slot : S) :
    slot ∈ writtenSlots (mergeAccountChanges existing incoming) ↔
      slot ∈ writtenSlots existing ∨ slot ∈ writtenSlots incoming := by
  rw [mem_writtenSlots, mem_writtenSlots, mem_writtenSlots, (mergeSlotChanges_spec hex hin).2 slot]
  cases lookup? SlotChanges.slot slot existing.storageChanges <;>
    cases lookup? SlotChanges.slot slot incoming.storageChanges <;> simp [Option.merge]

omit hex hin in
theorem mem_storageReads_merge (slot : S) :
    slot ∈ (mergeAccountChanges existing incoming).storageReads ↔
      (slot ∈ existing.storageReads ∨ slot ∈ incoming.storageReads) ∧
        slot ∉ writtenSlots (mergeAccountChanges existing incoming) := by
  simp [mergeAccountChanges, mem_retainUnseen, writtenSlots, or_and_right]

theorem AccountChanges.Distinct.merge : (mergeAccountChanges existing incoming).Distinct :=
  ⟨(mergeSlotChanges_spec hex hin).1, nodup_retainUnseen _ _,
    fun slot hslot => ((mem_storageReads_merge slot).1 hslot).2⟩

end Merge

/-! ## One block -/

/-- The list that grows, and what it has of the blocks merged so far. -/
structure Merged (blocks : List (Source A S)) (list : BlockAccessList A S) : Prop where
  keyed : Keyed AccountChanges.address list
  distinct : ∀ account ∈ list, account.Distinct
  lossless : Lossless blocks list

theorem merged_empty : Merged ([] : List (Source A S)) [] :=
  ⟨by simp [Keyed], by simp, by constructor <;> simp [view, shiftedChanges]⟩

/-- What an account has in the list after a block is merged: both accounts merged, or the one there
    is. -/
theorem lookup?_mergeBlockAccessList {list incoming : BlockAccessList A S}
    (hlist : Keyed AccountChanges.address list) (hin : Keyed AccountChanges.address incoming)
    (offset idx : ℕ) :
    Keyed AccountChanges.address (mergeBlockAccessList list incoming offset idx) ∧
      ∀ address, lookup? AccountChanges.address address (mergeBlockAccessList list incoming offset idx)
        = (lookup? AccountChanges.address address list).merge mergeAccountChanges
            ((lookup? AccountChanges.address address incoming).map
              fun account => shiftAccountChanges account offset idx) := by
  have haddress : ∀ a b : AccountChanges A S, (mergeAccountChanges a b).address = a.address :=
    fun _ _ => rfl
  have hshift : ∀ account : AccountChanges A S,
      (shiftAccountChanges account offset idx).address = account.address := fun _ => rfl
  obtain ⟨hkeyed, hfound⟩ := mergeEntries_spec haddress (located_positions hlist) hlist
    (hin.map hshift)
  refine ⟨hkeyed, fun address => ?_⟩
  rw [← lookup?_map hshift]
  exact hfound address

section Block

variable {list incoming : BlockAccessList A S} {txCount offset idx : ℕ}
  (hkeyed : Keyed AccountChanges.address list) (hdistinct : ∀ account ∈ list, account.Distinct)
  (hin : WellFormed txCount incoming)

include hkeyed hdistinct hin

theorem distinct_mergeBlockAccessList :
    ∀ account ∈ mergeBlockAccessList list incoming offset idx, account.Distinct := by
  obtain ⟨hmerged, hfound⟩ := lookup?_mergeBlockAccessList hkeyed hin.accounts offset idx
  intro account haccount
  have hentry := hmerged.finds haccount
  rw [hfound] at hentry
  cases hold : lookup? AccountChanges.address account.address list with
  | none =>
      rw [hold] at hentry
      cases hnew : lookup? AccountChanges.address account.address incoming with
      | none => simp [hnew, Option.merge] at hentry
      | some new =>
          obtain rfl : shiftAccountChanges new offset idx = account := by
            simpa [hnew, Option.merge] using hentry
          exact (hin.account new (mem_of_lookup? hnew)).distinct offset idx
  | some old =>
      rw [hold] at hentry
      have hdold := hdistinct old (mem_of_lookup? hold)
      cases hnew : lookup? AccountChanges.address account.address incoming with
      | none =>
          obtain rfl : old = account := by simpa [hnew, Option.merge] using hentry
          exact hdold
      | some new =>
          obtain rfl : mergeAccountChanges old (shiftAccountChanges new offset idx) = account := by
            simpa [hnew, Option.merge] using hentry
          exact hdold.merge ((hin.account new (mem_of_lookup? hnew)).distinct offset idx)

/-- Changes that merging two accounts appends are appended in the list. -/
theorem view_mergeBlockAccessList {V : Type} {f : AccountChanges A S → List (Change V)}
    (happend : ∀ a b : AccountChanges A S, a.Distinct → b.Distinct →
      f (mergeAccountChanges a b) = f a ++ f b)
    (hshift : ∀ account : AccountChanges A S, f (shiftAccountChanges account offset idx)
      = shiftChanges (offset + 2 * idx) (f account)) (address : A) :
    view f (mergeBlockAccessList list incoming offset idx) address
      = view f list address ++ shiftChanges (offset + 2 * idx) (view f incoming address) := by
  simp only [view, (lookup?_mergeBlockAccessList hkeyed hin.accounts offset idx).2 address]
  cases hold : lookup? AccountChanges.address address list with
  | none =>
      cases hnew : lookup? AccountChanges.address address incoming with
      | none => simp [Option.merge]
      | some new => simp [Option.merge, hshift]
  | some old =>
      cases hnew : lookup? AccountChanges.address address incoming with
      | none => simp [Option.merge]
      | some new =>
          simp [Option.merge, ← hshift, happend old _ (hdistinct old (mem_of_lookup? hold))
            ((hin.account new (mem_of_lookup? hnew)).distinct offset idx)]

theorem writes_mergeBlockAccessList (address : A) (slot : S) :
    slot ∈ view writtenSlots (mergeBlockAccessList list incoming offset idx) address ↔
      slot ∈ view writtenSlots list address ∨ slot ∈ view writtenSlots incoming address := by
  simp only [view, (lookup?_mergeBlockAccessList hkeyed hin.accounts offset idx).2 address]
  cases hold : lookup? AccountChanges.address address list with
  | none =>
      cases hnew : lookup? AccountChanges.address address incoming with
      | none => simp [Option.merge]
      | some new => simp [Option.merge, writtenSlots_shiftAccountChanges]
  | some old =>
      cases hnew : lookup? AccountChanges.address address incoming with
      | none => simp [Option.merge]
      | some new =>
          have hmem := mem_writtenSlots_merge (hdistinct old (mem_of_lookup? hold))
            ((hin.account new (mem_of_lookup? hnew)).distinct offset idx) slot
          simpa [Option.merge, writtenSlots_shiftAccountChanges] using hmem

/-- A read stays until its slot is written. -/
theorem reads_mergeBlockAccessList (address : A) (slot : S) :
    slot ∈ view AccountChanges.storageReads (mergeBlockAccessList list incoming offset idx) address ↔
      (slot ∈ view AccountChanges.storageReads list address ∨
          slot ∈ view AccountChanges.storageReads incoming address) ∧
        slot ∉ view writtenSlots (mergeBlockAccessList list incoming offset idx) address := by
  simp only [view, (lookup?_mergeBlockAccessList hkeyed hin.accounts offset idx).2 address]
  cases hold : lookup? AccountChanges.address address list with
  | none =>
      cases hnew : lookup? AccountChanges.address address incoming with
      | none => simp [Option.merge]
      | some new =>
          have hapart := (hin.account new (mem_of_lookup? hnew)).apart slot
          simpa [Option.merge, writtenSlots_shiftAccountChanges] using hapart
  | some old =>
      cases hnew : lookup? AccountChanges.address address incoming with
      | none =>
          have hapart := (hdistinct old (mem_of_lookup? hold)).apart slot
          simpa [Option.merge] using hapart
      | some new =>
          have hmem := @mem_storageReads_merge A S _ _ old (shiftAccountChanges new offset idx) slot
          simpa [Option.merge] using hmem

theorem accounts_mergeBlockAccessList (address : A) :
    (∃ account ∈ mergeBlockAccessList list incoming offset idx, account.address = address) ↔
      (∃ account ∈ list, account.address = address) ∨
        ∃ account ∈ incoming, account.address = address := by
  rw [← isSome_lookup?, ← isSome_lookup?, ← isSome_lookup?,
    (lookup?_mergeBlockAccessList hkeyed hin.accounts offset idx).2 address]
  cases lookup? AccountChanges.address address list <;>
    cases lookup? AccountChanges.address address incoming <;> simp [Option.merge]

end Block

theorem shiftedChanges_concat {V : Type} (f : AccountChanges A S → List (Change V))
    (blocks : List (Source A S)) (source : Source A S) (address : A) :
    shiftedChanges f (blocks ++ [source]) address
      = shiftedChanges f blocks address ++ shiftChanges source.shift (view f source.list address) := by
  simp [shiftedChanges]

/-- A block without a list adds nothing. -/
theorem Merged.skip {blocks : List (Source A S)} {list : BlockAccessList A S}
    (h : Merged blocks list) (txCount shift : ℕ) : Merged (blocks ++ [⟨txCount, shift, []⟩]) list := by
  have hl := h.lossless
  refine ⟨h.keyed, h.distinct, ?_⟩
  constructor
  · intro address
    simpa using hl.accounts address
  · intro address slot
    simpa [shiftedChanges_concat, view] using hl.storage address slot
  · intro address
    simpa [shiftedChanges_concat, view] using hl.balance address
  · intro address
    simpa [shiftedChanges_concat, view] using hl.nonce address
  · intro address
    simpa [shiftedChanges_concat, view] using hl.code address
  · intro address slot
    simpa [view] using hl.writes address slot
  · intro address slot
    simpa [view] using hl.reads address slot

/-- Merging a block's list adds its changes, writes and reads. -/
theorem Merged.block {blocks : List (Source A S)} {list incoming : BlockAccessList A S}
    (h : Merged blocks list) {txCount : ℕ} (hin : WellFormed txCount incoming) (offset idx : ℕ) :
    Merged (blocks ++ [⟨txCount, offset + 2 * idx, incoming⟩])
      (mergeBlockAccessList list incoming offset idx) := by
  have hl := h.lossless
  refine ⟨(lookup?_mergeBlockAccessList h.keyed hin.accounts offset idx).1,
    distinct_mergeBlockAccessList h.keyed h.distinct hin, ?_⟩
  constructor
  · intro address
    rw [accounts_mergeBlockAccessList h.keyed h.distinct hin, hl.accounts]
    simp [or_and_right, exists_or]
  · intro address slot
    rw [view_mergeBlockAccessList h.keyed h.distinct hin
      (fun a b ha hb => slotChangesOf_merge ha hb slot)
      (fun account => slotChangesOf_shiftAccountChanges slot account offset idx),
      shiftedChanges_concat, hl.storage]
  · intro address
    rw [view_mergeBlockAccessList h.keyed h.distinct hin (fun _ _ _ _ => rfl) fun _ => rfl,
      shiftedChanges_concat, hl.balance]
  · intro address
    rw [view_mergeBlockAccessList h.keyed h.distinct hin (fun _ _ _ _ => rfl) fun _ => rfl,
      shiftedChanges_concat, hl.nonce]
  · intro address
    rw [view_mergeBlockAccessList h.keyed h.distinct hin (fun _ _ _ _ => rfl) fun _ => rfl,
      shiftedChanges_concat, hl.code]
  · intro address slot
    rw [writes_mergeBlockAccessList h.keyed h.distinct hin, hl.writes]
    simp [or_and_right, exists_or]
  · intro address slot
    have hwritten := @writes_mergeBlockAccessList A S _ _ list incoming txCount offset idx
      h.keyed h.distinct hin address slot
    rw [reads_mergeBlockAccessList h.keyed h.distinct hin, hl.reads]
    -- what was shadowed before stays shadowed
    have hshadowed : slot ∉ view writtenSlots (mergeBlockAccessList list incoming offset idx) address →
        slot ∉ view writtenSlots list address := fun hnot hmem => hnot (hwritten.2 (Or.inl hmem))
    refine and_congr_left fun hnot => ?_
    simp [or_and_right, exists_or, hshadowed hnot]

/-! ## All blocks -/

section Blocks

variable {B : Type} (transactionCount : B → ℕ)

theorem mergeBlocks_concat (pairs : List (B × Option (BlockAccessList A S))) (blockData : B)
    (blockAccessList : Option (BlockAccessList A S)) (blockIdx cumulativeTxCount : ℕ)
    (merged : Option (BlockAccessList A S)) :
    mergeBlocks transactionCount blockIdx cumulativeTxCount merged
        (pairs ++ [(blockData, blockAccessList)])
      = match blockAccessList with
        | some incoming => some (mergeBlockAccessList
            ((mergeBlocks transactionCount blockIdx cumulativeTxCount merged pairs).getD []) incoming
            (cumulativeTxCount + (pairs.map fun p => transactionCount p.1).sum)
            (blockIdx + pairs.length))
        | none => mergeBlocks transactionCount blockIdx cumulativeTxCount merged pairs := by
  induction pairs generalizing blockIdx cumulativeTxCount merged with
  | nil => cases blockAccessList <;> rfl
  | cons p rest ih =>
      simp only [List.cons_append, mergeBlocks, ih, List.map_cons, List.sum_cons, List.length_cons]
      cases blockAccessList with
      | none => rfl
      | some incoming => simp only [Nat.add_assoc, Nat.add_comm 1]

variable {transactionCount} {blocks : List B} {lists : List (Option (BlockAccessList A S))}

theorem take_of_zip {pairs rest : List (B × Option (BlockAccessList A S))}
    (h : pairs ++ rest = blocks.zip lists) : blocks.take pairs.length = pairs.map Prod.fst := by
  induction pairs generalizing blocks lists with
  | nil => rfl
  | cons p pairs ih =>
      cases blocks with
      | nil => simp at h
      | cons block blocks =>
          cases lists with
          | nil => simp at h
          | cons list lists =>
              rw [List.cons_append, List.zip_cons_cons, List.cons.injEq] at h
              obtain ⟨rfl, h⟩ := h
              simp [ih h]

/-- The sources among the first pairs of the zipped lists -/
def sourcesOf (transactionCount : B → ℕ) (blocks : List B)
    (pairs : List (B × Option (BlockAccessList A S))) : List (Source A S) :=
  pairs.zipIdx.map fun p => ⟨transactionCount p.1.1, shiftOf transactionCount blocks p.2, p.1.2.getD []⟩

/-- The loop has merged the lists of the blocks it has passed. -/
theorem mergeBlocks_merged {pairs rest : List (B × Option (BlockAccessList A S))}
    (hpairs : pairs ++ rest = blocks.zip lists)
    (hwf : ∀ p ∈ blocks.zip lists, ∀ list ∈ p.2, WellFormed (transactionCount p.1) list) :
    Merged (sourcesOf transactionCount blocks pairs)
        ((mergeBlocks transactionCount 0 0 none pairs).getD []) ∧
      (mergeBlocks transactionCount 0 0 none pairs = none ↔ ∀ p ∈ pairs, p.2 = none) := by
  induction pairs using List.reverseRec generalizing rest with
  | nil => exact ⟨merged_empty, by simp [mergeBlocks]⟩
  | append_singleton pairs p ih =>
      obtain ⟨blockData, blockAccessList⟩ := p
      obtain ⟨hmerged, hnone⟩ := @ih ((blockData, blockAccessList) :: rest) (by simpa using hpairs)
      have hsources : sourcesOf transactionCount blocks (pairs ++ [(blockData, blockAccessList)])
          = sourcesOf transactionCount blocks pairs ++ [⟨transactionCount blockData,
              shiftOf transactionCount blocks pairs.length, blockAccessList.getD []⟩] := by
        simp [sourcesOf, List.zipIdx_append]
      have htaken : blocks.take pairs.length = pairs.map Prod.fst :=
        @take_of_zip A S _ _ B blocks lists _ ((blockData, blockAccessList) :: rest)
          (by simpa using hpairs)
      rw [hsources, mergeBlocks_concat]
      cases blockAccessList with
      | none =>
          refine ⟨hmerged.skip _ _, ?_⟩
          rw [hnone]
          simp [or_imp, forall_and]
      | some incoming =>
          have hmem : (blockData, some incoming) ∈ blocks.zip lists := by
            rw [← hpairs]
            simp
          have hshift : shiftOf transactionCount blocks pairs.length
              = 0 + (pairs.map fun p => transactionCount p.1).sum + 2 * (0 + pairs.length) := by
            simp [shiftOf, htaken, Function.comp_def]
          rw [hshift]
          refine ⟨hmerged.block (hwf _ hmem incoming rfl) _ _, ?_⟩
          simp only [reduceCtorEq, List.mem_append, List.mem_singleton, false_iff]
          intro hall
          simpa using hall (blockData, some incoming) (Or.inr rfl)

/-- The index ranges of the blocks follow each other. -/
theorem sources_ordered (transactionCount : B → ℕ) (blocks : List B)
    (lists : List (Option (BlockAccessList A S))) :
    (sources transactionCount blocks lists).Pairwise
      fun p q => p.shift + (p.txCount + 1) < q.shift := by
  refine List.pairwise_iff_getElem.2 fun i j hi hj hij => ?_
  have hib : i < blocks.length := by
    have := hi
    simp only [sources, List.length_map, List.length_zipIdx, List.length_zip] at this
    omega
  simp only [sources, List.getElem_map, List.getElem_zipIdx, List.getElem_zip, Nat.zero_add]
  -- the transactions before block `j` include those of block `i`
  have hsum : ((blocks.take i).map transactionCount).sum + transactionCount blocks[i]
      ≤ ((blocks.take j).map transactionCount).sum := by
    have htake : blocks.take (i + 1) <+: blocks.take j := List.take_prefix_take_left (by omega)
    obtain ⟨more, hmore⟩ := htake
    rw [← hmore, List.take_succ_eq_append_getElem hib, List.map_append, List.map_append,
      List.sum_append, List.sum_append]
    simp
  simp only [shiftOf]
  omega

end Blocks

/-! ## Sorting -/

theorem sortChanges_of_ascending {V : Type} {changes : List (Change V)}
    (h : changes.Pairwise fun a b => a.blockAccessIndex < b.blockAccessIndex) :
    sortChanges changes = changes := by
  refine List.mergeSort_of_pairwise (h.imp fun hlt => ?_)
  simpa using Nat.le_of_lt hlt

/-- Changes of blocks that follow each other are in ascending order. -/
theorem shiftedChanges_ascending {V : Type} {f : AccountChanges A S → List (Change V)}
    {blocks : List (Source A S)} {address : A}
    (hordered : blocks.Pairwise fun p q => p.shift + (p.txCount + 1) < q.shift)
    (hindexed : ∀ source ∈ blocks, Indexed source.txCount (view f source.list address)) :
    (shiftedChanges f blocks address).Pairwise fun a b => a.blockAccessIndex < b.blockAccessIndex := by
  refine List.pairwise_flatMap.2 ⟨fun source hsource => ?_, ?_⟩
  · refine List.pairwise_map.2 ((hindexed source hsource).ascending.imp fun hlt => ?_)
    simpa using hlt
  · refine hordered.imp_of_mem fun {p q} hp _ hlt a ha b hb => ?_
    obtain ⟨change, hchange, rfl⟩ := List.mem_map.1 ha
    obtain ⟨change', -, rfl⟩ := List.mem_map.1 hb
    have hbound := (hindexed p hp).bounded change hchange
    simp only
    omega

/-- What a block's list says about an account has the indexes of the block. -/
theorem indexed_view {V : Type} {f : AccountChanges A S → List (Change V)} {txCount : ℕ}
    {list : BlockAccessList A S} (h : ∀ account ∈ list, Indexed txCount (f account)) (address : A) :
    Indexed txCount (view f list address) := by
  rcases view_cases f list address with hempty | ⟨account, haccount, -, heq⟩
  · rw [hempty]
    exact ⟨List.Pairwise.nil, by simp⟩
  · rw [heq]
    exact h account haccount

theorem AccountChanges.WellFormed.slotChangesOf {txCount : ℕ} {account : AccountChanges A S}
    (h : account.WellFormed txCount) (slot : S) : Indexed txCount (slotChangesOf slot account) := by
  rcases slotChangesOf_cases slot account with hempty | ⟨slotChanges, hmem, heq⟩
  · rw [hempty]
    exact ⟨List.Pairwise.nil, by simp⟩
  · rw [heq]
    exact h.storage slotChanges hmem

/-- Every list of changes in the account is in ascending order. -/
structure AccountChanges.Ascending (account : AccountChanges A S) : Prop where
  storage : ∀ slotChanges ∈ account.storageChanges,
    slotChanges.changes.Pairwise fun a b => a.blockAccessIndex < b.blockAccessIndex
  balance : account.balanceChanges.Pairwise fun a b => a.blockAccessIndex < b.blockAccessIndex
  nonce : account.nonceChanges.Pairwise fun a b => a.blockAccessIndex < b.blockAccessIndex
  code : account.codeChanges.Pairwise fun a b => a.blockAccessIndex < b.blockAccessIndex

theorem Merged.ascending {blocks : List (Source A S)} {list : BlockAccessList A S}
    (h : Merged blocks list) (hordered : blocks.Pairwise fun p q => p.shift + (p.txCount + 1) < q.shift)
    (hwf : ∀ source ∈ blocks, WellFormed source.txCount source.list) :
    ∀ account ∈ list, account.Ascending := by
  intro account haccount
  constructor
  · intro slotChanges hmem
    rw [← slotChangesOf_mem (h.distinct account haccount).slots hmem,
      ← view_of_mem (f := slotChangesOf slotChanges.slot) h.keyed haccount, h.lossless.storage]
    refine shiftedChanges_ascending hordered fun source hsource => indexed_view ?_ _
    exact fun a ha => ((hwf source hsource).account a ha).slotChangesOf _
  · rw [← view_of_mem (f := AccountChanges.balanceChanges) h.keyed haccount, h.lossless.balance]
    refine shiftedChanges_ascending hordered fun source hsource => indexed_view ?_ _
    exact fun a ha => ((hwf source hsource).account a ha).balance
  · rw [← view_of_mem (f := AccountChanges.nonceChanges) h.keyed haccount, h.lossless.nonce]
    refine shiftedChanges_ascending hordered fun source hsource => indexed_view ?_ _
    exact fun a ha => ((hwf source hsource).account a ha).nonce
  · rw [← view_of_mem (f := AccountChanges.codeChanges) h.keyed haccount, h.lossless.code]
    refine shiftedChanges_ascending hordered fun source hsource => indexed_view ?_ _
    exact fun a ha => ((hwf source hsource).account a ha).code

/-- Sorting an account whose changes are in order sorts its slots and reads. -/
theorem storageChanges_sort {account : AccountChanges A S} (h : account.Ascending) :
    (sortAccountChanges account).storageChanges
      = account.storageChanges.mergeSort fun a b => decide (a.slot ≤ b.slot) := by
  refine (List.map_congr_left fun slotChanges hmem => ?_).trans (List.map_id _)
  have hasc := h.storage slotChanges (List.mem_mergeSort.1 hmem)
  simp [SlotChanges.sorted, sortChanges_of_ascending hasc]

theorem slotChangesOf_sort {account : AccountChanges A S} (h : account.Ascending)
    (hslots : Keyed SlotChanges.slot account.storageChanges) (slot : S) :
    slotChangesOf slot (sortAccountChanges account) = slotChangesOf slot account := by
  rw [slotChangesOf, storageChanges_sort h,
    lookup?_perm hslots (List.mergeSort_perm account.storageChanges _).symm, slotChangesOf]

theorem mem_writtenSlots_sort {account : AccountChanges A S} (h : account.Ascending) (slot : S) :
    slot ∈ writtenSlots (sortAccountChanges account) ↔ slot ∈ writtenSlots account := by
  rw [writtenSlots, storageChanges_sort h]
  exact ((List.mergeSort_perm account.storageChanges _).map _).mem_iff

theorem AccountChanges.Distinct.canonical {account : AccountChanges A S} (h : account.Distinct)
    (hasc : account.Ascending) : (sortAccountChanges account).Canonical := by
  constructor
  · rw [storageChanges_sort hasc]
    exact h.slots.sorted
  · exact @Keyed.sorted S S _ id _ h.reads
  · intro slot hslot
    rw [mem_writtenSlots_sort hasc]
    exact h.apart slot (List.mem_mergeSort.1 hslot)
  · intro slotChanges hmem
    rw [storageChanges_sort hasc] at hmem
    exact hasc.storage slotChanges (List.mem_mergeSort.1 hmem)
  · simpa [sortAccountChanges, sortChanges_of_ascending hasc.balance] using hasc.balance
  · simpa [sortAccountChanges, sortChanges_of_ascending hasc.nonce] using hasc.nonce
  · simpa [sortAccountChanges, sortChanges_of_ascending hasc.code] using hasc.code

theorem view_sortAccessList {V : Type} {f : AccountChanges A S → List V} {list : BlockAccessList A S}
    (hkeyed : Keyed AccountChanges.address list)
    (hf : ∀ account ∈ list, f (sortAccountChanges account) = f account) (address : A) :
    view f (sortAccessList list) address = view f list address := by
  have haddress : ∀ account : AccountChanges A S,
      (sortAccountChanges account).address = account.address := fun _ => rfl
  rw [view, sortAccessList, lookup?_map haddress, view,
    lookup?_perm hkeyed (List.mergeSort_perm list _).symm]
  cases hfound : lookup? AccountChanges.address address list with
  | none => rfl
  | some account => simp [hf account (mem_of_lookup? hfound)]

theorem mem_view_sortAccessList {V : Type} {f : AccountChanges A S → List V}
    {list : BlockAccessList A S} (hkeyed : Keyed AccountChanges.address list) {v : V}
    (hf : ∀ account ∈ list, v ∈ f (sortAccountChanges account) ↔ v ∈ f account) (address : A) :
    v ∈ view f (sortAccessList list) address ↔ v ∈ view f list address := by
  have haddress : ∀ account : AccountChanges A S,
      (sortAccountChanges account).address = account.address := fun _ => rfl
  rw [view, sortAccessList, lookup?_map haddress, view,
    lookup?_perm hkeyed (List.mergeSort_perm list _).symm]
  cases hfound : lookup? AccountChanges.address address list with
  | none => rfl
  | some account => simpa using hf account (mem_of_lookup? hfound)

/-- The final sort makes the list canonical and keeps what it holds. -/
theorem Merged.sort {blocks : List (Source A S)} {list : BlockAccessList A S}
    (h : Merged blocks list) (hasc : ∀ account ∈ list, account.Ascending) :
    Canonical (sortAccessList list) ∧ Lossless blocks (sortAccessList list) := by
  have hl := h.lossless
  have hmem : ∀ account, account ∈ sortAccessList list ↔
      ∃ account' ∈ list, sortAccountChanges account' = account := by
    intro account
    simp [sortAccessList]
  have hwrites : ∀ address slot, slot ∈ view writtenSlots (sortAccessList list) address ↔
      slot ∈ view writtenSlots list address := fun address slot =>
    mem_view_sortAccessList h.keyed
      (fun account haccount => mem_writtenSlots_sort (hasc account haccount) slot) address
  refine ⟨⟨List.pairwise_map.2 h.keyed.sorted, fun account haccount => ?_⟩, ?_⟩
  · obtain ⟨account', haccount', rfl⟩ := (hmem account).1 haccount
    exact (h.distinct account' haccount').canonical (hasc account' haccount')
  constructor
  · intro address
    rw [← hl.accounts address]
    constructor
    · rintro ⟨account, haccount, rfl⟩
      obtain ⟨account', haccount', rfl⟩ := (hmem account).1 haccount
      exact ⟨account', haccount', rfl⟩
    · rintro ⟨account, haccount, rfl⟩
      exact ⟨_, (hmem _).2 ⟨account, haccount, rfl⟩, rfl⟩
  · intro address slot
    rw [← hl.storage]
    exact view_sortAccessList h.keyed (fun account haccount =>
      slotChangesOf_sort (hasc account haccount) (h.distinct account haccount).slots slot) address
  · intro address
    rw [← hl.balance]
    exact view_sortAccessList h.keyed (fun account haccount =>
      sortChanges_of_ascending (hasc account haccount).balance) address
  · intro address
    rw [← hl.nonce]
    exact view_sortAccessList h.keyed (fun account haccount =>
      sortChanges_of_ascending (hasc account haccount).nonce) address
  · intro address
    rw [← hl.code]
    exact view_sortAccessList h.keyed (fun account haccount =>
      sortChanges_of_ascending (hasc account haccount).code) address
  · intro address slot
    rw [hwrites, hl.writes]
  · intro address slot
    rw [hwrites, ← hl.reads]
    exact mem_view_sortAccessList h.keyed (fun _ _ => List.mem_mergeSort) address

/-! ## The merged list -/

/-- Lists of blocks are merged into a canonical list that has each change of each block at its shifted
    index, in block order, and each read whose slot it does not write. -/
theorem merged_access_list {B Encoded : Type} (transactionCount : B → ℕ)
    (encode : BlockAccessList A S → Encoded) (blocks : List B)
    (lists : List (Option (BlockAccessList A S)))
    (hwf : ∀ p ∈ blocks.zip lists, ∀ list ∈ p.2, WellFormed (transactionCount p.1) list) :
    (sources transactionCount blocks lists).Pairwise
        (fun p q => p.shift + (p.txCount + 1) < q.shift) ∧
      (mergeBlockAccessLists transactionCount encode blocks lists = none ↔
        ∀ p ∈ blocks.zip lists, p.2 = none) ∧
      ∀ encoded, mergeBlockAccessLists transactionCount encode blocks lists = some encoded →
        ∃ list, encoded = encode list ∧ Canonical list ∧
          Lossless (sources transactionCount blocks lists) list := by
  have hordered := sources_ordered transactionCount blocks lists
  obtain ⟨hmerged, hnone⟩ := mergeBlocks_merged (List.append_nil (blocks.zip lists)) hwf
  refine ⟨hordered, by simpa [mergeBlockAccessLists] using hnone, fun encoded hencoded => ?_⟩
  obtain ⟨list, hlist, rfl⟩ := Option.map_eq_some_iff.1 hencoded
  rw [hlist] at hmerged
  have hsources : ∀ source ∈ sources transactionCount blocks lists,
      WellFormed source.txCount source.list := by
    intro source hsource
    obtain ⟨p, hp, rfl⟩ := List.mem_map.1 hsource
    have hmem := List.fst_mem_of_mem_zipIdx hp
    cases hsome : p.1.2 with
    | none => exact ⟨by simp [Keyed], by simp⟩
    | some found => simpa [hsome] using hwf p.1 hmem found hsome
  obtain ⟨hcanonical, hlossless⟩ := hmerged.sort (hmerged.ascending hordered hsources)
  exact ⟨_, rfl, hcanonical, hlossless⟩

namespace Sample

/-- Block 0 reads slot 5 and writes slot 7, block 1 has no list, block 2 writes slot 5. -/
def lists : List (Option (BlockAccessList ℕ ℕ)) :=
  [some [{ address := 1, storageChanges := [⟨7, [⟨1, 10⟩]⟩], storageReads := [5, 9] }], none,
    some [{ address := 2, balanceChanges := [⟨0, 3⟩] },
      { address := 1, storageChanges := [⟨5, [⟨2, 20⟩]⟩] }]]

theorem merged_access_list_sample :
    (∀ p ∈ [2, 3, 1].zip lists, ∀ list ∈ p.2, WellFormed (id p.1) list) ∧
      ∃ list, mergeBlockAccessLists id id [2, 3, 1] lists = some list ∧ Canonical list ∧
        Lossless (sources id [2, 3, 1] lists) list := by
  have hwf : ∀ p ∈ [2, 3, 1].zip lists, ∀ list ∈ p.2, WellFormed (id p.1) list := by
    intro p hp list hlist
    simp [lists] at hp
    rcases hp with rfl | rfl | rfl <;> simp at hlist <;> subst hlist <;>
      refine ⟨by simp [Keyed], fun account haccount => ?_⟩ <;> simp at haccount
    · subst haccount
      constructor <;> simp [indexed_iff, Keyed, writtenSlots]
    · rcases haccount with rfl | rfl <;>
        constructor <;> simp [indexed_iff, Keyed, writtenSlots]
  refine ⟨hwf, ?_⟩
  obtain ⟨-, -, h⟩ := merged_access_list id id [2, 3, 1] lists hwf
  obtain ⟨list, hlist, hrest⟩ := h _ rfl
  exact ⟨_, rfl, hlist ▸ hrest⟩

end Sample

end TxGen.BlockAccess
