import TxGen.Lib.KeyedLists

set_option autoImplicit false

/-! # Merging the access lists of several blocks

`txgen-cli`'s `bal.rs`: a big block is executed from several source blocks, and their block access
lists are merged into one. `A` are addresses and `S` storage slots. -/

namespace TxGen.BlockAccess

/-! ## Access lists -/

/-- `StorageChange`, `BalanceChange`, `NonceChange` or `CodeChange`: what a value was changed into, and
    by which transaction of the block. -/
structure Change (V : Type) where
  blockAccessIndex : ℕ
  value : V
deriving DecidableEq

structure SlotChanges (S : Type) where
  slot : S
  changes : List (Change ℕ)
deriving DecidableEq

structure AccountChanges (A S : Type) where
  address : A
  storageChanges : List (SlotChanges S) := []
  storageReads : List S := []
  balanceChanges : List (Change ℕ) := []
  nonceChanges : List (Change ℕ) := []
  codeChanges : List (Change (List UInt8)) := []
deriving DecidableEq

abbrev BlockAccessList (A S : Type) := List (AccountChanges A S)

variable {A S : Type} [LinearOrder A] [LinearOrder S]

/-! ## Merging -/

/-- `BlockAccessIndex::new(change.block_access_index.get() + shift)` for each change -/
def shiftChanges {V : Type} (shift : ℕ) (changes : List (Change V)) : List (Change V) :=
  changes.map fun change => { change with blockAccessIndex := change.blockAccessIndex + shift }

def SlotChanges.shifted (shift : ℕ) (slotChanges : SlotChanges S) : SlotChanges S :=
  { slotChanges with changes := shiftChanges shift slotChanges.changes }

/-- Per-block lists use index 0 for pre-execution writes, `1..tx_count` for transactions and
    `tx_count + 1` for post-execution. -/
def shiftAccountChanges (account : AccountChanges A S) (txIndexOffset segmentIdx : ℕ) :
    AccountChanges A S :=
  let shift := txIndexOffset + 2 * segmentIdx
  { account with
    storageChanges := account.storageChanges.map (·.shifted shift)
    balanceChanges := shiftChanges shift account.balanceChanges
    nonceChanges := shiftChanges shift account.nonceChanges
    codeChanges := shiftChanges shift account.codeChanges }

/-- `existing[idx].changes.extend(slot_changes.changes)` -/
def extendSlot (existing incoming : SlotChanges S) : SlotChanges S :=
  { existing with changes := existing.changes ++ incoming.changes }

def mergeSlotChanges (existing incoming : List (SlotChanges S)) : List (SlotChanges S) :=
  KeyedList.mergeEntries SlotChanges.slot extendSlot
    (KeyedList.positions SlotChanges.slot existing) existing incoming

/-- `retain(|slot| seen.insert(*slot))` -/
def retainUnseen : List S → List S → List S
  | _, [] => []
  | seen, slot :: rest =>
    if slot ∈ seen then retainUnseen seen rest else slot :: retainUnseen (slot :: seen) rest

/-- Writes are kept and the reads they shadow are dropped. -/
def mergeAccountChanges (existing incoming : AccountChanges A S) : AccountChanges A S :=
  let storageChanges := mergeSlotChanges existing.storageChanges incoming.storageChanges
  let written := storageChanges.map SlotChanges.slot
  { existing with
    storageChanges
    storageReads := retainUnseen []
      ((existing.storageReads ++ incoming.storageReads).filter fun slot => slot ∉ written)
    balanceChanges := existing.balanceChanges ++ incoming.balanceChanges
    nonceChanges := existing.nonceChanges ++ incoming.nonceChanges
    codeChanges := existing.codeChanges ++ incoming.codeChanges }

def mergeBlockAccessList (merged incoming : BlockAccessList A S) (txIndexOffset segmentIdx : ℕ) :
    BlockAccessList A S :=
  KeyedList.mergeEntries AccountChanges.address mergeAccountChanges
    (KeyedList.positions AccountChanges.address merged) merged
    (incoming.map fun account => shiftAccountChanges account txIndexOffset segmentIdx)

/-! ## Sorting -/

def sortChanges {V : Type} (changes : List (Change V)) : List (Change V) :=
  changes.mergeSort fun a b => decide (a.blockAccessIndex ≤ b.blockAccessIndex)

def SlotChanges.sorted (slotChanges : SlotChanges S) : SlotChanges S :=
  { slotChanges with changes := sortChanges slotChanges.changes }

def sortAccountChanges (account : AccountChanges A S) : AccountChanges A S :=
  { account with
    storageChanges := (account.storageChanges.mergeSort fun a b => decide (a.slot ≤ b.slot)).map
      SlotChanges.sorted
    storageReads := account.storageReads.mergeSort fun a b => decide (a ≤ b)
    balanceChanges := sortChanges account.balanceChanges
    nonceChanges := sortChanges account.nonceChanges
    codeChanges := sortChanges account.codeChanges }

def sortAccessList (merged : BlockAccessList A S) : BlockAccessList A S :=
  (merged.mergeSort fun a b => decide (a.address ≤ b.address)).map sortAccountChanges

/-! ## All blocks -/

section

variable {B Encoded : Type} (transactionCount : B → ℕ)

/-- The loop over the blocks and their lists. -/
def mergeBlocks : ℕ → ℕ → Option (BlockAccessList A S) → List (B × Option (BlockAccessList A S)) →
    Option (BlockAccessList A S)
  | _, _, merged, [] => merged
  | blockIdx, cumulativeTxCount, merged, (blockData, blockAccessList) :: rest =>
    let merged := match blockAccessList with
      | some incoming => some (mergeBlockAccessList (merged.getD []) incoming cumulativeTxCount blockIdx)
      | none => merged
    mergeBlocks (blockIdx + 1) (cumulativeTxCount + transactionCount blockData) merged rest

/-- The merged list is sorted and encoded. There is none if no block has a list. -/
def mergeBlockAccessLists (encode : BlockAccessList A S → Encoded) (blocks : List B)
    (blockAccessLists : List (Option (BlockAccessList A S))) : Option Encoded :=
  (mergeBlocks transactionCount 0 0 none (blocks.zip blockAccessLists)).map fun merged =>
    encode (sortAccessList merged)

end

end TxGen.BlockAccess
