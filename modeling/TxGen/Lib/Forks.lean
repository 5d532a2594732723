import Mathlib

set_option autoImplicit false

/-! # Chains of blocks that are reorganised

A chain is a list of blocks. A block names all blocks before it by its hash, so two chains with the same
hash somewhere are the same up to there (`Ledger.determined`). -/

universe u v

/-- The hash of the block with a number. -/
def hashAt {β : Type u} {η : Type v} (hash : β → η) (chain : List β) (n : ℕ) : Option η :=
  chain[n]?.map hash

/-- The chains that may be canonical. -/
structure Ledger {β : Type u} {η : Type v} (hash : β → η) where
  chains : Set (List β)
  determined : ∀ chain ∈ chains, ∀ chain' ∈ chains, ∀ (n : ℕ) (b b' : β), chain[n]? = some b →
    chain'[n]? = some b' → hash b = hash b' → chain.take (n + 1) = chain'.take (n + 1)

namespace Ledger

variable {β : Type u} {η : Type v} {hash : β → η}

/-- The next chain holds none of the blocks that the present one has lost. -/
def Steady (hash : β → η) (history : List (List β)) (present next : List β) : Prop :=
  ∀ c ∈ history, ∀ (n : ℕ) (h : η), hashAt hash c n = some h → hashAt hash next n = some h →
    hashAt hash present n = some h

/-- The block was canonical. -/
def Seen (hash : β → η) (history : List (List β)) (n : ℕ) (h : η) : Prop :=
  ∃ c ∈ history, hashAt hash c n = some h

variable {L : Ledger hash} {c c' : List β} {n m : ℕ} {h : η} {history : List (List β)}

theorem lt_of_hashAt (hc : hashAt hash c n = some h) : n < c.length := by
  obtain ⟨b, hb, -⟩ := Option.map_eq_some_iff.1 hc
  exact (List.getElem?_eq_some_iff.1 hb).1

theorem take_eq_of_hashAt (hmem : c ∈ L.chains) (hmem' : c' ∈ L.chains) (hc : hashAt hash c n = some h)
    (hc' : hashAt hash c' n = some h) : c.take (n + 1) = c'.take (n + 1) := by
  obtain ⟨b, hb, hhash⟩ := Option.map_eq_some_iff.1 hc
  obtain ⟨b', hb', hhash'⟩ := Option.map_eq_some_iff.1 hc'
  exact L.determined c hmem c' hmem' n b b' hb hb' (hhash.trans hhash'.symm)

theorem hashAt_of_take (htake : c.take m = c'.take m) (hlt : n < m) : hashAt hash c n = hashAt hash c' n := by
  have hget := congrArg (fun l => l[n]?) htake
  simp only [List.getElem?_take_of_lt hlt] at hget
  unfold hashAt
  rw [hget]

/-- Chains that agree agree on every shorter part. -/
theorem take_of_take (htake : c.take m = c'.take m) (hle : n ≤ m) : c.take n = c'.take n := by
  have hshort := congrArg (List.take n) htake
  rwa [List.take_take, List.take_take, Nat.min_eq_left hle] at hshort

theorem Seen.mono {history' : List (List β)} (hseen : Seen hash history n h) (hsub : history ⊆ history') :
    Seen hash history' n h := by
  obtain ⟨c, hc, hat⟩ := hseen
  exact ⟨c, hsub hc, hat⟩

/-- A block that is canonical afterwards was so before, on the same chain up to it. -/
theorem Steady.take_eq {next : List β} (hsteady : Steady hash history c next) (hseen : Seen hash history n h)
    (hmem : c ∈ L.chains) (hmem' : next ∈ L.chains) (hnext : hashAt hash next n = some h) :
    hashAt hash c n = some h ∧ c.take (n + 1) = next.take (n + 1) := by
  obtain ⟨past, hpast, hat⟩ := hseen
  have hnow := hsteady past hpast n h hat hnext
  exact ⟨hnow, take_eq_of_hashAt hmem hmem' hnow hnext⟩

/-- **Frame rule.** What is known of the chain up to a block that was canonical stays known for as long
as the block is canonical. -/
theorem Steady.carry {P : List β → Prop} {next : List β} (hsteady : Steady hash history c next)
    (hP : ∀ c ∈ L.chains, ∀ c' ∈ L.chains, c.take (n + 1) = c'.take (n + 1) → P c → P c')
    (hseen : Seen hash history n h) (hmem : c ∈ L.chains) (hmem' : next ∈ L.chains)
    (hnow : hashAt hash c n = some h → P c) : hashAt hash next n = some h → P next := by
  intro hnext
  obtain ⟨hat, htake⟩ := hsteady.take_eq hseen hmem hmem' hnext
  exact hP c hmem next hmem' htake (hnow hat)

end Ledger
