import Mathlib

set_option autoImplicit false

/-! # Fair binary semaphores, and taking several of them in order

A permit that is given back goes to the first waiter. When every task waits only for a resource that
comes after all those it holds, no tasks wait for each other in a cycle: along a chain of waiting
tasks the resources ascend, and among the waiters of one resource the places in its queue descend. -/

universe u v

namespace TxGen

/-! ## Binary semaphores -/

/-- A semaphore with one permit; waiters are served in the order of their requests. -/
structure BinarySemaphore (ι : Type u) where
  holder : Option ι := none
  waiters : List ι := []
deriving DecidableEq

namespace BinarySemaphore

variable {ι : Type u}

/-- Take the permit, or queue up. -/
def acquire (s : BinarySemaphore ι) (i : ι) : Bool × BinarySemaphore ι :=
  match s.holder, s.waiters with
  | none, [] => (true, { s with holder := some i })
  | _, _ => (false, { s with waiters := s.waiters ++ [i] })

/-- Give the permit back; it goes to the first waiter. -/
def release (s : BinarySemaphore ι) : BinarySemaphore ι :=
  match s.waiters with
  | [] => { s with holder := none }
  | i :: waiters => { holder := some i, waiters }

/-- The permit is only free when nobody waits, nobody waits twice, and nobody waits for himself. -/
structure Fair (s : BinarySemaphore ι) : Prop where
  taken : s.holder = none → s.waiters = []
  nodup : s.waiters.Nodup
  other : ∀ i, s.holder = some i → i ∉ s.waiters

theorem fair_empty : ({} : BinarySemaphore ι).Fair := ⟨fun _ => rfl, List.nodup_nil, nofun⟩

/-- Who has the permit or waits for it. -/
def Involved (s : BinarySemaphore ι) (i : ι) : Prop := s.holder = some i ∨ i ∈ s.waiters

theorem acquire_spec {s : BinarySemaphore ι} (h : s.Fair) (i : ι) :
    (s.holder = none ∧ s.acquire i = (true, ⟨some i, []⟩)) ∨
      (∃ j, s.holder = some j ∧ s.acquire i = (false, ⟨some j, s.waiters ++ [i]⟩)) := by
  obtain ⟨holder, waiters⟩ := s
  cases holder with
  | none =>
      obtain rfl : waiters = [] := h.taken rfl
      exact Or.inl ⟨rfl, rfl⟩
  | some j => exact Or.inr ⟨j, rfl, rfl⟩

theorem Fair.acquire {s : BinarySemaphore ι} (h : s.Fair) {i : ι} (hi : ¬ s.Involved i) :
    (s.acquire i).2.Fair := by
  rcases acquire_spec h i with ⟨-, heq⟩ | ⟨j, hj, heq⟩
  · rw [heq]
    exact ⟨nofun, List.nodup_nil, fun _ _ => List.not_mem_nil⟩
  · rw [heq]
    refine ⟨nofun, ?_, fun k hk => ?_⟩
    · exact h.nodup.append (List.nodup_singleton i)
        (List.disjoint_singleton.2 fun hin => hi (Or.inr hin))
    · cases hk
      rw [List.mem_append, List.mem_singleton]
      rintro (hin | rfl)
      · exact h.other j hj hin
      · exact hi (Or.inl hj)

theorem Fair.release {s : BinarySemaphore ι} (h : s.Fair) : s.release.Fair := by
  obtain ⟨holder, waiters⟩ := s
  cases waiters with
  | nil => exact ⟨fun _ => rfl, List.nodup_nil, nofun⟩
  | cons i waiters =>
      obtain ⟨hi, hnodup⟩ := List.nodup_cons.1 h.nodup
      refine ⟨nofun, hnodup, fun j hj => ?_⟩
      cases hj
      exact hi

/-- Everyone who is involved stays involved, but for the one who gives the permit back. -/
theorem involved_release {s : BinarySemaphore ι} (h : s.Fair) {i : ι} (hi : s.holder = some i)
    (j : ι) : s.release.Involved j ↔ s.Involved j ∧ j ≠ i := by
  obtain ⟨holder, waiters⟩ := s
  obtain rfl : holder = some i := hi
  have hother := h.other i rfl
  cases waiters with
  | nil => simp [release, Involved, eq_comm]
  | cons k waiters =>
      simp only [release, Involved, Option.some.injEq, List.mem_cons, not_or] at hother ⊢
      constructor
      · rintro (rfl | hj)
        · exact ⟨Or.inr (Or.inl rfl), fun heq => hother.1 heq.symm⟩
        · exact ⟨Or.inr (Or.inr hj), fun heq => hother.2 (heq ▸ hj)⟩
      · rintro ⟨rfl | rfl | hj, hne⟩
        · exact absurd rfl hne
        · exact Or.inl rfl
        · exact Or.inr hj

end BinarySemaphore

/-! ## Waiting in order -/

/-- What tasks wait for, at which place of its queue, and what they hold. -/
structure WaitGraph (ι : Type u) (ρ : Type v) where
  waits : ι → Option ρ
  place : ι → ℕ
  holds : ι → ρ → Prop

namespace WaitGraph

variable {ι : Type u} {ρ : Type v} [LinearOrder ρ] (g : WaitGraph ι ρ)

/-- `i` cannot go on before `j` has given back, or has been given, what `i` waits for. -/
def BlockedBy (i j : ι) : Prop :=
  ∃ r, g.waits i = some r ∧ (g.holds j r ∨ g.waits j = some r ∧ g.place j < g.place i)

/-- Tasks take resources in ascending order. -/
def Ascending : Prop := ∀ (i : ι) (r : ρ), g.waits i = some r → ∀ r', g.holds i r' → r' < r

/-- The chain of waiting tasks goes up. -/
def Below (i j : ι) : Prop :=
  ∃ r r', g.waits i = some r ∧ g.waits j = some r' ∧ (r < r' ∨ r = r' ∧ g.place j < g.place i)

variable {g}

theorem Below.trans {i j k : ι} (hij : g.Below i j) (hjk : g.Below j k) : g.Below i k := by
  obtain ⟨r₁, r₂, h₁, h₂, h₁₂⟩ := hij
  obtain ⟨r₂', r₃, h₂', h₃, h₂₃⟩ := hjk
  obtain rfl := Option.some.inj (h₂.symm.trans h₂')
  refine ⟨r₁, r₃, h₁, h₃, ?_⟩
  rcases h₁₂ with hlt | ⟨rfl, hlt⟩
  · rcases h₂₃ with hlt' | ⟨rfl, -⟩
    · exact Or.inl (hlt.trans hlt')
    · exact Or.inl hlt
  · exact h₂₃.imp_right fun ⟨heq, hlt'⟩ => ⟨heq, Nat.lt_trans hlt' hlt⟩

theorem Below.irrefl (i : ι) : ¬ g.Below i i := by
  rintro ⟨r, r', h, h', hlt | ⟨-, hlt⟩⟩
  · obtain rfl := Option.some.inj (h.symm.trans h')
    exact lt_irrefl r hlt
  · exact Nat.lt_irrefl _ hlt

theorem BlockedBy.below (h : g.Ascending) {i j : ι} (hij : g.BlockedBy i j)
    (hj : g.waits j ≠ none) : g.Below i j := by
  obtain ⟨r, hi, hholds | ⟨hwaits, hplace⟩⟩ := hij
  · obtain ⟨r', hr'⟩ := Option.ne_none_iff_exists'.1 hj
    exact ⟨r, r', hi, hr', Or.inl (h j r' hr' r hholds)⟩
  · exact ⟨r, r, hi, hwaits, Or.inr ⟨rfl, hplace⟩⟩

/-- **No cycle.** -/
theorem not_transGen_blockedBy_self (h : g.Ascending) (i : ι) :
    ¬ Relation.TransGen g.BlockedBy i i := by
  have hbelow : ∀ {j k : ι}, Relation.TransGen g.BlockedBy j k → g.waits k ≠ none →
      g.Below j k := by
    intro j k hjk
    induction hjk with
    | single hjk => exact hjk.below h
    | @tail k l _ hkl ih =>
        intro hl
        have hk : g.waits k ≠ none := by
          obtain ⟨r, hr, -⟩ := hkl
          rw [hr]
          nofun
        exact (ih hk).trans (hkl.below h hl)
  intro hcycle
  obtain ⟨j, ⟨r, hr, -⟩, -⟩ := Relation.TransGen.head'_iff.1 hcycle
  exact Below.irrefl i (hbelow hcycle (by rw [hr]; nofun))

/-- At the end of every chain of waiting tasks there is one that does not wait. -/
theorem exists_unblocked [DecidableEq ι] (h : g.Ascending) (waiting : Finset ι)
    (hwaiting : ∀ i, g.waits i ≠ none → i ∈ waiting)
    (hblocked : ∀ i, g.waits i ≠ none → ∃ j, g.BlockedBy i j) {i : ι} (hi : g.waits i ≠ none) :
    ∃ j, Relation.TransGen g.BlockedBy i j ∧ g.waits j = none := by
  classical
  -- on the number of waiting tasks further up the chain
  induction hn : (waiting.filter (g.Below i)).card using Nat.strong_induction_on generalizing i with
  | _ n ih =>
      obtain ⟨j, hij⟩ := hblocked i hi
      by_cases hj : g.waits j = none
      · exact ⟨j, .single hij, hj⟩
      have hbelow := hij.below h hj
      have hlt : (waiting.filter (g.Below j)).card < n := by
        rw [← hn]
        refine Finset.card_lt_card ((Finset.ssubset_iff_of_subset fun k hk => ?_).2 ⟨j, ?_, ?_⟩)
        · rw [Finset.mem_filter] at hk ⊢
          exact ⟨hk.1, hbelow.trans hk.2⟩
        · exact Finset.mem_filter.2 ⟨hwaiting j hj, hbelow⟩
        · exact fun hin => Below.irrefl j (Finset.mem_filter.1 hin).2
      obtain ⟨k, hjk, hk⟩ := ih _ hlt hj rfl
      exact ⟨k, .head hij hjk, hk⟩

end WaitGraph

end TxGen
