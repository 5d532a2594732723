import Mathlib

set_option autoImplicit false

/-! # Ranks

The members of a list are the elements that pass a test. A member is known by its rank, the number of
members before it; with the number of a copy of the list in front, the members of all copies are numbered
without a gap. -/

universe u

namespace Rank

variable {α : Type u} (p : α → Bool) (l : List α)

def IsMember (i : ℕ) : Prop := (l[i]?.any p) = true

def rank (i : ℕ) : ℕ := (l.take i).countP p

/-- The number of a member in a copy of the list. -/
def number (copy i : ℕ) : ℕ := copy * l.countP p + rank p l i

variable {p l} {i j copy copy' : ℕ}

theorem isMember_iff : IsMember p l i ↔ ∃ a, l[i]? = some a ∧ p a = true := Option.any_eq_true _ _

theorem rank_succ (h : IsMember p l i) : rank p l (i + 1) = rank p l i + 1 := by
  obtain ⟨a, ha, hp⟩ := isMember_iff.1 h
  rw [rank, rank, List.take_add_one, ha, Option.toList_some, List.countP_append,
    List.countP_singleton, if_pos hp]

theorem rank_mono (hle : i ≤ j) : rank p l i ≤ rank p l j :=
  (List.take_sublist_take_left hle).countP_le

theorem rank_lt (h : IsMember p l i) : rank p l i < l.countP p := by
  have hsucc := rank_succ h
  have hle : rank p l (i + 1) ≤ l.countP p := (List.take_sublist (i + 1) l).countP_le
  omega

theorem rank_lt_of_lt (h : IsMember p l i) (hlt : i < j) : rank p l i < rank p l j := by
  have hsucc := rank_succ h
  have hle : rank p l (i + 1) ≤ rank p l j := rank_mono hlt
  omega

theorem rank_injective (hi : IsMember p l i) (hj : IsMember p l j)
    (h : rank p l i = rank p l j) : i = j := by
  rcases Nat.lt_trichotomy i j with hlt | rfl | hgt
  · have := rank_lt_of_lt hi hlt
    omega
  · rfl
  · have := rank_lt_of_lt hj hgt
    omega

/-- Every rank is taken. -/
theorem exists_rank {r : ℕ} (hr : r < l.countP p) : ∃ i, IsMember p l i ∧ rank p l i = r := by
  induction l generalizing r with
  | nil => simp at hr
  | cons a l ih =>
      by_cases ha : p a = true
      · cases r with
        | zero => exact ⟨0, by simpa [IsMember] using ha, rfl⟩
        | succ r =>
            rw [List.countP_cons_of_pos ha] at hr
            obtain ⟨i, hi, hrank⟩ := ih (Nat.lt_of_succ_lt_succ hr)
            refine ⟨i + 1, by simpa [IsMember] using hi, ?_⟩
            rw [rank, List.take_succ_cons, List.countP_cons_of_pos ha]
            exact congrArg (· + 1) hrank
      · rw [List.countP_cons_of_neg ha] at hr
        obtain ⟨i, hi, hrank⟩ := ih hr
        refine ⟨i + 1, by simpa [IsMember] using hi, ?_⟩
        rw [rank, List.take_succ_cons, List.countP_cons_of_neg ha]
        exact hrank

/-- No two members of the copies have the same number. -/
theorem number_injective (hi : IsMember p l i) (hj : IsMember p l j)
    (h : number p l copy i = number p l copy' j) : copy = copy' ∧ i = j := by
  have hdiv : ∀ (c k : ℕ), IsMember p l k → number p l c k / l.countP p = c := by
    intro c k hk
    have hrank := rank_lt hk
    rw [number, Nat.add_comm, Nat.add_mul_div_right _ _ (Nat.zero_lt_of_lt hrank),
      Nat.div_eq_of_lt hrank, Nat.zero_add]
  have hcopy : copy = copy' := by rw [← hdiv copy i hi, h, hdiv copy' j hj]
  subst hcopy
  exact ⟨rfl, rank_injective hi hj (Nat.add_left_cancel h)⟩

/-- The members of the first copies have the first numbers, and every one of them is taken. -/
theorem exists_number_iff {n v : ℕ} :
    (∃ copy < n, ∃ i, IsMember p l i ∧ number p l copy i = v) ↔ v < n * l.countP p := by
  constructor
  · rintro ⟨copy, hcopy, i, hi, rfl⟩
    have hrank := rank_lt hi
    calc number p l copy i < copy * l.countP p + l.countP p := Nat.add_lt_add_left hrank _
      _ = (copy + 1) * l.countP p := by ring
      _ ≤ n * l.countP p := Nat.mul_le_mul_right _ hcopy
  · intro hv
    have hpos : 0 < l.countP p := by
      rcases Nat.eq_zero_or_pos (l.countP p) with hzero | hpos
      · rw [hzero, Nat.mul_zero] at hv
        exact absurd hv (Nat.not_lt_zero v)
      · exact hpos
    obtain ⟨i, hi, hrank⟩ := exists_rank (Nat.mod_lt v hpos)
    refine ⟨v / l.countP p, (Nat.div_lt_iff_lt_mul hpos).2 hv, i, hi, ?_⟩
    rw [number, hrank, Nat.mul_comm]
    exact Nat.div_add_mod v _

end Rank
