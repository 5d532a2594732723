import Mathlib

set_option autoImplicit false

/-! # Binary search in a partitioned list

In a list where what satisfies `p` comes first, `partitionPoint` finds where the rest starts. -/

universe u

namespace Bisection

variable {α : Type u}

/-- Halve the interval from `lo` to `hi`; the fuel bounds the number of halvings. -/
def searchBetween (p : α → Bool) (l : List α) : ℕ → ℕ → ℕ → ℕ
  | 0, lo, _ => lo
  | fuel + 1, lo, hi =>
    if lo < hi then
      if l[(lo + hi) / 2]?.any p then searchBetween p l fuel ((lo + hi) / 2 + 1) hi
      else searchBetween p l fuel lo ((lo + hi) / 2)
    else lo

/-- The index of the first element that does not satisfy `p`. -/
def partitionPoint (p : α → Bool) (l : List α) : ℕ := searchBetween p l l.length 0 l.length

variable {p : α → Bool} {l : List α}

theorem any_of_pairwise (hl : l.Pairwise fun a b => p b = true → p a = true) {i j : ℕ} (hij : i ≤ j)
    (hj : l[j]?.any p = true) : l[i]?.any p = true := by
  rcases Nat.lt_or_eq_of_le hij with hlt | rfl
  · cases hb : l[j]? with
    | none =>
        rw [hb] at hj
        cases hj
    | some b =>
        rw [hb] at hj
        obtain ⟨hjl, rfl⟩ := List.getElem?_eq_some_iff.1 hb
        rw [List.getElem?_eq_getElem (Nat.lt_trans hlt hjl)]
        exact List.pairwise_iff_getElem.1 hl i j (Nat.lt_trans hlt hjl) hjl hlt hj
  · exact hj

/-- Before the interval `p` holds, and after it it does not. -/
theorem searchBetween_spec (hl : l.Pairwise fun a b => p b = true → p a = true) {fuel lo hi : ℕ}
    (hfuel : hi ≤ lo + fuel) (hle : lo ≤ hi) (hlo : ∀ i < lo, l[i]?.any p = true)
    (hhi : ∀ i, hi ≤ i → l[i]?.any p = false) :
    (∀ i < searchBetween p l fuel lo hi, l[i]?.any p = true) ∧
      ∀ i, searchBetween p l fuel lo hi ≤ i → l[i]?.any p = false := by
  induction fuel generalizing lo hi with
  | zero =>
      obtain rfl : lo = hi := by omega
      exact ⟨hlo, hhi⟩
  | succ fuel ih =>
      rw [searchBetween]
      split
      · split
        · rename_i hmid
          refine ih (by omega) (by omega) (fun i hi' => ?_) hhi
          exact any_of_pairwise hl (by omega) hmid
        · rename_i hmid
          refine ih (by omega) (by omega) hlo fun i hi' => ?_
          rw [Bool.eq_false_iff]
          exact fun h => hmid (any_of_pairwise hl hi' h)
      · obtain rfl : lo = hi := by omega
        exact ⟨hlo, hhi⟩

/-- At the partition point is the first element that does not satisfy `p`. -/
theorem getElem?_partitionPoint (hl : l.Pairwise fun a b => p b = true → p a = true) :
    l[partitionPoint p l]? = l.find? fun a => !p a := by
  obtain ⟨hbefore, hafter⟩ := @searchBetween_spec _ p l hl l.length 0 l.length (by omega) (Nat.zero_le _)
    (by simp) fun i hi => by rw [List.getElem?_eq_none hi]; rfl
  change l[searchBetween p l l.length 0 l.length]? = _
  generalize searchBetween p l l.length 0 l.length = k at hbefore hafter
  cases hk : l[k]? with
  | none =>
      rw [eq_comm, List.find?_eq_none]
      intro a ha
      obtain ⟨i, hi, rfl⟩ := List.mem_iff_getElem.1 ha
      have := hbefore i (lt_of_lt_of_le hi (List.getElem?_eq_none_iff.1 hk))
      rw [List.getElem?_eq_getElem hi] at this
      simpa using this
  | some a =>
      obtain ⟨hlt, rfl⟩ := List.getElem?_eq_some_iff.1 hk
      rw [eq_comm, List.find?_eq_some_iff_getElem]
      have hnot := hafter k le_rfl
      rw [hk] at hnot
      refine ⟨by simpa using hnot, k, hlt, rfl, fun j hj => ?_⟩
      have := hbefore j hj
      rw [List.getElem?_eq_getElem (Nat.lt_trans hj hlt)] at this
      simpa using this

end Bisection
