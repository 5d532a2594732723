import TxGen.Lib.KeyedLists

set_option autoImplicit false

/-! # The smallest of a stream

A sorted table that keeps a bounded number of entries: a new entry is taken while there is room, or when
it goes before the last one, which then makes way. Whatever the order in which the entries come, those
with the smallest keys are left. -/

universe u v

namespace Smallest

open KeyedList

variable {α : Type u} {κ : Type v} [LinearOrder κ] (key : α → κ)

/-- Insert into a sorted table; an entry of the same key is replaced. -/
def insert (a : α) : List α → List α
  | [] => [a]
  | b :: l =>
    if key a < key b then a :: b :: l
    else if key a = key b then a :: l
    else b :: insert a l

/-- Insert an entry where it is one of the `limit` smallest. -/
def offer (limit : ℕ) (l : List α) (a : α) : List α :=
  if l.length < limit ∨ l.getLast?.any (fun last => key a < key last) = true
  then (insert key a l).take limit
  else l

/-- The entries with the `limit` smallest keys, in order. -/
def smallest (limit : ℕ) (l : List α) : List α :=
  (l.mergeSort fun a b => decide (key a ≤ key b)).take limit

variable {key} {a : α} {l : List α}

theorem insert_perm (h : ∀ b ∈ l, key b ≠ key a) : (insert key a l).Perm (a :: l) := by
  induction l with
  | nil => exact List.Perm.refl _
  | cons b l ih =>
      obtain ⟨hb, hl⟩ := List.forall_mem_cons.1 h
      simp only [insert]
      split
      · exact List.Perm.refl _
      · rw [if_neg (Ne.symm hb)]
        exact ((ih hl).cons b).trans (List.Perm.swap a b l)

theorem mem_of_mem_insert {c : α} (h : c ∈ insert key a l) : c = a ∨ c ∈ l := by
  induction l with
  | nil => exact .inl (List.mem_singleton.1 h)
  | cons b l ih =>
      simp only [insert] at h
      split at h
      · exact List.mem_cons.1 h
      · split at h
        · exact (List.mem_cons.1 h).imp_right (List.mem_cons_of_mem b)
        · rcases List.mem_cons.1 h with rfl | hc
          · exact .inr List.mem_cons_self
          · exact (ih hc).imp_right (List.mem_cons_of_mem b)

theorem insert_sorted (hl : l.Pairwise fun a b => key a < key b) :
    (insert key a l).Pairwise fun a b => key a < key b := by
  induction l with
  | nil => exact List.pairwise_singleton _ _
  | cons b l ih =>
      obtain ⟨hb, hrest⟩ := List.pairwise_cons.1 hl
      simp only [insert]
      split
      · next hlt =>
          refine List.pairwise_cons.2 ⟨?_, hl⟩
          exact List.forall_mem_cons.2 ⟨hlt, fun c hc => hlt.trans (hb c hc)⟩
      · next hnlt =>
          split
          · next heq => exact List.pairwise_cons.2 ⟨fun c hc => heq ▸ hb c hc, hrest⟩
          · next hne =>
              refine List.pairwise_cons.2 ⟨fun c hc => ?_, ih hrest⟩
              rcases mem_of_mem_insert hc with rfl | hc
              · exact lt_of_le_of_ne (not_lt.1 hnlt) (Ne.symm hne)
              · exact hb c hc

/-- What is cut off does not come back. -/
theorem take_insert_take (limit : ℕ) :
    (insert key a (l.take limit)).take limit = (insert key a l).take limit := by
  induction l generalizing limit with
  | nil => rw [List.take_nil]
  | cons b l ih =>
      cases limit with
      | zero => rfl
      | succ limit =>
          simp only [List.take_succ_cons, insert]
          split
          · cases limit with
            | zero => rfl
            | succ limit => simp [List.take_take]
          · split
            · simp [List.take_take]
            · rw [List.take_succ_cons, List.take_succ_cons, ih limit]

/-- An entry behind the first ones does not change them. -/
theorem take_insert_of_lt {limit : ℕ} (hlimit : limit ≤ l.length)
    (h : ∀ b ∈ l.take limit, key b < key a) : (insert key a l).take limit = l.take limit := by
  induction l generalizing limit with
  | nil =>
      obtain rfl : limit = 0 := Nat.le_zero.1 hlimit
      rfl
  | cons b l ih =>
      cases limit with
      | zero => rfl
      | succ limit =>
          rw [List.take_succ_cons] at h
          obtain ⟨hb, hrest⟩ := List.forall_mem_cons.1 h
          rw [insert, if_neg (not_lt.2 hb.le), if_neg (ne_of_gt hb), List.take_succ_cons,
            List.take_succ_cons, ih (Nat.le_of_succ_le_succ hlimit) hrest]

/-- The table is always the first part of the table that has everything. -/
theorem offer_take (limit : ℕ) (hl : l.Pairwise fun a b => key a < key b)
    (hne : ∀ b ∈ l, key b ≠ key a) :
    offer key limit (l.take limit) a = (insert key a l).take limit := by
  unfold offer
  split
  · exact take_insert_take limit
  · next hfull =>
      push Not at hfull
      obtain ⟨hlength, hlast⟩ := hfull
      rw [List.length_take] at hlength
      refine (take_insert_of_lt (by omega) fun b hb => ?_).symm
      -- the last entry kept is not behind the new one, and no entry kept is behind the last one
      have hle : key b ≤ key a := by
        have hsorted := hl.sublist (List.take_sublist limit l)
        rcases List.eq_nil_or_concat (l.take limit) with hnil | ⟨front, last, hconcat⟩
        · rw [hnil] at hb
          cases hb
        · rw [List.concat_eq_append] at hconcat
          rw [hconcat] at hb hsorted hlast
          have hlt : key last ≤ key a := by simpa using hlast
          rcases List.mem_append.1 hb with hb | hb
          · exact ((List.pairwise_append.1 hsorted).2.2 b hb last (by simp)).le.trans hlt
          · rwa [List.mem_singleton.1 hb]
      exact lt_of_le_of_ne hle (hne b (List.mem_of_mem_take hb))

/-- The table is bounded. -/
theorem length_foldl_offer (limit : ℕ) (xs : List α) :
    (xs.foldl (offer key limit) []).length ≤ limit := by
  induction xs using List.reverseRecOn with
  | nil => exact Nat.zero_le _
  | append_singleton xs a ih =>
      rw [List.foldl_append]
      show (offer key limit (xs.foldl (offer key limit) []) a).length ≤ limit
      unfold offer
      split
      · exact List.length_take_le _ _
      · exact ih

theorem foldl_insert {xs : List α} (h : Keyed key xs) :
    (xs.foldl (fun l a => insert key a l) []).Perm xs ∧
      (xs.foldl (fun l a => insert key a l) []).Pairwise fun a b => key a < key b := by
  induction xs using List.reverseRecOn with
  | nil => exact ⟨List.Perm.refl _, List.Pairwise.nil⟩
  | append_singleton xs a ih =>
      obtain ⟨hxs, -, hlast⟩ := List.pairwise_append.1 h
      obtain ⟨hperm, hsorted⟩ := ih hxs
      rw [List.foldl_append]
      refine ⟨?_, insert_sorted hsorted⟩
      have hne : ∀ b ∈ xs.foldl (fun l a => insert key a l) [], key b ≠ key a := fun b hb =>
        hlast b (hperm.mem_iff.1 hb) a (List.mem_singleton_self a)
      exact (insert_perm hne).trans ((hperm.cons a).trans (List.perm_append_singleton a xs).symm)

/-- **The smallest are left.** After entries with distinct keys were offered, in any order, the table has
    those with the smallest keys. -/
theorem foldl_offer (limit : ℕ) {xs : List α} (h : Keyed key xs) :
    xs.foldl (offer key limit) [] = smallest key limit xs := by
  have htake : xs.foldl (offer key limit) [] =
      (xs.foldl (fun l a => insert key a l) []).take limit := by
    induction xs using List.reverseRecOn with
    | nil => simp
    | append_singleton xs a ih =>
        obtain ⟨hxs, -, hlast⟩ := List.pairwise_append.1 h
        obtain ⟨hperm, hsorted⟩ := foldl_insert hxs
        rw [List.foldl_append, List.foldl_append, ih hxs]
        exact offer_take limit hsorted fun b hb =>
          hlast b (hperm.mem_iff.1 hb) a (List.mem_singleton_self a)
  obtain ⟨hperm, hsorted⟩ := foldl_insert h
  rw [htake, smallest]
  congr 1
  refine List.Perm.eq_of_pairwise ?_ hsorted h.sorted
    (hperm.trans (List.mergeSort_perm ..).symm)
  intro a b _ _ hab hba
  exact absurd hba (not_lt.2 hab.le)

/-- The order in which the entries come does not matter. -/
theorem smallest_perm (limit : ℕ) {xs ys : List α} (h : Keyed key xs) (hperm : xs.Perm ys) :
    smallest key limit xs = smallest key limit ys := by
  unfold smallest
  congr 1
  have hys : Keyed key ys := h.perm hperm Ne.symm
  refine List.Perm.eq_of_pairwise ?_ h.sorted hys.sorted
    ((List.mergeSort_perm ..).trans (hperm.trans (List.mergeSort_perm ..).symm))
  intro a b _ _ hab hba
  exact absurd hba (not_lt.2 hab.le)

theorem smallest_map {β : Type u} {f : α → β} {key' : β → κ} (hf : ∀ a, key' (f a) = key a)
    (limit : ℕ) (xs : List α) :
    smallest key' limit (xs.map f) = (smallest key limit xs).map f := by
  unfold smallest
  rw [List.map_take]
  congr 1
  refine (List.map_mergeSort fun a _ b _ => ?_).symm
  rw [hf, hf]

end Smallest
