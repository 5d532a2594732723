import Mathlib

set_option autoImplicit false

/-! # Grouping a list by a key

The elements are put one after the other into the group of their key, in a table with one group a key
that grows at its end. The groups partition the list, and each keeps the order of the list. -/

universe u v

namespace Grouping

variable {α : Type u} {κ : Type v} [DecidableEq κ]

/-- Put the element at the end of the group of the key, which is new if no group has the key. -/
def insert (k : κ) (a : α) : List (κ × List α) → List (κ × List α)
  | [] => [(k, [a])]
  | (k', as) :: rest => if k' = k then (k', as ++ [a]) :: rest else (k', as) :: insert k a rest

/-- The groups of a list -/
def groups (key : α → κ) (l : List α) : List (κ × List α) :=
  l.foldl (fun table a => insert (key a) a table) []

/-- What the groups are: one group a key, with the elements of the list that have it. -/
structure Grouped (key : α → κ) (l : List α) (table : List (κ × List α)) : Prop where
  nodup : (table.map Prod.fst).Nodup
  group : ∀ g ∈ table, g.2 = l.filter fun a => key a = g.1
  nonempty : ∀ g ∈ table, g.2 ≠ []
  complete : ∀ a ∈ l, key a ∈ table.map Prod.fst

variable {key : α → κ} {l : List α} {table : List (κ × List α)} {k : κ} {a : α}

theorem keys_insert (k : κ) (a : α) (table : List (κ × List α)) :
    (insert k a table).map Prod.fst =
      if k ∈ table.map Prod.fst then table.map Prod.fst else table.map Prod.fst ++ [k] := by
  induction table with
  | nil => rfl
  | cons g rest ih =>
      rw [insert]
      by_cases hk : g.1 = k
      · simp [hk]
      · rw [if_neg hk, List.map_cons, ih]
        simp only [List.map_cons, List.mem_cons, Ne.symm hk, false_or]
        split <;> rfl

theorem mem_insert {g : κ × List α} (hnodup : (table.map Prod.fst).Nodup)
    (h : g ∈ insert k a table) :
    (g.1 ≠ k ∧ g ∈ table) ∨
      (g.1 = k ∧ ((∃ as, (k, as) ∈ table ∧ g.2 = as ++ [a]) ∨
        (k ∉ table.map Prod.fst ∧ g.2 = [a]))) := by
  induction table with
  | nil =>
      obtain rfl : g = (k, [a]) := by simpa [insert] using h
      exact Or.inr ⟨rfl, Or.inr ⟨by simp, rfl⟩⟩
  | cons g' rest ih =>
      obtain ⟨hg', hrest⟩ := List.nodup_cons.1 hnodup
      rw [insert] at h
      by_cases hk : g'.1 = k
      · rw [if_pos hk] at h
        rcases List.mem_cons.1 h with rfl | hmem
        · exact Or.inr ⟨hk, Or.inl ⟨g'.2, by simp [← hk], rfl⟩⟩
        · refine Or.inl ⟨fun heq => hg' ?_, List.mem_cons_of_mem _ hmem⟩
          exact hk ▸ heq ▸ List.mem_map_of_mem hmem
      · rw [if_neg hk] at h
        rcases List.mem_cons.1 h with rfl | hmem
        · exact Or.inl ⟨hk, List.mem_cons_self⟩
        · rcases ih hrest hmem with ⟨hne, hin⟩ | ⟨heq, ⟨as, has, hg⟩ | ⟨hnew, hg⟩⟩
          · exact Or.inl ⟨hne, List.mem_cons_of_mem _ hin⟩
          · exact Or.inr ⟨heq, Or.inl ⟨as, List.mem_cons_of_mem _ has, hg⟩⟩
          · exact Or.inr ⟨heq, Or.inr ⟨by simpa [Ne.symm hk] using hnew, hg⟩⟩

/-- One more element is put into its group. -/
theorem Grouped.insert (h : Grouped key l table) (a : α) :
    Grouped key (l ++ [a]) (insert (key a) a table) := by
  refine ⟨?_, fun g hg => ?_, fun g hg => ?_, fun b hb => ?_⟩
  · rw [keys_insert]
    split
    · exact h.nodup
    · rename_i hnew
      exact List.nodup_append.2 ⟨h.nodup, by simp, by
        intro k hk k' hk'
        obtain rfl : k' = key a := by simpa using hk'
        exact fun heq => hnew (heq ▸ hk)⟩
  · rw [List.filter_append]
    rcases mem_insert h.nodup hg with ⟨hne, hmem⟩ | ⟨hk, ⟨as, hmem, has⟩ | ⟨hnew, has⟩⟩
    · rw [h.group g hmem, List.filter_singleton, decide_eq_false hne.symm]
      simp
    · have hold : as = l.filter fun b => key b = key a := h.group (key a, as) hmem
      rw [has, hk, hold]
      simp
    · have hnone : l.filter (fun b => key b = g.1) = [] := by
        refine List.filter_eq_nil_iff.2 fun b hb heq => hnew ?_
        rw [← hk, ← of_decide_eq_true heq]
        exact h.complete b hb
      rw [has, hnone, hk]
      simp
  · rcases mem_insert h.nodup hg with ⟨-, hmem⟩ | ⟨-, ⟨as, -, has⟩ | ⟨-, has⟩⟩
    · exact h.nonempty g hmem
    · simp [has]
    · simp [has]
  · rw [keys_insert]
    rcases List.mem_append.1 hb with hb | hb
    · have hkey := h.complete b hb
      split
      · exact hkey
      · exact List.mem_append_left _ hkey
    · obtain rfl : b = a := by simpa using hb
      split
      · assumption
      · simp

theorem groups_concat (l : List α) (a : α) :
    groups key (l ++ [a]) = insert (key a) a (groups key l) := by
  simp [groups, List.foldl_append]

/-- The groups are those of the list. -/
theorem grouped_groups (key : α → κ) (l : List α) : Grouped key l (groups key l) := by
  induction l using List.reverseRec with
  | nil => exact ⟨by simp [groups], by simp [groups], by simp [groups], by simp⟩
  | append_singleton l a ih =>
      rw [groups_concat]
      exact ih.insert a

theorem flatMap_insert_perm (k : κ) (a : α) (table : List (κ × List α)) :
    ((insert k a table).flatMap Prod.snd).Perm (table.flatMap Prod.snd ++ [a]) := by
  induction table with
  | nil => simp [insert]
  | cons g rest ih =>
      rw [insert]
      split
      · simp only [List.flatMap_cons, List.append_assoc]
        exact List.Perm.append_left _ List.perm_append_comm
      · simp only [List.flatMap_cons, List.append_assoc]
        exact ih.append_left _

/-- Every element is in exactly one group, exactly once. -/
theorem flatMap_groups_perm (key : α → κ) (l : List α) :
    ((groups key l).flatMap Prod.snd).Perm l := by
  induction l using List.reverseRec with
  | nil => simp [groups]
  | append_singleton l a ih =>
      rw [groups_concat]
      exact (flatMap_insert_perm _ _ _).trans (ih.append_right [a])

theorem groups_ne_nil (h : l ≠ []) : groups key l ≠ [] := by
  obtain ⟨a, ha⟩ := List.exists_mem_of_ne_nil l h
  intro hnil
  simpa [hnil] using (grouped_groups key l).complete a ha

/-- The group that an element is in -/
theorem exists_group (key : α → κ) (ha : a ∈ l) : ∃ as, (key a, as) ∈ groups key l ∧ a ∈ as := by
  obtain ⟨g, hg, hkey⟩ := List.mem_map.1 ((grouped_groups key l).complete a ha)
  refine ⟨g.2, by rw [← hkey]; exact hg, ?_⟩
  rw [(grouped_groups key l).group g hg]
  simp [ha, hkey]

end Grouping
