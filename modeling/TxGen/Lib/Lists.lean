import Mathlib

set_option autoImplicit false

/-! # Updating one entry of a list

A table of processes is a list whose entries are replaced in place. These are the facts such an
update needs: a map that does not see the change is unchanged, a sum changes by the difference, and
every entry of the new list is the new value or an old entry at another place. -/

universe u v

namespace List

variable {α : Type u} {β : Type v}

theorem map_set_of_eq {l : List α} {i : ℕ} {a b : α} (f : α → β) (ha : l[i]? = some a)
    (hf : f b = f a) : (l.set i b).map f = l.map f := by
  rw [map_set, hf]
  refine List.ext_getElem? fun j => ?_
  rw [getElem?_set]
  split
  · rename_i hij
    subst hij
    split
    · rw [getElem?_map, ha]; rfl
    · rename_i hlt
      rw [getElem?_eq_none (by simpa using hlt)]
  · rfl

/-- In a list without two entries of one name, the name tells the place. -/
theorem place_unique {l : List α} {i j : ℕ} {a b : α} (name : α → β)
    (hl : l.Pairwise fun x y => name x ≠ name y) (ha : l[i]? = some a) (hb : l[j]? = some b)
    (heq : name a = name b) : i = j := by
  obtain ⟨hi, rfl⟩ := getElem?_eq_some_iff.1 ha
  obtain ⟨hj, rfl⟩ := getElem?_eq_some_iff.1 hb
  rcases Nat.lt_trichotomy i j with hlt | rfl | hgt
  · exact absurd heq (pairwise_iff_getElem.1 hl i j hi hj hlt)
  · rfl
  · exact absurd heq.symm (pairwise_iff_getElem.1 hl j i hj hi hgt)

/-- Replacing the entry named like `a` is replacing every entry of that name. -/
theorem map_set_eq_map_ite [DecidableEq β] {γ : Type v} {l : List α} {i : ℕ} {a b : α}
    (name : α → β) (f : α → γ) (hl : l.Pairwise fun x y => name x ≠ name y) (ha : l[i]? = some a) :
    (l.set i b).map f = l.map fun x => if name x = name a then f b else f x := by
  refine ext_getElem (by simp) fun j hj hj' => ?_
  simp only [getElem_map, getElem_set]
  have hjl : j < l.length := by simpa using hj'
  by_cases hij : i = j
  · subst hij
    obtain ⟨hi, rfl⟩ := getElem?_eq_some_iff.1 ha
    simp
  · rw [if_neg hij, if_neg]
    exact fun heq => hij (place_unique name hl (getElem?_eq_getElem hjl) ha heq).symm

/-- The entry of the list that alone has the name is the one that is erased. -/
theorem eraseP_eq_eraseIdx_of_name [DecidableEq β] {l : List α} {i : ℕ} {a : α} (name : α → β)
    (hl : l.Pairwise fun x y => name x ≠ name y) (ha : l[i]? = some a) :
    l.eraseP (fun x => name x = name a) = l.eraseIdx i := by
  have hfind : l.findIdx? (fun x => name x = name a) = some i := by
    obtain ⟨hi, rfl⟩ := getElem?_eq_some_iff.1 ha
    refine findIdx?_eq_some_iff_getElem.2 ⟨hi, by simp, fun j hji => ?_⟩
    simpa using fun heq => Nat.ne_of_lt hji (place_unique name hl
      (getElem?_eq_getElem (Nat.lt_trans hji hi)) (getElem?_eq_getElem hi) heq)
  rw [eraseP_eq_eraseIdx, hfind]

/-- What is around the entry at a place. -/
theorem split_at {l : List α} {i : ℕ} {a : α} (ha : l[i]? = some a) :
    ∃ l₁ l₂, l = l₁ ++ a :: l₂ ∧ l.eraseIdx i = l₁ ++ l₂ := by
  obtain ⟨hi, rfl⟩ := getElem?_eq_some_iff.1 ha
  have hsplit : l = l.take i ++ l[i] :: l.drop (i + 1) := by
    rw [← drop_eq_getElem_cons hi, take_append_drop]
  exact ⟨_, _, hsplit, eraseIdx_eq_take_drop_succ ..⟩

/-- Around the one entry of its name there are only entries of other names. -/
theorem split_at_name {l : List α} {i : ℕ} {a : α} (name : α → β)
    (hl : l.Pairwise fun x y => name x ≠ name y) (ha : l[i]? = some a) :
    ∃ l₁ l₂, l = l₁ ++ a :: l₂ ∧ l.eraseIdx i = l₁ ++ l₂ ∧ (∀ x ∈ l₁, name x ≠ name a) ∧
      ∀ x ∈ l₂, name x ≠ name a := by
  obtain ⟨l₁, l₂, hsplit, herase⟩ := split_at ha
  rw [hsplit, pairwise_append, pairwise_cons] at hl
  exact ⟨l₁, l₂, hsplit, herase, fun x hx => hl.2.2 x hx _ mem_cons_self,
    fun x hx => (hl.2.1.1 x hx).symm⟩

theorem filter_name_ne [DecidableEq β] {l : List α} {i : ℕ} {a : α} (name : α → β)
    (hl : l.Pairwise fun x y => name x ≠ name y) (ha : l[i]? = some a) :
    l.filter (fun x => name x ≠ name a) = l.eraseIdx i := by
  obtain ⟨l₁, l₂, hl', herase, h₁, h₂⟩ := split_at_name name hl ha
  rw [herase, hl', filter_append, filter_cons_of_neg (by simp),
    filter_eq_self.2 (by simpa using h₁), filter_eq_self.2 (by simpa using h₂)]

theorem filter_name_eq [DecidableEq β] {l : List α} {i : ℕ} {a : α} (name : α → β)
    (hl : l.Pairwise fun x y => name x ≠ name y) (ha : l[i]? = some a) :
    l.filter (fun x => name x = name a) = [a] := by
  obtain ⟨l₁, l₂, hl', -, h₁, h₂⟩ := split_at_name name hl ha
  rw [hl', filter_append, filter_cons_of_pos (by simp),
    filter_eq_nil_iff.2 (by simpa using h₁), filter_eq_nil_iff.2 (by simpa using h₂), nil_append]

theorem sum_map_set {l : List α} {i : ℕ} {a : α} (b : α) (f : α → ℕ) (ha : l[i]? = some a) :
    ((l.set i b).map f).sum + f a = (l.map f).sum + f b := by
  induction l generalizing i with
  | nil => simp at ha
  | cons x xs ih =>
      cases i with
      | zero =>
          obtain rfl : x = a := by simpa using ha
          simp only [set_cons_zero, map_cons, sum_cons]
          omega
      | succ i =>
          have := ih (i := i) (by simpa using ha)
          simp only [set_cons_succ, map_cons, sum_cons]
          omega

/-- An entry of the updated list is the new value or an entry at another place. -/
theorem getElem?_set_cases {l : List α} {i j : ℕ} {a b : α} (h : (l.set i b)[j]? = some a) :
    (j = i ∧ a = b) ∨ (j ≠ i ∧ l[j]? = some a) := by
  by_cases hij : i = j
  · subst hij
    rw [getElem?_set_self'] at h
    cases hl : l[i]? with
    | none =>
        rw [hl] at h
        cases h
    | some c =>
        rw [hl] at h
        exact Or.inl ⟨rfl, (Option.some.inj h).symm⟩
  · rw [getElem?_set_ne hij] at h
    exact Or.inr ⟨Ne.symm hij, h⟩

/-- A sum to which only one place contributes. -/
theorem sum_map_eq_single {l : List α} {i : ℕ} {a : α} (f : α → ℕ) (ha : l[i]? = some a)
    (h : ∀ (j : ℕ) (b : α), l[j]? = some b → j ≠ i → f b = 0) : (l.map f).sum = f a := by
  induction l generalizing i with
  | nil => simp at ha
  | cons x xs ih =>
      cases i with
      | zero =>
          obtain rfl : x = a := by simpa using ha
          have hrest : (xs.map f).sum = 0 := by
            refine sum_eq_zero fun n hn => ?_
            obtain ⟨b, hb, rfl⟩ := mem_map.1 hn
            obtain ⟨j, hj⟩ := mem_iff_getElem?.1 hb
            exact h (j + 1) b (by simpa using hj) (Nat.succ_ne_zero j)
          simp [hrest]
      | succ i =>
          have hx : f x = 0 := h 0 x rfl (Nat.succ_ne_zero i).symm
          rw [map_cons, sum_cons, hx, Nat.zero_add]
          refine ih (by simpa using ha) fun j b hb hj => ?_
          exact h (j + 1) b (by simpa using hb) (by omega)

/-- An entry of `l ++ [x]` is an entry of `l` or the last one. -/
theorem getElem?_concat_cases {l : List α} {x a : α} {i : ℕ} (h : (l ++ [x])[i]? = some a) :
    l[i]? = some a ∨ (i = l.length ∧ a = x) := by
  rcases Nat.lt_trichotomy i l.length with hi | rfl | hi
  · exact Or.inl ((getElem?_append_left hi).symm.trans h)
  · rw [getElem?_concat_length] at h
    exact Or.inr ⟨rfl, (Option.some.inj h).symm⟩
  · rw [getElem?_eq_none (by simpa using Nat.succ_le_of_lt hi)] at h
    cases h

/-- Two entries in a row, at whatever distance. -/
theorem pair_sublist_iff {l : List α} {a b : α} :
    [a, b].Sublist l ↔ ∃ i j : ℕ, i < j ∧ l[i]? = some a ∧ l[j]? = some b := by
  rw [cons_sublist_iff]
  constructor
  · rintro ⟨l₁, l₂, rfl, ha, hb⟩
    obtain ⟨i, hi⟩ := mem_iff_getElem?.1 ha
    obtain ⟨j, hj⟩ := mem_iff_getElem?.1 (singleton_sublist.1 hb)
    have hlt := (getElem?_eq_some_iff.1 hi).1
    refine ⟨i, l₁.length + j, by omega, (getElem?_append_left hlt).trans hi, ?_⟩
    rw [getElem?_append_right (Nat.le_add_right _ _), Nat.add_sub_cancel_left]
    exact hj
  · rintro ⟨i, j, hij, ha, hb⟩
    refine ⟨l.take (i + 1), l.drop (i + 1), (take_append_drop _ _).symm, ?_, singleton_sublist.2 ?_⟩
    · exact mem_of_getElem? ((getElem?_take_of_lt (Nat.lt_succ_self i)).trans ha)
    · refine mem_of_getElem? (i := j - (i + 1)) ?_
      rw [getElem?_drop, Nat.add_sub_cancel' hij]
      exact hb

/-- An entry of the updated list is the new value or an old entry with another name. -/
theorem mem_set_cases {l : List α} {i : ℕ} {a b x : α} (name : α → β)
    (hl : l.Pairwise fun x y => name x ≠ name y) (ha : l[i]? = some a) (hx : x ∈ l.set i b) :
    x = b ∨ (x ∈ l ∧ name x ≠ name a) := by
  obtain ⟨j, hj⟩ := mem_iff_getElem?.1 hx
  rw [getElem?_set] at hj
  split at hj
  · split at hj
    · exact Or.inl (by simpa using hj.symm)
    · cases hj
  · rename_i hij
    exact Or.inr ⟨mem_of_getElem? hj, fun heq => hij (place_unique name hl ha hj heq.symm)⟩

/-- A property the new value has only if the old one had it. -/
theorem forall_mem_set {l : List α} {i : ℕ} {a b : α} {P : α → Prop} (ha : l[i]? = some a)
    (hab : P b → P a) : (∀ x ∈ l.set i b, P x) ↔ (∀ x ∈ l, P x) ∧ P b := by
  obtain ⟨hi, rfl⟩ := getElem?_eq_some_iff.1 ha
  constructor
  · intro h
    have hb : P b := h b (mem_set hi b)
    refine ⟨fun x hx => ?_, hb⟩
    obtain ⟨j, hj⟩ := mem_iff_getElem?.1 hx
    by_cases hij : i = j
    · subst hij
      obtain rfl := Option.some.inj (ha.symm.trans hj)
      exact hab hb
    · exact h x (mem_of_getElem? ((getElem?_set_ne hij).trans hj))
  · rintro ⟨h, hb⟩ x hx
    rcases mem_or_eq_of_mem_set hx with hx | rfl
    · exact h x hx
    · exact hb

/-- In a list that has every key once, looking a key up finds its entry. -/
theorem lookup_eq_some_iff_mem [BEq α] [LawfulBEq α] {l : List (α × β)}
    (hl : (l.map Prod.fst).Nodup) {a : α} {b : β} : l.lookup a = some b ↔ (a, b) ∈ l := by
  induction l with
  | nil => simp
  | cons x l ih =>
      obtain ⟨hx, hl⟩ := nodup_cons.1 hl
      rw [lookup_cons, mem_cons]
      by_cases ha : a = x.1
      · have hnot : (a, b) ∉ l := fun hin => hx (mem_map.2 ⟨_, hin, ha⟩)
        simp [ha, Prod.ext_iff, eq_comm, ha ▸ hnot]
      · rw [beq_eq_false_iff_ne.2 ha, ih hl]
        simp [Prod.ext_iff, ha]

/-- The last entry takes the place of the one that is removed. -/
theorem set_dropLast_perm (l : List α) (x : α) {i : ℕ} (hi : i < (l ++ [x]).length) :
    (((l ++ [x]).set i x).dropLast).Perm ((l ++ [x]).eraseIdx i) := by
  rw [length_append, length_singleton] at hi
  rcases Nat.lt_or_eq_of_le (Nat.le_of_lt_succ hi) with hlt | rfl
  · rw [set_append_left i x hlt, dropLast_concat, eraseIdx_append_of_lt_length hlt]
    exact (set_perm_cons_eraseIdx hlt x).trans (perm_append_singleton x _).symm
  · rw [set_append_right _ x (Nat.le_refl _), Nat.sub_self,
      eraseIdx_append_of_length_le (Nat.le_refl _),
      Nat.sub_self]
    simp

/-- At most one place of a list has the property. -/
theorem eq_index_of_countP_le_one {p : α → Bool} {l : List α} (hcount : l.countP p ≤ 1) {i j : ℕ}
    {a b : α} (ha : l[i]? = some a) (hb : l[j]? = some b) (hpa : p a = true) (hpb : p b = true) :
    i = j := by
  induction l generalizing i j with
  | nil => simp at ha
  | cons c l ih =>
      have hpos : ∀ {k : ℕ} {d : α}, l[k]? = some d → p d = true → 0 < l.countP p := by
        intro k d hd hpd
        exact List.countP_pos_iff.2 ⟨d, List.mem_of_getElem? hd, hpd⟩
      rw [List.countP_cons] at hcount
      cases i with
      | zero =>
          obtain rfl : c = a := by simpa using ha
          rw [if_pos hpa] at hcount
          cases j with
          | zero => rfl
          | succ j =>
              have := hpos (by simpa using hb) hpb
              omega
      | succ i =>
          rw [List.getElem?_cons_succ] at ha
          have := hpos ha hpa
          cases j with
          | zero =>
              obtain rfl : c = b := by simpa using hb
              rw [if_pos hpb] at hcount
              omega
          | succ j =>
              rw [List.getElem?_cons_succ] at hb
              exact congrArg _ (ih (by omega) ha hb)

theorem eq_of_countP_le_one {p : α → Bool} {l : List α} (hcount : l.countP p ≤ 1) {a b : α}
    (ha : a ∈ l) (hb : b ∈ l) (hpa : p a = true) (hpb : p b = true) : a = b := by
  obtain ⟨i, hi⟩ := mem_iff_getElem?.1 ha
  obtain ⟨j, hj⟩ := mem_iff_getElem?.1 hb
  obtain rfl := eq_index_of_countP_le_one hcount hi hj hpa hpb
  exact Option.some.inj (hi.symm.trans hj)

/-- In an ordered list, what has a property that earlier entries inherit stands first. -/
theorem eq_filter_append_of_pairwise {r : α → α → Prop} {p : α → Bool} {l : List α}
    (h : l.Pairwise r) (hp : ∀ a b, r a b → p b = true → p a = true) :
    l = l.filter p ++ l.filter fun a => !p a := by
  induction l with
  | nil => rfl
  | cons a l ih =>
      obtain ⟨hfirst, hrest⟩ := pairwise_cons.1 h
      by_cases ha : p a = true
      · rw [filter_cons_of_pos ha, filter_cons_of_neg (by simp [ha]), cons_append, ← ih hrest]
      · have hnone : l.filter p = [] := filter_eq_nil_iff.2 fun b hb hpb => ha (hp a b (hfirst b hb) hpb)
        have hall : l.filter (fun b => !p b) = l := by
          refine filter_eq_self.2 fun b hb => ?_
          simpa using mt (hp a b (hfirst b hb)) ha
        rw [filter_cons_of_neg ha, filter_cons_of_pos (by simpa using ha), hnone, hall, nil_append]

end List
