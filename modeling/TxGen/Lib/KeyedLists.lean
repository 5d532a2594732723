import Mathlib

set_option autoImplicit false

/-! # Lists with one entry a key

A list used as a table: each entry has a key and no two entries share one. Entries are found through
a map from keys to positions, merged in place when the key is known and appended when it is not. -/

universe u v

namespace KeyedList

variable {α : Type u} {κ : Type v} [DecidableEq κ] (key : α → κ)

/-- The entry of a key. -/
def lookup? (k : κ) (l : List α) : Option α := l.find? fun a => decide (key a = k)

/-- The list has one entry a key. -/
def Keyed (l : List α) : Prop := l.Pairwise fun a b => key a ≠ key b

variable {key} {l l' : List α} {a b : α} {k : κ}

@[simp] theorem lookup?_nil (k : κ) : lookup? key k [] = none := rfl

theorem lookup?_cons (k : κ) (a : α) (l : List α) :
    lookup? key k (a :: l) = if key a = k then some a else lookup? key k l := by
  by_cases h : key a = k <;> simp [lookup?, h]

theorem key_of_lookup? (h : lookup? key k l = some a) : key a = k := by
  simpa using List.find?_some h

theorem mem_of_lookup? (h : lookup? key k l = some a) : a ∈ l := List.mem_of_find?_eq_some h

theorem lookup?_eq_none : lookup? key k l = none ↔ ∀ a ∈ l, key a ≠ k := by
  simp [lookup?]

theorem isSome_lookup? : (lookup? key k l).isSome = true ↔ ∃ a ∈ l, key a = k := by
  simp [lookup?]

theorem lookup?_append (k : κ) (l l' : List α) :
    lookup? key k (l ++ l') = (lookup? key k l).or (lookup? key k l') := by
  simp [lookup?, List.find?_append]

/-- A table finds each of its entries. -/
theorem Keyed.finds (h : Keyed key l) (ha : a ∈ l) : lookup? key (key a) l = some a := by
  induction l with
  | nil => simp at ha
  | cons b l ih =>
      obtain ⟨hb, hl⟩ := List.pairwise_cons.1 h
      rw [lookup?_cons]
      rcases List.mem_cons.1 ha with rfl | ha
      · simp
      · rw [if_neg (hb a ha), ih hl ha]

theorem Keyed.lookup?_eq_some (h : Keyed key l) : lookup? key k l = some a ↔ a ∈ l ∧ key a = k := by
  constructor
  · intro he
    exact ⟨mem_of_lookup? he, key_of_lookup? he⟩
  · rintro ⟨ha, rfl⟩
    exact h.finds ha

/-- The order of the entries does not matter for what is found. -/
theorem lookup?_perm (hl : Keyed key l) (h : l.Perm l') (k : κ) :
    lookup? key k l' = lookup? key k l := by
  have hl' : Keyed key l' := hl.perm h Ne.symm
  refine Option.ext fun a => ?_
  rw [hl'.lookup?_eq_some, hl.lookup?_eq_some, h.mem_iff]

/-- A map that keeps the keys maps what is found. -/
theorem lookup?_map {f : α → α} (hf : ∀ a, key (f a) = key a) (k : κ) (l : List α) :
    lookup? key k (l.map f) = (lookup? key k l).map f := by
  induction l with
  | nil => rfl
  | cons a l ih =>
      rw [List.map_cons, lookup?_cons, lookup?_cons, hf, ih]
      split <;> rfl

omit [DecidableEq κ] in
theorem Keyed.map {f : α → α} (h : Keyed key l) (hf : ∀ a, key (f a) = key a) :
    Keyed key (l.map f) := by
  refine List.pairwise_map.2 (h.imp fun hne => ?_)
  simpa [hf] using hne

/-- Entries sorted by their keys stand in strictly ascending order. -/
theorem Keyed.sorted {κ : Type v} [LinearOrder κ] {key : α → κ} {l : List α} (h : Keyed key l) :
    (l.mergeSort fun a b => decide (key a ≤ key b)).Pairwise fun a b => key a < key b := by
  have hsorted : (l.mergeSort fun a b => decide (key a ≤ key b)).Pairwise
      fun a b => decide (key a ≤ key b) = true :=
    List.pairwise_mergeSort
      (fun a b c hab hbc => by simpa using le_trans (by simpa using hab) (by simpa using hbc))
      (fun a b => by simpa using le_total (key a) (key b)) l
  have hkeyed : Keyed key (l.mergeSort fun a b => decide (key a ≤ key b)) :=
    h.perm (List.mergeSort_perm ..).symm Ne.symm
  refine (hsorted.and hkeyed).imp ?_
  rintro a b ⟨hle, hne⟩
  exact lt_of_le_of_ne (by simpa using hle) hne

/-! ## Positions -/

variable (key)

/-- The map from keys to positions that is collected from the enumerated list. -/
def positions (l : List α) : κ → Option ℕ :=
  l.zipIdx.foldl (fun m p => Function.update m (key p.1) (some p.2)) fun _ => none

/-- Each position is that of an entry with the key, and each entry has its position. -/
def Located (positions : κ → Option ℕ) (l : List α) : Prop :=
  ∀ k i, positions k = some i ↔ ∃ a, l[i]? = some a ∧ key a = k

/-- Entries with a known key are merged where the entry stands, the others are appended. -/
def mergeEntries (merge : α → α → α) : (κ → Option ℕ) → List α → List α → List α
  | _, existing, [] => existing
  | positions, existing, a :: incoming =>
    match positions (key a) with
    | some i => mergeEntries merge positions (existing.modify i (merge · a)) incoming
    | none => mergeEntries merge (Function.update positions (key a) (some existing.length))
        (existing ++ [a]) incoming

variable {key} {pos : κ → Option ℕ}

theorem Located.concat (h : Located key pos l) (hpos : pos (key a) = none) :
    Located key (Function.update pos (key a) (some l.length)) (l ++ [a]) := by
  intro k i
  by_cases hk : k = key a
  · subst hk
    have hfree : ∀ (j : ℕ) (b : α), l[j]? = some b → key b ≠ key a := by
      intro j b hb heq
      simpa [hpos] using (h (key a) j).2 ⟨b, hb, heq⟩
    rw [Function.update_self, List.getElem?_append]
    split
    · rename_i hlt
      constructor
      · intro hi
        exact absurd (Option.some.inj hi) (by omega)
      · rintro ⟨b, hb, heq⟩
        exact absurd heq (hfree i b hb)
    · rename_i hge
      constructor
      · intro hi
        obtain rfl := Option.some.inj hi
        exact ⟨a, by simp, rfl⟩
      · rintro ⟨b, hb, -⟩
        have hzero : i - l.length < [a].length := by
          obtain ⟨hlt, -⟩ := List.getElem?_eq_some_iff.1 hb
          exact hlt
        congr 1
        simp at hzero
        omega
  · rw [Function.update_of_ne hk, h k i]
    constructor
    · rintro ⟨b, hb, rfl⟩
      obtain ⟨hlt, -⟩ := List.getElem?_eq_some_iff.1 hb
      exact ⟨b, by rw [List.getElem?_append_left hlt, hb], rfl⟩
    · rintro ⟨b, hb, rfl⟩
      rw [List.getElem?_append] at hb
      split at hb
      · exact ⟨b, hb, rfl⟩
      · obtain ⟨hlt, heq⟩ := List.getElem?_eq_some_iff.1 hb
        simp at heq
        exact absurd (congrArg key heq.symm) hk

/-- The collected positions are right. -/
theorem located_positions (h : Keyed key l) : Located key (positions key l) l := by
  induction l using List.reverseRec with
  | nil =>
      intro k i
      simp [positions]
  | append_singleton l a ih =>
      obtain ⟨hl, -, hne⟩ := List.pairwise_append.1 h
      have hfree : positions key l (key a) = none := by
        cases hp : positions key l (key a) with
        | none => rfl
        | some i =>
            obtain ⟨b, hb, heq⟩ := (ih hl (key a) i).1 hp
            exact absurd heq (hne b (List.mem_of_getElem? hb) a (by simp))
      have hupdate : positions key (l ++ [a])
          = Function.update (positions key l) (key a) (some l.length) := by
        simp [positions, List.zipIdx_append, List.foldl_append]
      rw [hupdate]
      exact (ih hl).concat hfree

omit [DecidableEq κ] in
theorem Located.modify (h : Located key pos l) {i : ℕ} {f : α → α} (hf : ∀ a, key (f a) = key a) :
    Located key pos (l.modify i f) := by
  intro k j
  rw [h k j, List.getElem?_modify]
  cases l[j]? with
  | none => simp
  | some b => by_cases hij : i = j <;> simp [hij, hf]

/-! ## Merging -/

omit [DecidableEq κ] in
theorem Keyed.modify (h : Keyed key l) {i : ℕ} {f : α → α} (hf : ∀ a, key (f a) = key a) :
    Keyed key (l.modify i f) := by
  refine List.pairwise_iff_getElem.2 fun m n hm hn hmn => ?_
  have hkey : ∀ j (hj : j < (l.modify i f).length), key (l.modify i f)[j]
      = key (l.get ⟨j, by simpa using hj⟩) := by
    intro j hj
    rw [List.getElem_modify]
    split <;> simp [hf]
  rw [hkey m hm, hkey n hn]
  exact List.pairwise_iff_getElem.1 h m n (by simpa using hm) (by simpa using hn) hmn

theorem Keyed.concat (h : Keyed key l) (hk : lookup? key (key a) l = none) :
    Keyed key (l ++ [a]) := by
  refine List.pairwise_append.2 ⟨h, by simp, fun b hb c hc => ?_⟩
  obtain rfl : c = a := by simpa using hc
  exact lookup?_eq_none.1 hk b hb

/-- Changing the entry at the position of a key changes what is found there and nowhere else. -/
theorem Keyed.lookup?_modify (h : Keyed key l) {i : ℕ} {f : α → α} (hf : ∀ a, key (f a) = key a)
    (hi : l[i]? = some a) (k : κ) :
    lookup? key k (l.modify i f) = if k = key a then some (f a) else lookup? key k l := by
  refine Option.ext fun b => ?_
  rw [(h.modify hf).lookup?_eq_some]
  split
  · rename_i hk
    subst hk
    have hmem : f a ∈ l.modify i f := List.mem_of_getElem? (i := i) (by simp [hi])
    constructor
    · rintro ⟨hb, hkey⟩
      have hfound := (h.modify hf).finds hb
      rw [hkey, ← hf a, (h.modify hf).finds hmem] at hfound
      exact hfound
    · intro heq
      obtain rfl := Option.some.inj heq
      exact ⟨hmem, hf a⟩
  · rename_i hk
    rw [h.lookup?_eq_some]
    refine and_congr_left fun hkey => ?_
    subst hkey
    constructor
    · intro hb
      obtain ⟨j, hj⟩ := List.mem_iff_getElem?.1 hb
      rw [List.getElem?_modify] at hj
      by_cases hij : i = j
      · subst hij
        simp [hi] at hj
        exact absurd (hj ▸ hf a) hk
      · simp [hij] at hj
        exact List.mem_of_getElem? hj
    · intro hb
      obtain ⟨j, hj⟩ := List.mem_iff_getElem?.1 hb
      have hij : i ≠ j := by
        rintro rfl
        rw [hi] at hj
        exact hk (congrArg key (Option.some.inj hj)).symm
      exact List.mem_of_getElem? (i := j) (by simp [hij, hj])

/-- Merging two tables: one entry a key, and each key's entries are merged. -/
theorem mergeEntries_spec {merge : α → α → α} (hmerge : ∀ a b, key (merge a b) = key a)
    {existing incoming : List α} (hloc : Located key pos existing) (hex : Keyed key existing)
    (hin : Keyed key incoming) :
    Keyed key (mergeEntries key merge pos existing incoming) ∧
      ∀ k, lookup? key k (mergeEntries key merge pos existing incoming)
        = (lookup? key k existing).merge merge (lookup? key k incoming) := by
  induction incoming generalizing pos existing with
  | nil =>
      refine ⟨hex, fun k => ?_⟩
      show lookup? key k existing = _
      cases lookup? key k existing <;> rfl
  | cons a rest ih =>
      obtain ⟨ha, hrest⟩ := List.pairwise_cons.1 hin
      have hgone : lookup? key (key a) rest = none :=
        lookup?_eq_none.2 fun b hb => (ha b hb).symm
      unfold mergeEntries
      split
      · rename_i i hpos
        obtain ⟨b, hb, hkey⟩ := (hloc (key a) i).1 hpos
        have hf : ∀ c, key (merge c a) = key c := fun c => hmerge c a
        obtain ⟨hkeyed, hfound⟩ := ih (hloc.modify (i := i) hf) (hex.modify (i := i) hf) hrest
        refine ⟨hkeyed, fun k => ?_⟩
        rw [hfound, hex.lookup?_modify hf hb, lookup?_cons, hkey]
        by_cases hk : k = key a
        · subst hk
          rw [if_pos rfl, if_pos rfl, hgone, hkey.symm, hex.finds (List.mem_of_getElem? hb)]
          rfl
        · rw [if_neg hk, if_neg (Ne.symm hk)]
      · rename_i hpos
        have hnone : lookup? key (key a) existing = none := by
          refine lookup?_eq_none.2 fun b hb heq => ?_
          obtain ⟨i, hi⟩ := List.mem_iff_getElem?.1 hb
          simpa [hpos] using (hloc (key a) i).2 ⟨b, hi, heq⟩
        obtain ⟨hkeyed, hfound⟩ := ih (hloc.concat hpos) (hex.concat hnone) hrest
        refine ⟨hkeyed, fun k => ?_⟩
        rw [hfound, lookup?_append, lookup?_cons, lookup?_cons, lookup?_nil]
        by_cases hk : key a = k
        · subst hk
          simp [hnone, hgone]
        · simp [if_neg hk]

/-! ## First entries -/

section

variable (key)

/-- The entries whose key was not seen before. -/
def firsts : List κ → List α → List α
  | _, [] => []
  | seen, a :: l => if key a ∈ seen then firsts seen l else a :: firsts (key a :: seen) l

end

theorem mem_of_mem_firsts {seen : List κ} (h : a ∈ firsts key seen l) : a ∈ l ∧ key a ∉ seen := by
  induction l generalizing seen with
  | nil => cases h
  | cons b l ih =>
      rw [firsts] at h
      split at h
      · exact (ih h).imp_left (List.mem_cons_of_mem b)
      · next hb =>
          rcases List.mem_cons.1 h with rfl | h
          · exact ⟨List.mem_cons_self, hb⟩
          · obtain ⟨hmem, hseen⟩ := ih h
            exact ⟨List.mem_cons_of_mem b hmem, fun ha => hseen (List.mem_cons_of_mem _ ha)⟩

theorem firsts_keyed (seen : List κ) (l : List α) : Keyed key (firsts key seen l) := by
  induction l generalizing seen with
  | nil => exact List.Pairwise.nil
  | cons a l ih =>
      rw [firsts]
      split
      · exact ih seen
      · refine List.pairwise_cons.2 ⟨fun b hb heq => ?_, ih _⟩
        exact (mem_of_mem_firsts hb).2 (heq ▸ List.mem_cons_self)

/-- Every key that was not seen before has its first entry. -/
theorem exists_mem_firsts {seen : List κ} (ha : a ∈ l) (hseen : key a ∉ seen) :
    ∃ b ∈ firsts key seen l, key b = key a := by
  induction l generalizing seen with
  | nil => cases ha
  | cons b l ih =>
      rw [firsts]
      split
      · next hb =>
          rcases List.mem_cons.1 ha with rfl | ha
          · exact absurd hb hseen
          · exact ih ha hseen
      · by_cases hkey : key b = key a
        · exact ⟨b, List.mem_cons_self, hkey⟩
        · rcases List.mem_cons.1 ha with rfl | ha
          · exact absurd rfl hkey
          · have hseen' : key a ∉ key b :: seen := by
              simp [hseen, Ne.symm hkey]
            obtain ⟨c, hc, heq⟩ := ih ha hseen'
            exact ⟨c, List.mem_cons_of_mem b hc, heq⟩

/-- What was seen matters at the keys of the list only. -/
theorem firsts_congr {seen seen' : List κ} (h : ∀ a ∈ l, key a ∈ seen ↔ key a ∈ seen') :
    firsts key seen l = firsts key seen' l := by
  induction l generalizing seen seen' with
  | nil => rfl
  | cons a l ih =>
      obtain ⟨ha, hl⟩ := List.forall_mem_cons.1 h
      rw [firsts, firsts]
      by_cases hseen : key a ∈ seen
      · rw [if_pos hseen, if_pos (ha.1 hseen), ih hl]
      · rw [if_neg hseen, if_neg (mt ha.2 hseen)]
        congr 1
        refine ih fun b hb => ?_
        rw [List.mem_cons, List.mem_cons, hl b hb]

theorem firsts_append_of_seen {seen : List κ} (h : ∀ a ∈ l, key a ∈ seen) (l' : List α) :
    firsts key seen (l ++ l') = firsts key seen l' := by
  induction l with
  | nil => rfl
  | cons a l ih =>
      obtain ⟨ha, hl⟩ := List.forall_mem_cons.1 h
      rw [List.cons_append, firsts, if_pos ha, ih hl]

/-- A property that the entries of a key share may be asked before or after. -/
theorem filter_firsts {p : α → Bool} (hp : ∀ a ∈ l, ∀ b ∈ l, key a = key b → p a = p b)
    (seen : List κ) : (firsts key seen l).filter p = firsts key seen (l.filter p) := by
  induction l generalizing seen with
  | nil => rfl
  | cons a l ih =>
      have hrest : ∀ b ∈ l, ∀ c ∈ l, key b = key c → p b = p c := fun b hb c hc =>
        hp b (List.mem_cons_of_mem a hb) c (List.mem_cons_of_mem a hc)
      rw [firsts]
      by_cases hpa : p a = true
      · rw [List.filter_cons_of_pos hpa, firsts]
        split
        · exact ih hrest seen
        · rw [List.filter_cons_of_pos hpa, ih hrest]
      · rw [List.filter_cons_of_neg hpa]
        split
        · exact ih hrest seen
        · rw [List.filter_cons_of_neg hpa, ih hrest]
          refine firsts_congr fun b hb => ?_
          -- what is kept of the rest has another key
          obtain ⟨hb, hpb⟩ := List.mem_filter.1 hb
          have hne : key b ≠ key a := fun heq =>
            hpa ((hp a List.mem_cons_self b (List.mem_cons_of_mem a hb) heq.symm).trans hpb)
          simp [hne]

omit [DecidableEq κ] in
theorem Keyed.nodup (h : Keyed key l) : l.Nodup := h.imp fun hne heq => hne (congrArg key heq)

/-- Where a key has one entry, the order of the list is the order of the first entries. -/
theorem firsts_perm (hkey : ∀ a ∈ l, ∀ b ∈ l, key a = key b → a = b) (hperm : l.Perm l')
    (seen : List κ) : (firsts key seen l).Perm (firsts key seen l') := by
  have hmem {m : List α} (hm : ∀ a ∈ m, ∀ b ∈ m, key a = key b → a = b) (a : α) :
      a ∈ firsts key seen m ↔ a ∈ m ∧ key a ∉ seen := by
    refine ⟨mem_of_mem_firsts, fun ⟨ha, hseen⟩ => ?_⟩
    obtain ⟨b, hb, heq⟩ := exists_mem_firsts ha hseen
    exact hm b (mem_of_mem_firsts hb).1 a ha heq ▸ hb
  have hkey' : ∀ a ∈ l', ∀ b ∈ l', key a = key b → a = b := fun a ha b hb =>
    hkey a (hperm.mem_iff.2 ha) b (hperm.mem_iff.2 hb)
  refine (List.perm_ext_iff_of_nodup (firsts_keyed seen l).nodup (firsts_keyed seen l').nodup).2
    fun a => ?_
  rw [hmem hkey, hmem hkey', hperm.mem_iff]

end KeyedList
