import TxGen.Lib.Smallest

set_option autoImplicit false

/-! # Ordered maps

A map as the list of its entries in the order of their keys. Two maps that find the same values are
equal, so that a map built in any order is known by what it finds. -/

universe u v

/-- A map whose entries stand in strictly ascending order of their keys. -/
structure OrderedMap (κ : Type u) (α : Type v) [LinearOrder κ] where
  entries : List (κ × α)
  sorted : entries.Pairwise fun a b => a.1 < b.1

namespace OrderedMap

open KeyedList

variable {κ : Type u} {α : Type v} [LinearOrder κ]

def empty : OrderedMap κ α := ⟨[], List.Pairwise.nil⟩

/-- The value of a key. -/
def find? (m : OrderedMap κ α) (k : κ) : Option α := (lookup? Prod.fst k m.entries).map Prod.snd

/-- Insert a value; the value that the key had is replaced. -/
def insert (m : OrderedMap κ α) (k : κ) (a : α) : OrderedMap κ α :=
  ⟨Smallest.insert Prod.fst (k, a) m.entries, Smallest.insert_sorted m.sorted⟩

/-- The map of a list of entries; of the entries of a key the last one counts. -/
def ofList (l : List (κ × α)) : OrderedMap κ α := l.foldl (fun m p => m.insert p.1 p.2) empty

def values (m : OrderedMap κ α) : List α := m.entries.map Prod.snd

variable {m m' : OrderedMap κ α} {k k' : κ} {a : α}

@[simp] theorem find?_empty (k : κ) : (empty : OrderedMap κ α).find? k = none := rfl

theorem find?_insert (m : OrderedMap κ α) (k k' : κ) (a : α) :
    (m.insert k a).find? k' = if k = k' then some a else m.find? k' := by
  show (lookup? Prod.fst k' (Smallest.insert Prod.fst (k, a) m.entries)).map Prod.snd =
    if k = k' then some a else (lookup? Prod.fst k' m.entries).map Prod.snd
  generalize m.entries = entries
  induction entries with
  | nil =>
      simp only [Smallest.insert, lookup?_cons, lookup?_nil]
      split <;> rfl
  | cons b entries ih =>
      simp only [Smallest.insert]
      split
      · rw [lookup?_cons]
        split <;> rfl
      · split
        · next heq =>
            -- the entry of the key is replaced where it stands
            rw [lookup?_cons, lookup?_cons]
            by_cases hk : k = k'
            · simp [hk]
            · simp [hk, ← heq]
        · next hne =>
            rw [lookup?_cons, lookup?_cons]
            by_cases hb : b.1 = k'
            · have hk : k ≠ k' := fun hk => hne (hk.trans hb.symm)
              simp [hb, hk]
            · rw [if_neg hb, if_neg hb, ih]

theorem keyed (m : OrderedMap κ α) : Keyed Prod.fst m.entries := m.sorted.imp ne_of_lt

theorem mem_entries : (k, a) ∈ m.entries ↔ m.find? k = some a := by
  unfold find?
  rw [Option.map_eq_some_iff]
  constructor
  · intro h
    exact ⟨(k, a), m.keyed.finds h, rfl⟩
  · rintro ⟨⟨k', a'⟩, hfind, rfl⟩
    obtain ⟨hmem, rfl⟩ := m.keyed.lookup?_eq_some.1 hfind
    exact hmem

/-- A map is known by what it finds. -/
theorem ext_find? (h : ∀ k, m.find? k = m'.find? k) : m = m' := by
  have hnodup (m : OrderedMap κ α) : m.entries.Nodup :=
    m.sorted.imp fun hlt heq => absurd (heq ▸ hlt) (lt_irrefl _)
  have hperm : m.entries.Perm m'.entries := by
    refine (List.perm_ext_iff_of_nodup (hnodup m) (hnodup m')).2 fun p => ?_
    obtain ⟨k, a⟩ := p
    rw [mem_entries, mem_entries, h]
  have hentries : m.entries = m'.entries :=
    hperm.eq_of_pairwise (fun a b _ _ hab hba => absurd hba (not_lt.2 hab.le)) m.sorted m'.sorted
  cases m
  cases m'
  cases hentries
  rfl

theorem find?_ofList (l : List (κ × α)) (k : κ) :
    (ofList l).find? k = (lookup? Prod.fst k l.reverse).map Prod.snd := by
  induction l using List.reverseRecOn with
  | nil => rfl
  | append_singleton l p ih =>
      rw [ofList, List.foldl_append, List.reverse_append, List.reverse_singleton,
        List.singleton_append, lookup?_cons]
      show ((ofList l).insert p.1 p.2).find? k = _
      rw [find?_insert, ih]
      split <;> rfl

/-! ## Classes of a list -/

section

variable {β : Type v} {f : β → κ} {g : List β → α} {l l' : List β}

/-- The part of a list that a key has. -/
def part (f : β → κ) (l : List β) (k : κ) : List β := l.filter fun b => decide (f b = k)

/-- Each key that the elements of the list have is mapped to what `g` makes of its part. -/
def Classifies (f : β → κ) (g : List β → α) (l : List β) (m : OrderedMap κ α) : Prop :=
  ∀ k, m.find? k = if part f l k = [] then none else some (g (part f l k))

theorem part_concat (f : β → κ) (l : List β) (b : β) (k : κ) :
    part f (l ++ [b]) k = if f b = k then part f l k ++ [b] else part f l k := by
  unfold part
  rw [List.filter_append]
  by_cases hb : f b = k <;> simp [hb]

/-- Classes of disjoint keys make up the list. -/
theorem sum_parts {keys : List κ} (hkeys : keys.Nodup) (hcover : ∀ b ∈ l, f b ∈ keys) (w : β → ℕ) :
    (keys.map fun k => ((part f l k).map w).sum).sum = (l.map w).sum := by
  induction l with
  | nil => simp [part]
  | cons b l ih =>
      obtain ⟨hb, hl⟩ := List.forall_mem_cons.1 hcover
      have hpart (k : κ) : ((part f (b :: l) k).map w).sum =
          (if f b = k then w b else 0) + ((part f l k).map w).sum := by
        unfold part
        by_cases hk : f b = k <;> simp [hk]
      simp only [hpart, List.sum_map_add, List.map_cons, List.sum_cons]
      rw [ih hl]
      congr 1
      -- the element is in the class of its own key, and in no other
      clear ih hl hcover hpart
      induction keys with
      | nil => cases hb
      | cons k keys ih =>
          obtain ⟨hk, hrest⟩ := List.nodup_cons.1 hkeys
          rw [List.map_cons, List.sum_cons]
          by_cases hfk : f b = k
          · have hzero : (keys.map fun k => if f b = k then w b else 0).sum = 0 := by
              refine List.sum_eq_zero fun n hn => ?_
              obtain ⟨k', hk', rfl⟩ := List.mem_map.1 hn
              rw [if_neg]
              rintro rfl
              exact hk (hfk ▸ hk')
            rw [if_pos hfk, hzero, Nat.add_zero]
          · rw [if_neg hfk, Nat.zero_add]
            exact ih hrest ((List.mem_cons.1 hb).resolve_left hfk)

namespace Classifies

theorem nil : Classifies f g [] (empty : OrderedMap κ α) := fun _ => rfl

theorem insert (h : Classifies f g l m) (b : β) :
    Classifies f g (l ++ [b]) (m.insert (f b) (g (part f l (f b) ++ [b]))) := by
  intro k
  rw [find?_insert, part_concat]
  by_cases hk : f b = k
  · subst hk
    simp
  · rw [if_neg hk, if_neg hk, h k]

/-- The classes of a list are the classes of its permutations. -/
theorem unique (hg : ∀ {l l' : List β}, l.Perm l' → g l = g l') (h : Classifies f g l m)
    (h' : Classifies f g l' m') (hperm : l.Perm l') : m = m' := by
  refine ext_find? fun k => ?_
  have hpart : (part f l k).Perm (part f l' k) := hperm.filter _
  have hnil : part f l k = [] ↔ part f l' k = [] := by
    rw [← List.length_eq_zero_iff, ← List.length_eq_zero_iff, hpart.length_eq]
  simp only [h k, h' k, hg hpart, hnil]

theorem mem_entries (h : Classifies f g l m) :
    (k, a) ∈ m.entries ↔ part f l k ≠ [] ∧ g (part f l k) = a := by
  rw [OrderedMap.mem_entries, h k]
  split <;> simp_all

theorem exists_entry (h : Classifies f g l m) {b : β} (hb : b ∈ l) :
    (f b, g (part f l (f b))) ∈ m.entries := by
  refine h.mem_entries.2 ⟨?_, rfl⟩
  exact List.ne_nil_of_mem (List.mem_filter.2 ⟨hb, by simp⟩)

/-- A quantity of the classes that is a sum over their elements is in total the sum over the list. -/
theorem sum_values (h : Classifies f g l m) (val : α → ℕ) (w : β → ℕ)
    (hval : ∀ part, val (g part) = (part.map w).sum) :
    (m.values.map val).sum = (l.map w).sum := by
  have hcover : ∀ b ∈ l, f b ∈ m.entries.map Prod.fst := fun b hb =>
    List.mem_map_of_mem (h.exists_entry hb)
  have hnodup : (m.entries.map Prod.fst).Nodup := List.pairwise_map.2 m.keyed
  rw [← sum_parts hnodup hcover w, values, List.map_map, List.map_map]
  congr 1
  refine List.map_congr_left fun p hp => ?_
  obtain ⟨k, a⟩ := p
  obtain ⟨-, rfl⟩ := h.mem_entries.1 hp
  exact hval _

end Classifies

end

end OrderedMap
