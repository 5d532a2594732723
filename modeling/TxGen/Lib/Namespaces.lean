import Mathlib

set_option autoImplicit false

/-! # Ordered maps and the namespaces made of them

An ordered map is the list of its entries, in the order of the keys. Where values may themselves be such
maps (`Nested`), a value is stored under a path of keys, and the maps on the way are created as needed;
a path on which something else is in the way is refused. Paths of which neither continues the other do
not interfere: the order of insertion does not matter, and what is under one path is not seen from the
other. -/

universe u v

/-! ## Ordered maps -/

namespace OrdMap

variable {κ : Type u} {α : Type v} [LinearOrder κ]

def get? (k : κ) : List (κ × α) → Option α
  | [] => none
  | (l, v) :: m => if k = l then some v else get? k m

/-- Set the value of a key. -/
def set (k : κ) (v : α) : List (κ × α) → List (κ × α)
  | [] => [(k, v)]
  | (l, w) :: m =>
    if k < l then (k, v) :: (l, w) :: m
    else if k = l then (k, v) :: m
    else (l, w) :: set k v m

@[simp] theorem get?_nil (k : κ) : get? k ([] : List (κ × α)) = none := rfl

theorem set_of_lt {k l : κ} (h : k < l) (v w : α) (m : List (κ × α)) :
    set k v ((l, w) :: m) = (k, v) :: (l, w) :: m := if_pos h

theorem set_cons_self (k : κ) (v w : α) (m : List (κ × α)) :
    set k v ((k, w) :: m) = (k, v) :: m := by
  rw [set, if_neg (lt_irrefl k), if_pos rfl]

theorem set_of_gt {k l : κ} (h : l < k) (v w : α) (m : List (κ × α)) :
    set k v ((l, w) :: m) = (l, w) :: set k v m := by
  rw [set, if_neg h.not_gt, if_neg h.ne']

theorem get?_set (k l : κ) (v : α) (m : List (κ × α)) :
    get? l (set k v m) = if l = k then some v else get? l m := by
  induction m with
  | nil => rfl
  | cons e m ih =>
      obtain ⟨j, w⟩ := e
      rcases lt_trichotomy k j with hlt | rfl | hgt
      · rw [set_of_lt hlt, get?]
      · rw [set_cons_self, get?, get?]
        split <;> rfl
      · rw [set_of_gt hgt, get?, get?, ih]
        by_cases hl : l = j
        · rw [if_pos hl, if_pos hl, if_neg (hl ▸ hgt.ne)]
        · rw [if_neg hl, if_neg hl]

@[simp] theorem get?_set_self (k : κ) (v : α) (m : List (κ × α)) :
    get? k (set k v m) = some v := by
  rw [get?_set, if_pos rfl]

theorem get?_set_ne {k l : κ} (h : l ≠ k) (v : α) (m : List (κ × α)) :
    get? l (set k v m) = get? l m := by
  rw [get?_set, if_neg h]

@[simp] theorem set_set (k : κ) (v w : α) (m : List (κ × α)) :
    set k v (set k w m) = set k v m := by
  induction m with
  | nil => exact set_cons_self k v w []
  | cons e m ih =>
      obtain ⟨j, x⟩ := e
      rcases lt_trichotomy k j with hlt | rfl | hgt
      · rw [set_of_lt hlt, set_of_lt hlt, set_cons_self]
      · rw [set_cons_self, set_cons_self, set_cons_self]
      · rw [set_of_gt hgt, set_of_gt hgt, set_of_gt hgt, ih]

theorem set_comm_of_lt {k l : κ} (h : k < l) (v w : α) (m : List (κ × α)) :
    set k v (set l w m) = set l w (set k v m) := by
  induction m with
  | nil => exact (set_of_lt h v w []).trans (set_of_gt h w v []).symm
  | cons e m ih =>
      obtain ⟨j, x⟩ := e
      rcases lt_trichotomy k j with hk | rfl | hk
      · rw [set_of_lt hk, set_of_gt h]
        rcases lt_trichotomy l j with hl | rfl | hl
        · rw [set_of_lt hl, set_of_lt h]
        · rw [set_cons_self, set_of_lt h]
        · rw [set_of_gt hl, set_of_lt hk]
      · rw [set_of_gt h, set_cons_self, set_cons_self, set_of_gt h]
      · rw [set_of_gt (hk.trans h), set_of_gt hk, set_of_gt hk, set_of_gt (hk.trans h), ih]

/-- Different keys are set in any order. -/
theorem set_comm {k l : κ} (h : k ≠ l) (v w : α) (m : List (κ × α)) :
    set k v (set l w m) = set l w (set k v m) := by
  rcases lt_or_gt_of_ne h with hlt | hgt
  · exact set_comm_of_lt hlt v w m
  · exact (set_comm_of_lt hgt w v m).symm

theorem mem_set {k : κ} {v : α} {m : List (κ × α)} {e : κ × α} (h : e ∈ set k v m) :
    e = (k, v) ∨ e ∈ m := by
  induction m with
  | nil => exact Or.inl (List.mem_singleton.1 h)
  | cons x m ih =>
      obtain ⟨l, w⟩ := x
      rw [set] at h
      split at h
      · simpa using h
      · split at h
        · rcases List.mem_cons.1 h with h | h
          · exact Or.inl h
          · exact Or.inr (List.mem_cons_of_mem _ h)
        · rcases List.mem_cons.1 h with rfl | h
          · exact Or.inr List.mem_cons_self
          · exact (ih h).imp_right (List.mem_cons_of_mem _)

/-- The map with the given entries; a later entry replaces an earlier one. -/
def ofList (entries : List (κ × α)) : List (κ × α) :=
  entries.foldl (fun m e => set e.1 e.2 m) []

theorem mem_foldl_set {entries m : List (κ × α)} {e : κ × α}
    (h : e ∈ entries.foldl (fun m e => set e.1 e.2 m) m) : e ∈ entries ∨ e ∈ m := by
  induction entries generalizing m with
  | nil => exact Or.inr h
  | cons x entries ih =>
      rcases ih h with h | h
      · exact Or.inl (List.mem_cons_of_mem _ h)
      · rcases mem_set h with rfl | h
        · exact Or.inl List.mem_cons_self
        · exact Or.inr h

theorem mem_of_mem_ofList {entries : List (κ × α)} {e : κ × α} (h : e ∈ ofList entries) :
    e ∈ entries := by
  simpa using mem_foldl_set h

theorem get?_append (k : κ) (xs ys : List (κ × α)) :
    get? k (xs ++ ys) = (get? k xs).or (get? k ys) := by
  induction xs with
  | nil => rfl
  | cons x xs ih =>
      rw [List.cons_append, get?, get?]
      split
      · rfl
      · exact ih

theorem get?_filter_ne (k l : κ) (m : List (κ × α)) :
    get? l (m.filter (·.1 ≠ k)) = if l = k then none else get? l m := by
  induction m with
  | nil => simp
  | cons e m ih =>
      by_cases hk : e.1 = k
      · rw [List.filter_cons_of_neg (by simpa using hk), ih, get?, hk]
        split <;> rfl
      · rw [List.filter_cons_of_pos (by simpa using hk), get?, get?, ih]
        by_cases hl : l = e.1
        · rw [if_pos hl, if_pos hl, if_neg (hl ▸ hk)]
        · rw [if_neg hl, if_neg hl]

theorem notMem_of_get? {k : κ} {m : List (κ × α)} (h : get? k m = none) : k ∉ m.map Prod.fst := by
  induction m with
  | nil => simp
  | cons x m ih =>
      rw [get?] at h
      split at h
      · cases h
      · rename_i hk
        rw [List.map_cons, List.mem_cons, not_or]
        exact ⟨hk, ih h⟩

/-- Reading a map that lists each key once. -/
theorem get?_of_mem {m : List (κ × α)} (hnodup : (m.map Prod.fst).Nodup) {k : κ} {v : α}
    (h : (k, v) ∈ m) : get? k m = some v := by
  induction m with
  | nil => cases h
  | cons x m ih =>
      obtain ⟨hx, hnodup⟩ := List.nodup_cons.1 hnodup
      rw [get?]
      rcases List.mem_cons.1 h with rfl | h
      · exact if_pos rfl
      · have hk : k ≠ x.1 := by
          rintro rfl
          exact hx (List.mem_map.2 ⟨_, h, rfl⟩)
        rw [if_neg hk]
        exact ih hnodup h

theorem mem_of_get? {m : List (κ × α)} {k : κ} {v : α} (h : get? k m = some v) : (k, v) ∈ m := by
  induction m with
  | nil => cases h
  | cons x m ih =>
      rw [get?] at h
      split at h
      · rename_i hk
        obtain rfl := Option.some.inj h
        exact hk ▸ List.mem_cons_self
      · exact List.mem_cons_of_mem _ (ih h)

theorem get?_foldl_set (k : κ) (entries m : List (κ × α)) :
    get? k (entries.foldl (fun m e => set e.1 e.2 m) m) =
      (get? k entries.reverse).or (get? k m) := by
  induction entries generalizing m with
  | nil => rfl
  | cons x entries ih =>
      rw [List.foldl_cons, ih, List.reverse_cons, get?_append, Option.or_assoc, get?_set, get?]
      by_cases hk : k = x.1
      · rw [if_pos hk, if_pos hk, Option.some_or]
      · rw [if_neg hk, if_neg hk, get?_nil, Option.none_or]

/-- Reading the map with the given entries, none of which is replaced. -/
theorem get?_ofList {entries : List (κ × α)} (hnodup : (entries.map Prod.fst).Nodup) {k : κ} {v : α}
    (h : (k, v) ∈ entries) : get? k (ofList entries) = some v := by
  have hreverse : (entries.reverse.map Prod.fst).Nodup := by
    rw [List.map_reverse]
    exact (List.reverse_perm _).nodup_iff.2 hnodup
  rw [ofList, get?_foldl_set, get?_of_mem hreverse (List.mem_reverse.2 h), Option.some_or]

/-- The keys increase. -/
def Sorted (m : List (κ × α)) : Prop := (m.map Prod.fst).Pairwise (· < ·)

theorem Sorted.set {m : List (κ × α)} (h : Sorted m) (k : κ) (v : α) : Sorted (set k v m) := by
  induction m with
  | nil => exact List.pairwise_singleton _ _
  | cons x m ih =>
      obtain ⟨l, w⟩ := x
      obtain ⟨hx, hrest⟩ := List.pairwise_cons.1 h
      rcases lt_trichotomy k l with hlt | rfl | hgt
      · rw [set_of_lt hlt]
        refine List.pairwise_cons.2 ⟨fun j hj => ?_, h⟩
        rcases List.mem_cons.1 hj with rfl | hj
        · exact hlt
        · exact hlt.trans (hx j hj)
      · rw [set_cons_self]
        exact h
      · rw [set_of_gt hgt]
        refine List.pairwise_cons.2 ⟨fun j hj => ?_, ih hrest⟩
        obtain ⟨e, he, rfl⟩ := List.mem_map.1 hj
        rcases mem_set he with rfl | he
        · exact hgt
        · exact hx _ (List.mem_map_of_mem he)

theorem sorted_ofList (entries : List (κ × α)) : Sorted (ofList entries) := by
  have hgo : ∀ (entries m : List (κ × α)), Sorted m →
      Sorted (entries.foldl (fun m e => OrdMap.set e.1 e.2 m) m) := by
    intro entries
    induction entries with
    | nil => exact fun m hm => hm
    | cons x entries ih => exact fun m hm => ih _ (hm.set x.1 x.2)
  exact hgo entries [] List.Pairwise.nil

/-- An entry of the map is the last one of its key. -/
theorem get?_reverse_of_mem_ofList {entries : List (κ × α)} {e : κ × α} (h : e ∈ ofList entries) :
    get? e.1 entries.reverse = some e.2 := by
  have hnodup : ((ofList entries).map Prod.fst).Nodup :=
    (sorted_ofList entries).imp fun hlt => hlt.ne
  have hget := get?_of_mem hnodup h
  rwa [ofList, get?_foldl_set, get?_nil, Option.or_none] at hget

end OrdMap

/-! ## Paths -/

/-- Neither path continues the other. -/
def Apart {κ : Type u} (p q : List κ) : Prop := ¬ p <+: q ∧ ¬ q <+: p

namespace Apart

variable {κ : Type u}

theorem symm {p q : List κ} (h : Apart p q) : Apart q p := ⟨h.2, h.1⟩

theorem ne_nil {p q : List κ} (h : Apart p q) : p ≠ [] := by
  rintro rfl
  exact h.1 (List.nil_prefix)

theorem of_head_ne {k l : κ} (h : k ≠ l) (p q : List κ) : Apart (k :: p) (l :: q) :=
  ⟨fun hp => h (List.cons_prefix_cons.1 hp).1, fun hq => h (List.cons_prefix_cons.1 hq).1.symm⟩

theorem tail {k : κ} {p q : List κ} (h : Apart (k :: p) (k :: q)) : Apart p q :=
  ⟨fun hp => h.1 (List.cons_prefix_cons.2 ⟨rfl, hp⟩),
    fun hq => h.2 (List.cons_prefix_cons.2 ⟨rfl, hq⟩)⟩

end Apart

/-! ## Namespaces -/

/-- Values some of which are maps of values. -/
structure Nested (κ : Type u) (α : Type v) where
  fields : α → Option (List (κ × α))
  object : List (κ × α) → α
  fields_object : ∀ m, fields (object m) = some m

namespace Nested

open OrdMap

variable {κ : Type u} {α : Type v} [LinearOrder κ] (n : Nested κ α)

/-- The map under a key, empty when there is nothing. -/
def children (k : κ) (m : List (κ × α)) : Option (List (κ × α)) :=
  match get? k m with
  | none => some []
  | some w => n.fields w

/-- Store a value under a path that is not taken. -/
def insertPath : List κ → α → List (κ × α) → Option (List (κ × α))
  | [], _, _ => none
  | [k], v, m => if (get? k m).isSome then none else some (set k v m)
  | k :: l :: p, v, m =>
    (n.children k m).bind fun c =>
      (insertPath (l :: p) v c).map fun c => set k (n.object c) m

/-- The value under a path. -/
def find : List κ → List (κ × α) → Option α
  | [], _ => none
  | [k], m => get? k m
  | k :: l :: p, m => (get? k m).bind fun w => (n.fields w).bind (find (l :: p))

theorem children_set_self (k : κ) (c m : List (κ × α)) :
    n.children k (set k (n.object c) m) = some c := by
  rw [children, get?_set_self]
  exact n.fields_object c

theorem children_set_ne {k l : κ} (h : l ≠ k) (w : α) (m : List (κ × α)) :
    n.children l (set k w m) = n.children l m := by
  rw [children, get?_set_ne h, children]

variable {n}

/-- The first key of a path is not touched when the path begins with another one. -/
theorem get?_insertPath {k l : κ} {p : List κ} {v : α} {m m' : List (κ × α)} (hne : l ≠ k)
    (h : n.insertPath (k :: p) v m = some m') : get? l m' = get? l m := by
  cases p with
  | nil =>
      simp only [insertPath, Option.ite_none_left_eq_some, Option.some.injEq] at h
      rw [← h.2, get?_set_ne hne]
  | cons j p =>
      simp only [insertPath, Option.bind_eq_some_iff, Option.map_eq_some_iff] at h
      obtain ⟨_, _, _, _, rfl⟩ := h
      exact get?_set_ne hne _ _

theorem find_insertPath_self {p : List κ} {v : α} {m m' : List (κ × α)}
    (h : n.insertPath p v m = some m') : n.find p m' = some v := by
  induction p generalizing m m' with
  | nil => simp [insertPath] at h
  | cons k p ih =>
      cases p with
      | nil =>
          simp only [insertPath, Option.ite_none_left_eq_some, Option.some.injEq] at h
          rw [← h.2]
          exact get?_set_self k v m
      | cons l p =>
          simp only [insertPath, Option.bind_eq_some_iff, Option.map_eq_some_iff] at h
          obtain ⟨_, _, c, hc, rfl⟩ := h
          rw [find, get?_set_self, Option.bind_some, n.fields_object, Option.bind_some]
          exact ih hc

/-- What is under a path stays there when a value is stored apart from it. -/
theorem find_insertPath_apart {p q : List κ} {v w : α} {m m' : List (κ × α)} (hapart : Apart p q)
    (h : n.insertPath p v m = some m') (hq : n.find q m = some w) : n.find q m' = some w := by
  induction p generalizing q m m' with
  | nil => exact absurd rfl hapart.ne_nil
  | cons k p ih =>
      cases q with
      | nil => exact absurd rfl hapart.symm.ne_nil
      | cons l q =>
          by_cases hkl : l = k
          · subst hkl
            obtain ⟨l₁, p, rfl⟩ := List.exists_cons_of_ne_nil hapart.tail.ne_nil
            obtain ⟨l₂, q, rfl⟩ := List.exists_cons_of_ne_nil hapart.tail.symm.ne_nil
            simp only [insertPath, Option.bind_eq_some_iff, Option.map_eq_some_iff] at h
            obtain ⟨c, hc, c', hc', rfl⟩ := h
            simp only [find, Option.bind_eq_some_iff] at hq ⊢
            obtain ⟨x, hx, d, hd, hfind⟩ := hq
            rw [children, hx] at hc
            obtain rfl : d = c := Option.some.inj (hd.symm.trans hc)
            exact ⟨_, get?_set_self _ _ _, c', n.fields_object c', ih hapart.tail hc' hfind⟩
          · have hsame := get?_insertPath hkl h
            cases q with
            | nil => exact hsame.trans hq
            | cons j q => rwa [find, hsame]

/-- Whether a path is taken does not depend on what is stored there. -/
theorem isSome_insertPath_value (p : List κ) (v w : α) (m : List (κ × α)) :
    (n.insertPath p v m).isSome = (n.insertPath p w m).isSome := by
  induction p generalizing m with
  | nil => rfl
  | cons k p ih =>
      cases p with
      | nil =>
          simp only [insertPath]
          split <;> rfl
      | cons l p =>
          simp only [insertPath]
          cases n.children k m with
          | none => rfl
          | some c => simpa using ih c

/-- Storing a value apart from a path neither takes the path nor frees it. -/
theorem isSome_insertPath_apart {p q : List κ} {v w w' : α} {m m' : List (κ × α)}
    (hapart : Apart p q) (h : n.insertPath p v m = some m') :
    (n.insertPath q w m').isSome = (n.insertPath q w' m).isSome := by
  induction p generalizing q m m' with
  | nil => exact absurd rfl hapart.ne_nil
  | cons k p ih =>
      cases q with
      | nil => exact absurd rfl hapart.symm.ne_nil
      | cons l q =>
          by_cases hkl : l = k
          · subst hkl
            obtain ⟨l₁, p, rfl⟩ := List.exists_cons_of_ne_nil hapart.tail.ne_nil
            obtain ⟨l₂, q, rfl⟩ := List.exists_cons_of_ne_nil hapart.tail.symm.ne_nil
            simp only [insertPath, Option.bind_eq_some_iff, Option.map_eq_some_iff] at h
            obtain ⟨c, hc, c', hc', rfl⟩ := h
            simp only [insertPath, children_set_self, hc, Option.bind_some, Option.isSome_map]
            exact ih hapart.tail hc'
          · have hsame := get?_insertPath hkl h
            cases q with
            | nil =>
                simp only [insertPath, hsame]
                split <;> rfl
            | cons j q =>
                have hchildren : n.children l m' = n.children l m := by rw [children, hsame, children]
                simp only [insertPath, hchildren]
                cases hc : n.children l m with
                | none => rfl
                | some c =>
                    simp only [Option.bind_some, Option.isSome_map]
                    exact isSome_insertPath_value _ _ _ _

/-- A value is stored by setting the first key of its path, and what it is set to depends only on what
    was there. -/
theorem insertPath_cons (k : κ) (p : List κ) (v : α) : ∃ f : Option α → Option α, ∀ m,
    n.insertPath (k :: p) v m = (f (get? k m)).map fun x => set k x m := by
  cases p with
  | nil =>
      refine ⟨fun old => if old.isSome then none else some v, fun m => ?_⟩
      simp only [insertPath]
      split <;> rfl
  | cons l p =>
      refine ⟨fun old => ((match old with
        | none => some []
        | some w => n.fields w).bind (n.insertPath (l :: p) v)).map n.object, fun m => ?_⟩
      simp only [insertPath, children]
      cases (match get? k m with
        | none => some []
        | some w => n.fields w) with
      | none => rfl
      | some c => simp [Function.comp_def]

/-- **Independence.** Values that are stored apart are stored in any order. -/
theorem insertPath_comm {p q : List κ} (hapart : Apart p q) (v w : α) (m : List (κ × α)) :
    (n.insertPath p v m).bind (n.insertPath q w) = (n.insertPath q w m).bind (n.insertPath p v) := by
  induction p generalizing q m with
  | nil => exact absurd rfl hapart.ne_nil
  | cons k p ih =>
      cases q with
      | nil => exact absurd rfl hapart.symm.ne_nil
      | cons l q =>
          by_cases hkl : l = k
          · subst hkl
            obtain ⟨l₁, p, rfl⟩ := List.exists_cons_of_ne_nil hapart.tail.ne_nil
            obtain ⟨l₂, q, rfl⟩ := List.exists_cons_of_ne_nil hapart.tail.symm.ne_nil
            -- both go into the map under the common key
            have hboth : ∀ (p q : List κ) (l₁ l₂ : κ) (v w : α),
                (n.insertPath (l :: l₁ :: p) v m).bind (n.insertPath (l :: l₂ :: q) w) =
                  (n.children l m).bind fun c =>
                    ((n.insertPath (l₁ :: p) v c).bind (n.insertPath (l₂ :: q) w)).map
                      fun c => set l (n.object c) m := by
              intro p q l₁ l₂ v w
              rw [insertPath]
              cases n.children l m with
              | none => rfl
              | some c =>
                  simp only [Option.bind_some]
                  cases n.insertPath (l₁ :: p) v c with
                  | none => rfl
                  | some c' =>
                      simp only [Option.map_some, Option.bind_some]
                      rw [insertPath, children_set_self, Option.bind_some]
                      simp only [set_set]
            rw [hboth, hboth]
            cases n.children l m with
            | none => rfl
            | some c => rw [Option.bind_some, Option.bind_some, ih hapart.tail]
          · obtain ⟨f, hf⟩ := n.insertPath_cons k p v
            obtain ⟨g, hg⟩ := n.insertPath_cons l q w
            rw [hf, hg]
            cases hx : f (get? k m) <;> cases hy : g (get? l m) <;>
              simp [hf, hg, hx, hy, get?_set_ne hkl, get?_set_ne (Ne.symm hkl), set_comm hkl]

/-- Finding a path goes through the values on the way. -/
theorem find_append {p : List κ} (hp : p ≠ []) (k : κ) (q : List κ) (m : List (κ × α)) :
    n.find (p ++ k :: q) m = (n.find p m).bind fun w => (n.fields w).bind (n.find (k :: q)) := by
  induction p generalizing m with
  | nil => exact absurd rfl hp
  | cons j p ih =>
      cases p with
      | nil => rfl
      | cons l p =>
          simp only [List.cons_append, find] at ih ⊢
          rw [Option.bind_assoc]
          refine Option.bind_congr fun w _ => ?_
          rw [Option.bind_assoc]
          exact Option.bind_congr fun c _ => ih (List.cons_ne_nil _ _) c

/-- What is on the way to a value is a map. -/
theorem find_of_prefix {p q : List κ} {m : List (κ × α)} {v : α} (h : n.find p m = some v)
    (hq : q <+: p) (hne : q ≠ p) (hnil : q ≠ []) :
    ∃ w, n.find q m = some w ∧ (n.fields w).isSome := by
  obtain ⟨r, rfl⟩ := hq
  cases r with
  | nil => exact absurd (List.append_nil q).symm hne
  | cons k r =>
      rw [find_append hnil] at h
      obtain ⟨w, hw, h⟩ := Option.bind_eq_some_iff.1 h
      obtain ⟨c, hc, -⟩ := Option.bind_eq_some_iff.1 h
      exact ⟨w, hw, Option.isSome_iff_exists.2 ⟨c, hc⟩⟩

/-- A path is free if there is nothing under it, and only maps on the way. -/
theorem isSome_insertPath_iff {p : List κ} {v : α} {m : List (κ × α)} :
    (n.insertPath p v m).isSome = true ↔ p ≠ [] ∧ n.find p m = none ∧
      ∀ q w, q <+: p → n.find q m = some w → (n.fields w).isSome = true := by
  induction p generalizing m with
  | nil => simp [insertPath]
  | cons k p ih =>
      cases p with
      | nil =>
          simp only [insertPath, find]
          cases hk : get? k m with
          | none =>
              simp only [Option.isSome_none, Bool.false_eq_true, if_false, Option.isSome_some, true_iff]
              refine ⟨List.cons_ne_nil _ _, trivial, fun q w hq hw => ?_⟩
              cases q with
              | nil => cases hw
              | cons j q =>
                  obtain ⟨rfl, htail⟩ := List.cons_prefix_cons.1 hq
                  obtain rfl := List.prefix_nil.1 htail
                  exact absurd (hk.symm.trans hw) nofun
          | some w => simp
      | cons l p =>
          simp only [insertPath, children]
          cases hk : get? k m with
          | none =>
              -- nothing is there: the way is made of new maps
              have hsome : (n.insertPath (l :: p) v []).isSome = true := by
                refine ih.2 ⟨List.cons_ne_nil _ _, ?_, fun q w _ hw => ?_⟩
                · cases p <;> simp [find, get?_nil]
                · cases q with
                  | nil => cases hw
                  | cons j q => cases q <;> simp [find, get?_nil] at hw
              simp only [Option.bind_some, Option.isSome_map, hsome, true_iff]
              refine ⟨List.cons_ne_nil _ _, by simp [find, hk], fun q w hq hw => ?_⟩
              cases q with
              | nil => cases hw
              | cons j q =>
                  obtain ⟨rfl, -⟩ := List.cons_prefix_cons.1 hq
                  cases q <;> simp [find, hk] at hw
          | some x =>
              cases hx : n.fields x with
              | none =>
                  simp only [hx, Option.bind_none, Option.isSome_none, Bool.false_eq_true, false_iff]
                  rintro ⟨-, -, hway⟩
                  have := hway [k] x (List.cons_prefix_cons.2 ⟨rfl, List.nil_prefix⟩) hk
                  rw [hx] at this
                  exact absurd this nofun
              | some c =>
                  simp only [hx, Option.bind_some, Option.isSome_map, ih, find, hk]
                  refine ⟨fun ⟨_, hnone, hway⟩ => ⟨List.cons_ne_nil _ _, hnone, fun q w hq hw => ?_⟩,
                    fun ⟨_, hnone, hway⟩ => ⟨List.cons_ne_nil _ _, hnone, fun q w hq hw => ?_⟩⟩
                  · cases q with
                    | nil => cases hw
                    | cons j q =>
                        obtain ⟨rfl, htail⟩ := List.cons_prefix_cons.1 hq
                        cases q with
                        | nil =>
                            obtain rfl := Option.some.inj (hk.symm.trans hw)
                            rw [hx]
                            rfl
                        | cons i q =>
                            simp only [find, hk, Option.bind_some, hx] at hw
                            exact hway _ w htail hw
                  · cases q with
                    | nil => cases hw
                    | cons j q =>
                        refine hway (k :: j :: q) w (List.cons_prefix_cons.2 ⟨rfl, hq⟩) ?_
                        simpa only [find, hk, Option.bind_some, hx] using hw

/-- What is found after a value was stored was there before, or is at or below its path, or is a map on
    the way to it. -/
theorem find_of_insertPath {p r : List κ} {v w : α} {m m' : List (κ × α)}
    (h : n.insertPath p v m = some m') (hr : n.find r m' = some w) :
    n.find r m = some w ∨ p <+: r ∨ (r <+: p ∧ (n.fields w).isSome = true) := by
  induction p generalizing r m m' with
  | nil => simp [insertPath] at h
  | cons k p ih =>
      cases r with
      | nil => cases hr
      | cons j r =>
          by_cases hjk : j = k
          · subst hjk
            cases p with
            | nil => exact Or.inr (Or.inl (List.cons_prefix_cons.2 ⟨rfl, List.nil_prefix⟩))
            | cons l p =>
                simp only [insertPath, Option.bind_eq_some_iff, Option.map_eq_some_iff] at h
                obtain ⟨c, hc, c', hc', rfl⟩ := h
                cases r with
                | nil =>
                    rw [find, get?_set_self] at hr
                    obtain rfl := Option.some.inj hr
                    refine Or.inr (Or.inr ⟨List.cons_prefix_cons.2 ⟨rfl, List.nil_prefix⟩, ?_⟩)
                    rw [n.fields_object]
                    rfl
                | cons i r =>
                    simp only [find, get?_set_self, Option.bind_some, n.fields_object] at hr
                    rcases ih hc' hr with hold | hbelow | ⟨habove, hmap⟩
                    · refine Or.inl ?_
                      rw [children] at hc
                      cases hj : get? j m with
                      | none =>
                          rw [hj] at hc
                          obtain rfl := Option.some.inj hc
                          cases r <;> simp [find, get?_nil] at hold
                      | some x =>
                          rw [hj] at hc
                          have hfields : n.fields x = some c := hc
                          simpa only [find, hj, Option.bind_some, hfields] using hold
                    · exact Or.inr (Or.inl (List.cons_prefix_cons.2 ⟨rfl, hbelow⟩))
                    · exact Or.inr (Or.inr ⟨List.cons_prefix_cons.2 ⟨rfl, habove⟩, hmap⟩)
          · have hsame := get?_insertPath hjk h
            refine Or.inl ?_
            cases r with
            | nil => exact hsame.symm.trans hr
            | cons i r => rwa [find, hsame] at hr

/-- What is there is not removed when a value is stored. -/
theorem isSome_find_insertPath {p r : List κ} {v : α} {m m' : List (κ × α)}
    (h : n.insertPath p v m = some m') (hr : (n.find r m).isSome = true) :
    (n.find r m').isSome = true := by
  induction p generalizing r m m' with
  | nil => simp [insertPath] at h
  | cons k p ih =>
      cases r with
      | nil => cases hr
      | cons j r =>
          by_cases hjk : j = k
          · subst hjk
            cases p with
            | nil =>
                simp only [insertPath, Option.ite_none_left_eq_some] at h
                cases r <;> simp_all [find]
            | cons l p =>
                simp only [insertPath, Option.bind_eq_some_iff, Option.map_eq_some_iff] at h
                obtain ⟨c, hc, c', hc', rfl⟩ := h
                cases r with
                | nil => simp [find, get?_set_self]
                | cons i r =>
                    rw [children] at hc
                    cases hj : get? j m with
                    | none => simp [find, hj] at hr
                    | some x =>
                        rw [hj] at hc
                        have hfields : n.fields x = some c := hc
                        simp only [find, hj, Option.bind_some, hfields] at hr
                        simpa only [find, get?_set_self, Option.bind_some, n.fields_object] using
                          ih hc' hr
          · have hsame := get?_insertPath hjk h
            cases r with
            | nil => rwa [find, hsame]
            | cons i r =>
                rw [find] at hr ⊢
                rwa [hsame]

/-- Store several values, one after the other. -/
def insertAll (n : Nested κ α) (entries : List (List κ × α)) (m : List (κ × α)) :
    Option (List (κ × α)) :=
  entries.foldlM (fun m e => n.insertPath e.1 e.2 m) m

theorem insertAll_append {xs ys : List (List κ × α)} {m : List (κ × α)} :
    n.insertAll (xs ++ ys) m = (n.insertAll xs m).bind (n.insertAll ys) :=
  List.foldlM_append

/-- Values with paths apart from each other are stored in any order. -/
theorem insertAll_perm {xs ys : List (List κ × α)} (hperm : xs.Perm ys)
    (hapart : xs.Pairwise fun x y => Apart x.1 y.1) (m : List (κ × α)) :
    n.insertAll xs m = n.insertAll ys m := by
  induction hperm generalizing m with
  | nil => rfl
  | cons x hperm ih =>
      obtain ⟨_, hrest⟩ := List.pairwise_cons.1 hapart
      show (n.insertPath x.1 x.2 m).bind _ = (n.insertPath x.1 x.2 m).bind _
      cases n.insertPath x.1 x.2 m with
      | none => rfl
      | some m' => exact ih hrest m'
  | swap x y l =>
      obtain ⟨hy, _⟩ := List.pairwise_cons.1 hapart
      have hcomm := n.insertPath_comm (hy x List.mem_cons_self) y.2 x.2 m
      show (n.insertPath y.1 y.2 m).bind (fun m => (n.insertPath x.1 x.2 m).bind _) =
        (n.insertPath x.1 x.2 m).bind fun m => (n.insertPath y.1 y.2 m).bind _
      rw [← Option.bind_assoc, ← Option.bind_assoc, hcomm]
  | trans hxy _ ihxy ihyz =>
      rw [ihxy hapart, ihyz]
      exact (hxy.pairwise_iff fun h => h.symm).1 hapart

/-- Values with paths that are free and apart from each other can be stored. -/
theorem insertAll_isSome {entries : List (List κ × α)}
    (hapart : entries.Pairwise fun x y => Apart x.1 y.1) {m : List (κ × α)}
    (hfree : ∀ e ∈ entries, (n.insertPath e.1 e.2 m).isSome) : (n.insertAll entries m).isSome := by
  induction entries generalizing m with
  | nil => rfl
  | cons e entries ih =>
      obtain ⟨he, hrest⟩ := List.pairwise_cons.1 hapart
      obtain ⟨m', hm'⟩ := Option.isSome_iff_exists.1 (hfree e List.mem_cons_self)
      show ((n.insertPath e.1 e.2 m).bind (n.insertAll entries)).isSome = true
      rw [hm', Option.bind_some]
      refine ih hrest fun x hx => ?_
      rw [isSome_insertPath_apart (he x hx) hm']
      exact hfree x (List.mem_cons_of_mem _ hx)

/-- What was there stays when the values are stored apart from it. -/
theorem find_insertAll_apart {entries : List (List κ × α)} {m m' : List (κ × α)} {q : List κ} {w : α}
    (hapart : ∀ e ∈ entries, Apart e.1 q) (h : n.insertAll entries m = some m')
    (hq : n.find q m = some w) : n.find q m' = some w := by
  induction entries generalizing m with
  | nil => exact Option.some.inj h ▸ hq
  | cons e entries ih =>
      obtain ⟨m₁, hm₁, hrest⟩ := Option.bind_eq_some_iff.1
        (show (n.insertPath e.1 e.2 m).bind (n.insertAll entries) = some m' from h)
      refine ih (fun x hx => hapart x (List.mem_cons_of_mem _ hx)) hrest ?_
      exact find_insertPath_apart (hapart e List.mem_cons_self) hm₁ hq

/-- Every value that was stored is found. -/
theorem find_insertAll {entries : List (List κ × α)}
    (hapart : entries.Pairwise fun x y => Apart x.1 y.1) {m m' : List (κ × α)}
    (h : n.insertAll entries m = some m') {e : List κ × α} (he : e ∈ entries) :
    n.find e.1 m' = some e.2 := by
  induction entries generalizing m with
  | nil => cases he
  | cons x entries ih =>
      obtain ⟨hx, hrest⟩ := List.pairwise_cons.1 hapart
      obtain ⟨m₁, hm₁, htail⟩ := Option.bind_eq_some_iff.1
        (show (n.insertPath x.1 x.2 m).bind (n.insertAll entries) = some m' from h)
      rcases List.mem_cons.1 he with rfl | he
      · exact find_insertAll_apart (fun y hy => (hx y hy).symm) htail (find_insertPath_self hm₁)
      · exact ih hrest htail he

end Nested
