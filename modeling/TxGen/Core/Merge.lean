import TxGen.Scenario.Yaml

set_option autoImplicit false

/-! # Merging YAML

An overlay is merged into a base value; a reference `{ var: ... }` counts as a scalar. -/

namespace TxGen

namespace Yaml

/-- The value below its tags. -/
def untagRef : Yaml → Yaml
  | .tagged _ value => value.untagRef
  | value => value

/-- A mapping whose only key is `var`. -/
def isVarRef : Yaml → Bool
  | .mapping [(.string "var", _)] => true
  | _ => false

/-- Set the value of a key in place, or add it at the end. -/
def insertWith (f : Option Yaml → Yaml) (key : Yaml) : List (Yaml × Yaml) → List (Yaml × Yaml)
  | [] => [(key, f none)]
  | (k, value) :: entries =>
    if k = key then (k, f (some value)) :: entries
    else (k, value) :: insertWith f key entries

mutual

def merge (base : Yaml) : Yaml → Yaml
  | .null => base
  | .mapping overlay =>
    if base.isVarRef || (Yaml.mapping overlay).isVarRef then .mapping overlay
    else match base with
      | .mapping entries => .mapping (mergeEntries entries overlay)
      | _ => .mapping overlay
  | overlay => overlay

def mergeEntries (base : List (Yaml × Yaml)) : List (Yaml × Yaml) → List (Yaml × Yaml)
  | [] => base
  | (key, value) :: overlay =>
    mergeEntries (insertWith (fun old => match old with
      | some old => merge old value
      | none => value) key base) overlay

end

/-- The value of a key that may be on either side. -/
def mergeValue : Option Yaml → Option Yaml → Option Yaml
  | old, none => old
  | none, some value => some value
  | some old, some value => some (merge old value)

theorem merge_null (base : Yaml) : base.merge .null = base := by
  rw [merge]

/-- A mapping on top of a mapping is merged into it, unless one of them is a reference. -/
theorem merge_mapping {entries overlay : List (Yaml × Yaml)}
    (hbase : (Yaml.mapping entries).isVarRef = false)
    (hoverlay : (Yaml.mapping overlay).isVarRef = false) :
    (Yaml.mapping entries).merge (.mapping overlay) = .mapping (mergeEntries entries overlay) := by
  rw [merge, if_neg (by simp [hbase, hoverlay])]

/-- One of the two is a reference, or not a mapping. -/
def Replaces (base overlay : Yaml) : Prop :=
  base.isVarRef = true ∨ overlay.isVarRef = true ∨ (∀ entries, base ≠ .mapping entries) ∨
    ∀ entries, overlay ≠ .mapping entries

/-- In all other cases the overlay takes the place of the base. -/
theorem merge_replaces {base overlay : Yaml} (hnull : overlay ≠ .null) (h : Replaces base overlay) :
    base.merge overlay = overlay := by
  cases overlay with
  | null => exact absurd rfl hnull
  | mapping entries =>
      unfold merge
      split
      · rfl
      · next hvar =>
          rw [Bool.or_eq_true, not_or] at hvar
          rcases h with h | h | h | h
          · exact absurd h hvar.1
          · exact absurd h hvar.2
          · split
            · exact absurd rfl (h _)
            · rfl
          · exact absurd rfl (h entries)
  | _ => rw [merge] <;> simp

/-- How an overlay goes onto a base. -/
theorem merge_cases (base overlay : Yaml) :
    overlay = .null ∨ (overlay ≠ .null ∧ Replaces base overlay) ∨
      ∃ entries entries', base = .mapping entries ∧ overlay = .mapping entries' ∧
        base.isVarRef = false ∧ overlay.isVarRef = false := by
  by_cases hnull : overlay = .null
  · exact .inl hnull
  · refine .inr ?_
    by_cases h : Replaces base overlay
    · exact .inl ⟨hnull, h⟩
    · simp only [Replaces, not_or, not_forall, not_not, Bool.not_eq_true] at h
      obtain ⟨hbase, hoverlay, ⟨entries, hentries⟩, entries', hentries'⟩ := h
      exact .inr ⟨entries, entries', hentries, hentries', hbase, hoverlay⟩

mutual

/-- Each mapping within the value has each of its keys once. -/
def distinctKeys : Yaml → Bool
  | .sequence values => distinctKeysList values
  | .mapping entries => decide (entries.map Prod.fst).Nodup && distinctKeysEntries entries
  | .tagged _ value => distinctKeys value
  | _ => true

def distinctKeysList : List Yaml → Bool
  | [] => true
  | value :: values => distinctKeys value && distinctKeysList values

def distinctKeysEntries : List (Yaml × Yaml) → Bool
  | [] => true
  | (_, value) :: entries => distinctKeys value && distinctKeysEntries entries

end

/-! ### Entries by key -/

/-- The value of a key of a mapping. -/
def find? (entries : List (Yaml × Yaml)) (key : Yaml) : Option Yaml :=
  (entries.find? fun e => e.1 = key).map Prod.snd

@[simp] theorem find?_nil (key : Yaml) : find? [] key = none := rfl

theorem find?_cons (e : Yaml × Yaml) (entries : List (Yaml × Yaml)) (key : Yaml) :
    find? (e :: entries) key = if e.1 = key then some e.2 else find? entries key := by
  unfold find?
  by_cases h : e.1 = key <;> simp [h]

theorem find?_eq_none {entries : List (Yaml × Yaml)} {key : Yaml} :
    find? entries key = none ↔ key ∉ entries.map Prod.fst := by
  induction entries with
  | nil => simp
  | cons e entries ih =>
      rw [find?_cons, List.map_cons, List.mem_cons, not_or, ← ih]
      by_cases h : e.1 = key
      · simp [h]
      · simp [h, Ne.symm h]

theorem find?_insertWith (f : Option Yaml → Yaml) (key : Yaml) (entries : List (Yaml × Yaml))
    (k : Yaml) : find? (insertWith f key entries) k =
      if key = k then some (f (find? entries k)) else find? entries k := by
  induction entries with
  | nil => rw [insertWith, find?_cons, find?_nil]
  | cons e entries ih =>
      obtain ⟨l, value⟩ := e
      rw [insertWith]
      split
      · next hl =>
          rw [find?_cons, find?_cons, hl]
          split <;> rfl
      · next hl =>
          rw [find?_cons, find?_cons, ih]
          by_cases hk : key = k
          · rw [if_neg (fun h => hl (h.trans hk.symm)), if_pos hk, if_pos hk,
              if_neg (fun h => hl (h.trans hk.symm))]
          · rw [if_neg hk, if_neg hk]

/-- Of entries with distinct keys each is merged once. -/
theorem find?_mergeEntries {overlay : List (Yaml × Yaml)} (hkeys : (overlay.map Prod.fst).Nodup)
    (base : List (Yaml × Yaml)) (k : Yaml) :
    find? (mergeEntries base overlay) k = mergeValue (find? base k) (find? overlay k) := by
  induction overlay generalizing base with
  | nil => rw [mergeEntries, find?_nil, mergeValue]
  | cons e overlay ih =>
      obtain ⟨key, value⟩ := e
      rw [List.map_cons, List.nodup_cons] at hkeys
      rw [mergeEntries, ih hkeys.2, find?_insertWith, find?_cons]
      by_cases hk : key = k
      · subst hk
        rw [if_pos rfl, if_pos rfl, find?_eq_none.2 hkeys.1]
        cases find? base key <;> rfl
      · rw [if_neg hk, if_neg hk]

theorem get_mergeEntries {overlay : List (Yaml × Yaml)} (hkeys : (overlay.map Prod.fst).Nodup)
    (base : List (Yaml × Yaml)) (k : String) :
    get (mergeEntries base overlay) k = mergeValue (get base k) (get overlay k) :=
  find?_mergeEntries hkeys base (.string k)

theorem nodup_of_distinctKeys {entries : List (Yaml × Yaml)}
    (h : (Yaml.mapping entries).distinctKeys = true) : (entries.map Prod.fst).Nodup := by
  rw [distinctKeys, Bool.and_eq_true] at h
  exact of_decide_eq_true h.1

theorem distinctKeys_get {entries : List (Yaml × Yaml)}
    (h : (Yaml.mapping entries).distinctKeys = true) {k : String} {value : Yaml}
    (hget : get entries k = some value) : value.distinctKeys = true := by
  rw [distinctKeys, Bool.and_eq_true] at h
  have hentries := h.2
  clear h
  induction entries with
  | nil => cases hget
  | cons e entries ih =>
      obtain ⟨key, first⟩ := e
      rw [distinctKeysEntries, Bool.and_eq_true] at hentries
      rw [get_cons] at hget
      split at hget
      · obtain rfl := Option.some.inj hget
        exact hentries.1
      · exact ih hget hentries.2

/-- Entries that correspond under equal keys. -/
def EntriesRel (R : Yaml → Yaml → Prop) : List (Yaml × Yaml) → List (Yaml × Yaml) → Prop :=
  List.Forall₂ fun e e' => e'.1 = e.1 ∧ R e.2 e'.2

theorem EntriesRel.get {R : Yaml → Yaml → Prop} {es es' : List (Yaml × Yaml)}
    (h : EntriesRel R es es') (k : String) : Option.Rel R (Yaml.get es k) (Yaml.get es' k) := by
  induction h with
  | nil => exact .none
  | @cons e e' es es' hfirst _ ih =>
      obtain ⟨hkey, hvalue⟩ := hfirst
      rw [get_cons, get_cons, hkey]
      split
      · exact .some hvalue
      · exact ih

theorem EntriesRel.get_cases {R : Yaml → Yaml → Prop} {es es' : List (Yaml × Yaml)}
    (h : EntriesRel R es es') (k : String) :
    (Yaml.get es k = none ∧ Yaml.get es' k = none) ∨
      ∃ v v', Yaml.get es k = some v ∧ Yaml.get es' k = some v' ∧ R v v' := by
  have hget := h.get k
  generalize Yaml.get es k = x at hget
  generalize Yaml.get es' k = y at hget
  cases hget with
  | none => exact .inl ⟨rfl, rfl⟩
  | some hvalue => exact .inr ⟨_, _, rfl, rfl, hvalue⟩

theorem EntriesRel.keys {R : Yaml → Yaml → Prop} {es es' : List (Yaml × Yaml)}
    (h : EntriesRel R es es') : es'.map Prod.fst = es.map Prod.fst := by
  induction h with
  | nil => rfl
  | cons hfirst _ ih => rw [List.map_cons, List.map_cons, hfirst.1, ih]

end Yaml

end TxGen
