import TxGen.Core.Merge
import TxGen.Lib.KeyedLists

set_option autoImplicit false

/-! # The laws of the overlay

Templates, steps, includes and scenario overlays all go through `merge`. An overlay that is merged again
changes nothing, its leaves are found where it has them, and all that it does not touch stays. A variable
reference is a leaf of a document, although it is written as a mapping. -/

namespace TxGen

namespace Yaml

/-! ## Paths -/

/-- A value that is not merged into: a scalar, a sequence, a tagged value or a reference. -/
def isLeaf : Yaml → Bool
  | .null => false
  | .mapping entries => (Yaml.mapping entries).isVarRef
  | _ => true

/-- The value at a path of keys. A reference is a leaf, so that no path leads into it. -/
def valueAt : Yaml → List Yaml → Option Yaml
  | value, [] => some value
  | .mapping entries, key :: path =>
    if (Yaml.mapping entries).isVarRef then none
    else (find? entries key).bind fun value => valueAt value path
  | _, _ :: _ => none

/-- The overlay has a value that is not null at the path, or a leaf on the way to it. -/
def touches : Yaml → List Yaml → Bool
  | .null, _ => false
  | .mapping entries, key :: path =>
    (Yaml.mapping entries).isVarRef || (find? entries key).any fun value => touches value path
  | _, _ => true

/-! ## Keys -/

variable {base overlay entries : List (Yaml × Yaml)}

theorem isVarRef_mapping : (Yaml.mapping entries).isVarRef = true ↔
    entries.map Prod.fst = [.string "var"] := by
  constructor
  · intro h
    unfold isVarRef at h
    split at h
    · next heq =>
        cases heq
        rfl
    · cases h
  · intro h
    obtain ⟨⟨key, value⟩, rfl, rfl⟩ := List.map_eq_singleton_iff.1 h
    rfl

theorem keys_insertWith (f : Option Yaml → Yaml) (key : Yaml) (entries : List (Yaml × Yaml)) :
    (insertWith f key entries).map Prod.fst =
      if key ∈ entries.map Prod.fst then entries.map Prod.fst else entries.map Prod.fst ++ [key] := by
  induction entries with
  | nil => rfl
  | cons e entries ih =>
      rw [insertWith]
      by_cases hkey : e.1 = key
      · simp [hkey]
      · rw [if_neg hkey, List.map_cons, ih]
        simp only [List.map_cons, List.mem_cons, Ne.symm hkey, false_or]
        split <;> rfl

theorem mem_keys_mergeEntries {key : Yaml} : key ∈ (mergeEntries base overlay).map Prod.fst ↔
    key ∈ base.map Prod.fst ∨ key ∈ overlay.map Prod.fst := by
  induction overlay generalizing base with
  | nil => simp [mergeEntries]
  | cons e overlay ih =>
      obtain ⟨k, value⟩ := e
      rw [mergeEntries, ih, keys_insertWith, List.map_cons, List.mem_cons]
      split
      · next hmem =>
          constructor
          · tauto
          · rintro (h | rfl | h)
            exacts [.inl h, .inl hmem, .inr h]
      · simp only [List.mem_append, List.mem_singleton, or_assoc]

theorem nodup_keys_mergeEntries (h : (base.map Prod.fst).Nodup) :
    ((mergeEntries base overlay).map Prod.fst).Nodup := by
  induction overlay generalizing base with
  | nil => exact h
  | cons e overlay ih =>
      obtain ⟨key, value⟩ := e
      rw [mergeEntries]
      refine ih ?_
      rw [keys_insertWith]
      split
      · exact h
      · next hmem =>
          refine List.nodup_append.2 ⟨h, by simp, fun k hk k' hk' => ?_⟩
          rw [List.mem_singleton.1 hk']
          exact ne_of_mem_of_not_mem hk hmem

/-- Mappings that are not references are not merged into one. -/
theorem isVarRef_mergeEntries (hbase : (Yaml.mapping base).isVarRef = false)
    (hoverlay : (Yaml.mapping overlay).isVarRef = false) (hkeys : (base.map Prod.fst).Nodup)
    (hkeys' : (overlay.map Prod.fst).Nodup) :
    (Yaml.mapping (mergeEntries base overlay)).isVarRef = false := by
  -- a mapping that has no key but `var` is a reference or has no key at all
  have hempty {entries : List (Yaml × Yaml)} (hnodup : (entries.map Prod.fst).Nodup)
      (hplain : (Yaml.mapping entries).isVarRef = false)
      (hall : ∀ key ∈ entries.map Prod.fst, key = .string "var") : entries.map Prod.fst = [] := by
    cases hmap : entries.map Prod.fst with
    | nil => rfl
    | cons key keys =>
        rw [hmap] at hnodup hall
        obtain ⟨rfl, hrest⟩ := List.forall_mem_cons.1 hall
        cases keys with
        | nil => exact absurd (isVarRef_mapping.2 hmap) (by simp [hplain])
        | cons key' keys =>
            obtain rfl := hrest key' List.mem_cons_self
            exact absurd List.mem_cons_self (List.nodup_cons.1 hnodup).1
  by_contra hvar
  have hmerged := isVarRef_mapping.1 (Bool.not_eq_false _ ▸ hvar)
  have hall : ∀ key, key ∈ base.map Prod.fst ∨ key ∈ overlay.map Prod.fst → key = .string "var" := by
    intro key hmem
    have hmem' := mem_keys_mergeEntries.2 hmem
    rw [hmerged] at hmem'
    exact List.mem_singleton.1 hmem'
  have hsome : Yaml.string "var" ∈ base.map Prod.fst ∨ Yaml.string "var" ∈ overlay.map Prod.fst := by
    rw [← mem_keys_mergeEntries, hmerged]
    exact List.mem_singleton_self _
  rw [hempty hkeys hbase fun key hkey => hall key (.inl hkey),
    hempty hkeys' hoverlay fun key hkey => hall key (.inr hkey)] at hsome
  simp at hsome

theorem merged_at (hkeys : (overlay.map Prod.fst).Nodup) (hbase : (Yaml.mapping base).isVarRef = false)
    (hoverlay : (Yaml.mapping overlay).isVarRef = false) (hkeys' : (base.map Prod.fst).Nodup)
    (key : Yaml) (path : List Yaml) :
    ((Yaml.mapping base).merge (.mapping overlay)).valueAt (key :: path) =
      (mergeValue (find? base key) (find? overlay key)).bind fun value => value.valueAt path := by
  rw [merge_mapping hbase hoverlay, valueAt, isVarRef_mergeEntries hbase hoverlay hkeys' hkeys,
    find?_mergeEntries hkeys]
  rfl

/-! ## Values -/

theorem mem_of_find? {key value : Yaml} (h : find? entries key = some value) : (key, value) ∈ entries := by
  obtain ⟨⟨k, v⟩, hfind, rfl⟩ := Option.map_eq_some_iff.1 h
  obtain rfl : k = key := KeyedList.key_of_lookup? hfind
  exact KeyedList.mem_of_lookup? hfind

theorem find?_of_mem (h : (entries.map Prod.fst).Nodup) {e : Yaml × Yaml} (he : e ∈ entries) :
    find? entries e.1 = some e.2 :=
  congrArg (Option.map Prod.snd) (KeyedList.Keyed.finds (List.pairwise_map.1 h) he)

/-- An induction over the mappings of a value. -/
theorem mapping_induction {P : Yaml → Prop} (leaf : ∀ value, (∀ entries, value ≠ .mapping entries) → P value)
    (mapping : ∀ entries : List (Yaml × Yaml), (∀ e ∈ entries, P e.2) → P (.mapping entries))
    (value : Yaml) : P value :=
  match value with
  | .mapping entries => mapping entries fun e _ => mapping_induction leaf mapping e.2
  | .null => leaf _ nofun
  | .bool _ => leaf _ nofun
  | .number _ => leaf _ nofun
  | .string _ => leaf _ nofun
  | .sequence _ => leaf _ nofun
  | .tagged _ _ => leaf _ nofun
termination_by sizeOf value
decreasing_by
  obtain ⟨key, value⟩ := e
  have hsize := List.sizeOf_lt_of_mem ‹(key, value) ∈ entries›
  simp at hsize ⊢
  omega

/-- What is not a mapping replaces the base or leaves it. -/
theorem merge_of_not_mapping {value : Yaml} (h : ∀ entries, value ≠ .mapping entries) (base : Yaml) :
    base.merge value = if value = .null then base else value := by
  split
  · next hnull => rw [hnull, merge_null]
  · next hnull => exact merge_replaces hnull (.inr (.inr (.inr h)))

/-- A property of the values of both sides that merging keeps is one of the merged values. -/
theorem forall_mem_mergeEntries {P : Yaml → Prop} (hbase : ∀ e ∈ base, P e.2)
    (hoverlay : ∀ e ∈ overlay, P e.2) (hmerge : ∀ e ∈ overlay, ∀ old, P old → P (old.merge e.2)) :
    ∀ e ∈ mergeEntries base overlay, P e.2 := by
  induction overlay generalizing base with
  | nil => exact hbase
  | cons e overlay ih =>
      obtain ⟨key, value⟩ := e
      obtain ⟨hvalue, hrest⟩ := List.forall_mem_cons.1 hoverlay
      obtain ⟨hmergeValue, hmergeRest⟩ := List.forall_mem_cons.1 hmerge
      rw [mergeEntries]
      refine ih ?_ hrest hmergeRest
      clear ih hoverlay hmerge hrest hmergeRest
      induction base with
      | nil =>
          rw [insertWith]
          exact List.forall_mem_singleton.2 hvalue
      | cons e base ih =>
          obtain ⟨k, old⟩ := e
          obtain ⟨hold, hbase⟩ := List.forall_mem_cons.1 hbase
          rw [insertWith]
          split
          · exact List.forall_mem_cons.2 ⟨hmergeValue old hold, hbase⟩
          · exact List.forall_mem_cons.2 ⟨hold, ih hbase⟩

/-! ## Documents -/

theorem distinctKeys_mapping : (Yaml.mapping entries).distinctKeys = true ↔
    (entries.map Prod.fst).Nodup ∧ ∀ e ∈ entries, e.2.distinctKeys = true := by
  rw [distinctKeys, Bool.and_eq_true, decide_eq_true_eq]
  refine and_congr_right' ?_
  induction entries with
  | nil => simp [distinctKeysEntries]
  | cons e entries ih => rw [distinctKeysEntries, Bool.and_eq_true, ih, List.forall_mem_cons]

theorem distinctKeys_merge {base overlay : Yaml} (hbase : base.distinctKeys = true)
    (hoverlay : overlay.distinctKeys = true) : (base.merge overlay).distinctKeys = true := by
  induction overlay using mapping_induction generalizing base with
  | leaf overlay hleaf =>
      rw [merge_of_not_mapping hleaf]
      split
      · exact hbase
      · exact hoverlay
  | mapping overlay ih =>
      rcases merge_cases base (.mapping overlay) with hnull | ⟨hnull, hreplaces⟩ |
        ⟨entries, entries', rfl, heq, hvar, hvar'⟩
      · cases hnull
      · rw [merge_replaces hnull hreplaces]
        exact hoverlay
      · cases heq
        rw [merge_mapping hvar hvar', distinctKeys_mapping]
        rw [distinctKeys_mapping] at hbase hoverlay
        refine ⟨nodup_keys_mergeEntries hbase.1, ?_⟩
        exact forall_mem_mergeEntries (P := fun value => value.distinctKeys = true) hbase.2 hoverlay.2 fun e he old hold =>
          ih e he hold (hoverlay.2 e he)

/-- A value whose mappings have each of their keys once, as every `serde_yaml::Mapping` does. -/
structure Document where
  value : Yaml
  distinctKeys : value.distinctKeys = true

/-- `merge_yaml` -/
def Document.merge (base overlay : Document) : Document :=
  ⟨base.value.merge overlay.value, distinctKeys_merge base.distinctKeys overlay.distinctKeys⟩

/-! ## The laws -/

theorem insertWith_self {f : Option Yaml → Yaml} {key value : Yaml}
    (hfind : find? entries key = some value) (hf : f (some value) = value) :
    insertWith f key entries = entries := by
  induction entries with
  | nil => cases hfind
  | cons e entries ih =>
      obtain ⟨k, v⟩ := e
      rw [find?_cons] at hfind
      rw [insertWith]
      split
      · next hk =>
          rw [if_pos hk] at hfind
          obtain rfl := Option.some.inj hfind
          rw [hf]
      · next hk =>
          rw [if_neg hk] at hfind
          rw [ih hfind]

/-- Entries that are there already change nothing. -/
theorem mergeEntries_self (h : ∀ e ∈ overlay, ∃ value, find? base e.1 = some value ∧
    value.merge e.2 = value) : mergeEntries base overlay = base := by
  induction overlay with
  | nil => rfl
  | cons e overlay ih =>
      obtain ⟨key, value⟩ := e
      obtain ⟨⟨old, hfind, hmerge⟩, hrest⟩ := List.forall_mem_cons.1 h
      rw [mergeEntries, insertWith_self hfind hmerge, ih hrest]

/-- Merging an overlay again changes nothing. -/
theorem merge_merge {base overlay : Yaml} (hbase : base.distinctKeys = true)
    (hoverlay : overlay.distinctKeys = true) :
    (base.merge overlay).merge overlay = base.merge overlay := by
  induction overlay using mapping_induction generalizing base with
  | leaf overlay hleaf =>
      rw [merge_of_not_mapping hleaf, merge_of_not_mapping hleaf]
      split <;> rfl
  | mapping overlay ih =>
      have hkeys := distinctKeys_mapping.1 hoverlay
      -- a value of the overlay is merged into itself: into a scalar it is merged by replacing it
      have hself : ∀ e ∈ overlay, e.2.merge e.2 = e.2 := by
        intro e he
        by_cases hnull : e.2 = .null
        · rw [hnull, merge_null]
        · have hmerge : (Yaml.bool true).merge e.2 = e.2 :=
            merge_replaces hnull (.inr (.inr (.inl nofun)))
          have hagain : ((Yaml.bool true).merge e.2).merge e.2 = (Yaml.bool true).merge e.2 :=
            ih e he rfl (hkeys.2 e he)
          rwa [hmerge] at hagain
      have habsorbed {entries : List (Yaml × Yaml)} (hentries : ∀ e ∈ overlay, ∃ value,
          find? entries e.1 = some value ∧ value.merge e.2 = value)
          (hvar : (Yaml.mapping entries).isVarRef = false)
          (hvar' : (Yaml.mapping overlay).isVarRef = false) :
          (Yaml.mapping entries).merge (.mapping overlay) = .mapping entries := by
        rw [merge_mapping hvar hvar', mergeEntries_self hentries]
      rcases merge_cases base (.mapping overlay) with hnull | ⟨hnull, hreplaces⟩ |
        ⟨entries, entries', rfl, heq, hvar, hvar'⟩
      · cases hnull
      · rw [merge_replaces hnull hreplaces]
        by_cases hvar : (Yaml.mapping overlay).isVarRef = true
        · exact merge_replaces hnull (.inr (.inl hvar))
        · rw [Bool.not_eq_true] at hvar
          exact habsorbed (fun e he => ⟨e.2, find?_of_mem hkeys.1 he, hself e he⟩) hvar hvar
      · cases heq
        have hentries := distinctKeys_mapping.1 hbase
        rw [merge_mapping hvar hvar']
        refine habsorbed (fun e he => ?_)
          (isVarRef_mergeEntries hvar hvar' hentries.1 hkeys.1) hvar'
        rw [find?_mergeEntries hkeys.1, find?_of_mem hkeys.1 he]
        cases hold : find? entries e.1 with
        | none => exact ⟨e.2, rfl, hself e he⟩
        | some old =>
            exact ⟨old.merge e.2, rfl, ih e he (hentries.2 _ (mem_of_find? hold)) (hkeys.2 e he)⟩

/-- A leaf of the overlay is found where the overlay has it. -/
theorem valueAt_merge_of_leaf {base overlay value : Yaml} (hbase : base.distinctKeys = true)
    (hoverlay : overlay.distinctKeys = true) {path : List Yaml}
    (hvalue : overlay.valueAt path = some value) (hleaf : value.isLeaf = true) :
    (base.merge overlay).valueAt path = some value := by
  induction path generalizing base overlay with
  | nil =>
      obtain rfl := Option.some.inj hvalue
      have hnull : overlay ≠ .null := by
        rintro rfl
        cases hleaf
      rw [merge_replaces hnull]
      · rfl
      · by_cases hvar : overlay.isVarRef = true
        · exact .inr (.inl hvar)
        · refine .inr (.inr (.inr ?_))
          rintro entries rfl
          exact hvar hleaf
  | cons key path ih =>
      rcases merge_cases base overlay with rfl | ⟨hnull, hreplaces⟩ |
        ⟨entries, entries', rfl, rfl, hvar, hvar'⟩
      · cases hvalue
      · rw [merge_replaces hnull hreplaces]
        exact hvalue
      · obtain ⟨hkeys, hdistinct⟩ := distinctKeys_mapping.1 hbase
        obtain ⟨hkeys', hdistinct'⟩ := distinctKeys_mapping.1 hoverlay
        rw [merged_at hkeys' hvar hvar' hkeys]
        rw [valueAt, hvar', if_neg Bool.false_ne_true] at hvalue
        obtain ⟨new, hnew, hvalue⟩ := Option.bind_eq_some_iff.1 hvalue
        rw [hnew]
        cases hold : find? entries key with
        | none => exact hvalue
        | some old =>
            exact ih (hdistinct _ (mem_of_find? hold)) (hdistinct' _ (mem_of_find? hnew)) hvalue

/-- What the overlay does not touch stays. -/
theorem valueAt_merge_of_not_touches {base overlay value : Yaml} (hbase : base.distinctKeys = true)
    (hoverlay : overlay.distinctKeys = true) {path : List Yaml}
    (hvalue : base.valueAt path = some value) (htouches : overlay.touches path = false) :
    (base.merge overlay).valueAt path = some value := by
  induction path generalizing base overlay with
  | nil =>
      cases overlay with
      | null => rwa [merge_null]
      | _ => cases htouches
  | cons key path ih =>
      rcases merge_cases base overlay with rfl | ⟨hnull, hreplaces⟩ |
        ⟨entries, entries', rfl, rfl, hvar, hvar'⟩
      · rwa [merge_null]
      · -- neither side is a reference, and both are mappings
        exfalso
        cases base with
        | mapping entries =>
            rw [valueAt] at hvalue
            split at hvalue
            · cases hvalue
            · next hvar =>
                cases overlay with
                | null => exact hnull rfl
                | mapping entries' =>
                    rw [touches, Bool.or_eq_false_iff] at htouches
                    rcases hreplaces with h | h | h | h
                    · exact hvar h
                    · exact absurd h (by simp [htouches.1])
                    · exact h _ rfl
                    · exact h _ rfl
                | _ => cases htouches
        | _ => cases hvalue
      · obtain ⟨hkeys, hdistinct⟩ := distinctKeys_mapping.1 hbase
        obtain ⟨hkeys', hdistinct'⟩ := distinctKeys_mapping.1 hoverlay
        rw [merged_at hkeys' hvar hvar' hkeys]
        rw [valueAt, hvar, if_neg Bool.false_ne_true] at hvalue
        rw [touches, hvar', Bool.false_or] at htouches
        obtain ⟨old, hold, hvalue⟩ := Option.bind_eq_some_iff.1 hvalue
        rw [hold]
        cases hnew : find? entries' key with
        | none => exact hvalue
        | some new =>
            rw [hnew] at htouches
            exact ih (hdistinct _ (mem_of_find? hold)) (hdistinct' _ (mem_of_find? hnew)) hvalue
              htouches

/-- The way to a null touches nothing. -/
theorem not_touches_of_null {overlay : Yaml} {path : List Yaml}
    (h : overlay.valueAt path = some .null) : overlay.touches path = false := by
  induction path generalizing overlay with
  | nil =>
      obtain rfl := Option.some.inj h
      rfl
  | cons key path ih =>
      cases overlay with
      | null => rfl
      | mapping entries =>
          rw [valueAt] at h
          split at h
          · cases h
          · next hvar =>
              obtain ⟨value, hvalue, h⟩ := Option.bind_eq_some_iff.1 h
              rw [Bool.not_eq_true] at hvar
              rw [touches, hvar, hvalue]
              exact ih h
      | _ => cases h

/-! ## References -/

mutual

/-- `var` is a key of references only. -/
def soleVar : Yaml → Bool
  | .sequence values => soleVarList values
  | .mapping entries =>
    (!containsKey entries "var" || (Yaml.mapping entries).isVarRef) && soleVarEntries entries
  | .tagged _ value => soleVar value
  | _ => true

def soleVarList : List Yaml → Bool
  | [] => true
  | value :: values => soleVar value && soleVarList values

def soleVarEntries : List (Yaml × Yaml) → Bool
  | [] => true
  | (key, value) :: entries => soleVar key && soleVar value && soleVarEntries entries

end

theorem soleVar_mapping : (Yaml.mapping entries).soleVar = true ↔
    (Yaml.string "var" ∈ entries.map Prod.fst → (Yaml.mapping entries).isVarRef = true) ∧
      (∀ key ∈ entries.map Prod.fst, key.soleVar = true) ∧ ∀ e ∈ entries, e.2.soleVar = true := by
  have hkey : containsKey entries "var" = true ↔ Yaml.string "var" ∈ entries.map Prod.fst := by
    simp [containsKey]
  rw [soleVar, Bool.and_eq_true, Bool.or_eq_true, Bool.not_eq_true', ← Bool.not_eq_true, hkey,
    ← imp_iff_not_or]
  refine and_congr_right' ?_
  clear hkey
  induction entries with
  | nil => simp [soleVarEntries]
  | cons e entries ih =>
      rw [soleVarEntries, Bool.and_eq_true, Bool.and_eq_true, ih, List.map_cons, List.forall_mem_cons,
        List.forall_mem_cons]
      tauto

/-- A reference gains no siblings, and leaves no remnants. -/
theorem soleVar_merge {base overlay : Yaml} (hbase : base.soleVar = true)
    (hoverlay : overlay.soleVar = true) : (base.merge overlay).soleVar = true := by
  induction overlay using mapping_induction generalizing base with
  | leaf overlay hleaf =>
      rw [merge_of_not_mapping hleaf]
      split
      · exact hbase
      · exact hoverlay
  | mapping overlay ih =>
      rcases merge_cases base (.mapping overlay) with hnull | ⟨hnull, hreplaces⟩ |
        ⟨entries, entries', rfl, heq, hvar, hvar'⟩
      · cases hnull
      · rw [merge_replaces hnull hreplaces]
        exact hoverlay
      · cases heq
        rw [merge_mapping hvar hvar']
        rw [soleVar_mapping] at hbase hoverlay ⊢
        refine ⟨fun hmem => ?_, fun key hkey => ?_, ?_⟩
        · -- neither side has the key
          rcases mem_keys_mergeEntries.1 hmem with hmem | hmem
          · exact absurd (hbase.1 hmem) (by simp [hvar])
          · exact absurd (hoverlay.1 hmem) (by simp [hvar'])
        · rcases mem_keys_mergeEntries.1 hkey with hkey | hkey
          · exact hbase.2.1 key hkey
          · exact hoverlay.2.1 key hkey
        · exact forall_mem_mergeEntries (P := fun value => value.soleVar = true) hbase.2.2
            hoverlay.2.2 fun e he old hold => ih e he hold (hoverlay.2.2 e he)

/-- `merge_yaml` is a lawful overlay. -/
theorem merge_lawful (base overlay : Document) :
    (base.merge overlay).merge overlay = base.merge overlay ∧
    (∀ path value, overlay.value.valueAt path = some value → value.isLeaf = true →
      (base.merge overlay).value.valueAt path = some value) ∧
    (∀ path value, base.value.valueAt path = some value → overlay.value.touches path = false →
      (base.merge overlay).value.valueAt path = some value) ∧
    (∀ path value, base.value.valueAt path = some value → overlay.value.valueAt path = some .null →
      (base.merge overlay).value.valueAt path = some value) ∧
    (base.value.soleVar = true → overlay.value.soleVar = true →
      (base.merge overlay).value.soleVar = true) := by
  refine ⟨?_, fun path value hvalue hleaf => ?_, fun path value hvalue htouches => ?_,
    fun path value hvalue hnull => ?_, soleVar_merge⟩
  · have hmerge := merge_merge base.distinctKeys overlay.distinctKeys
    simp only [Document.merge, hmerge]
  · exact valueAt_merge_of_leaf base.distinctKeys overlay.distinctKeys hvalue hleaf
  · exact valueAt_merge_of_not_touches base.distinctKeys overlay.distinctKeys hvalue htouches
  · exact valueAt_merge_of_not_touches base.distinctKeys overlay.distinctKeys hvalue
      (not_touches_of_null hnull)

namespace OverlaySample

def key (name : String) : Yaml := .string name

/-- `{ from: { pool: users, select: { index: 0 } }, value: 1 }` -/
def template : Document where
  value := .mapping [(key "from", .mapping [(key "pool", .string "users"),
    (key "select", .mapping [(key "index", .number (.int 0))])]), (key "value", .number (.int 1))]
  distinctKeys := by decide

/-- `{ from: { var: claim.from }, value: null }` -/
def step : Document where
  value := .mapping [(key "from", .mapping [(key "var", .string "claim.from")]), (key "value", .null)]
  distinctKeys := by decide

end OverlaySample

theorem merge_lawful_sample :
    (OverlaySample.template.merge OverlaySample.step).value.valueAt [OverlaySample.key "from"] =
        some (.mapping [(.string "var", .string "claim.from")]) ∧
      (OverlaySample.template.merge OverlaySample.step).value.valueAt [OverlaySample.key "value"] =
        some (.number (.int 1)) ∧
      (OverlaySample.step.merge OverlaySample.template).value.valueAt [OverlaySample.key "value"] =
        some (.number (.int 1)) ∧
      (OverlaySample.template.merge ⟨.mapping [], rfl⟩).value.valueAt
        [OverlaySample.key "from", OverlaySample.key "pool"] = some (.string "users") ∧
      (OverlaySample.template.merge OverlaySample.step).value.soleVar = true := by
  obtain ⟨-, hleaves, -, hnulls, hvar⟩ := merge_lawful OverlaySample.template OverlaySample.step
  obtain ⟨-, hleaves', -⟩ := merge_lawful OverlaySample.step OverlaySample.template
  obtain ⟨-, -, htouches, -⟩ := merge_lawful OverlaySample.template ⟨.mapping [], rfl⟩
  exact ⟨hleaves _ _ (by decide) (by decide), hnulls _ _ (by decide) (by decide),
    hleaves' _ _ (by decide) (by decide), htouches _ _ (by decide) (by decide),
    hvar (by decide) (by decide)⟩

end Yaml

end TxGen
