import TxGen.Scenario.Paths

set_option autoImplicit false

/-! # Saved values

`with_path` takes a namespace and a saved object for the same thing: a save below an object goes into
the object. Apart from that a context only grows, and holds what was saved. -/

namespace TxGen

/-- A value under its path, as it is handed to `with_path`. -/
abbrev SavedValue := String × RuntimeValue

namespace RuntimeValue

/-- The value is an object that has nothing at the path, and only objects on the way to it. -/
def Room (value : RuntimeValue) (path : List String) : Prop :=
  ∃ fields, value = .object fields ∧ nested.find path fields = none ∧
    ∀ q w, q <+: path → nested.find q fields = some w → ∃ values, w = .object values

theorem fields_isSome {value : RuntimeValue} :
    (nested.fields value).isSome = true ↔ ∃ values, value = .object values := by
  cases value <;> simp [nested]

end RuntimeValue

namespace RuntimeContext

open RuntimeValue

/-- The save continues a path that holds an object with room for it. -/
def Enters (held : List SavedValue) (path : String) : Prop :=
  validateVariablePath path = .ok () ∧ ∃ e ∈ held, ∃ rest, rest ≠ [] ∧
    components path = components e.1 ++ rest ∧ e.2.Room rest

/-- The path is well formed, and neither equals, continues nor is continued by one that holds a value. -/
def Admits (held : List SavedValue) (path : String) : Prop :=
  validateVariablePath path = .ok () ∧ ∀ e ∈ held, path ≠ e.1 ∧
    startsWith path (e.1 ++ ".") = false ∧ startsWith e.1 (path ++ ".") = false

theorem admits_iff {held : List SavedValue} {path : String} : Admits held path ↔
    validateVariablePath path = .ok () ∧ ∀ e ∈ held, Apart (components path) (components e.1) := by
  simp only [Admits, apart_iff]

/-- Save the values one after the other. -/
def withPaths (ctx : RuntimeContext) (saves : List SavedValue) : Except Report RuntimeContext :=
  saves.foldlM (fun ctx save => ctx.withPath save.1 save.2) ctx

theorem withPaths_cons {ctx last : RuntimeContext} {save : SavedValue} {saves : List SavedValue} :
    ctx.withPaths (save :: saves) = .ok last ↔
      ∃ next, ctx.withPath save.1 save.2 = .ok next ∧ next.withPaths saves = .ok last :=
  bind_eq_ok

/-- The context holds the values and nothing else but the namespaces of their paths. -/
structure Holds (ctx : RuntimeContext) (held : List SavedValue) : Prop where
  wellFormed : ∀ e ∈ held, validateVariablePath e.1 = .ok ()
  found : ∀ e ∈ held, nested.find (components e.1) ctx.roots = some e.2
  complete : ∀ p w, nested.find p ctx.roots = some w →
    (∃ e ∈ held, components e.1 <+: p) ∨
      (p ≠ [] ∧ (nested.fields w).isSome = true ∧ ∃ e ∈ held, p <+: components e.1)

variable {ctx next last : RuntimeContext} {held saves : List SavedValue} {path : String}
  {value : RuntimeValue}

theorem get_found (hpath : validateVariablePath path = .ok ())
    (h : nested.find (components path) ctx.roots = some value) : ctx.get path = .ok value := by
  have hsplit : components path = components path ++ [] := (List.append_nil _).symm
  exact get_of_find hpath hsplit h

theorem Holds.get (h : Holds ctx held) {e : SavedValue} (he : e ∈ held) : ctx.get e.1 = .ok e.2 :=
  get_found (h.wellFormed e he) (h.found e he)

theorem withPath_isOk : (∃ next, ctx.withPath path value = .ok next) ↔
    validateVariablePath path = .ok () ∧
      (nested.insertPath (components path) value ctx.roots).isSome = true := by
  constructor
  · rintro ⟨next, hnext⟩
    obtain ⟨hpath, hinsert⟩ := withPath_eq_ok.1 hnext
    exact ⟨hpath, Option.isSome_iff_exists.2 ⟨_, hinsert⟩⟩
  · rintro ⟨hpath, hsome⟩
    obtain ⟨roots, hroots⟩ := Option.isSome_iff_exists.1 hsome
    exact ⟨⟨roots⟩, withPath_eq_ok.2 ⟨hpath, hroots⟩⟩

/-- What a path holds has room for the rest of a path exactly if that path is free. -/
theorem Holds.room_iff (h : Holds ctx held) (value : RuntimeValue) {e : SavedValue} (he : e ∈ held) {rest : List String}
    (hrest : rest ≠ []) : e.2.Room rest ↔
      (nested.insertPath (components e.1 ++ rest) value ctx.roots).isSome = true := by
  obtain ⟨k, rest, rfl⟩ := List.exists_cons_of_ne_nil hrest
  have hfound := h.found e he
  have hbelow : ∀ (k : String) (q : List String), nested.find (components e.1 ++ k :: q) ctx.roots =
      (nested.fields e.2).bind (nested.find (k :: q)) := by
    intro k q
    rw [Nested.find_append (components_ne_nil _), hfound, Option.bind_some]
  rw [Nested.isSome_insertPath_iff]
  constructor
  · rintro ⟨fields, hvalue, hnone, hway⟩
    have hfields : nested.fields e.2 = some fields := by rw [hvalue]; rfl
    refine ⟨by simp, by rw [hbelow, hfields]; exact hnone, fun q w hq hw => ?_⟩
    rcases List.prefix_or_prefix_of_prefix hq (List.prefix_append _ _) with hq | ⟨r, rfl⟩
    · by_cases hsame : q = components e.1
      · rw [hsame, hfound] at hw
        rw [← Option.some.inj hw, hfields]
        rfl
      · have hnil : q ≠ [] := by
          rintro rfl
          cases hw
        obtain ⟨w', hw', hmap⟩ := Nested.find_of_prefix hfound hq hsame hnil
        rwa [← Option.some.inj (hw'.symm.trans hw)]
    · have hr := (List.prefix_append_right_inj _).1 hq
      cases r with
      | nil =>
          rw [List.append_nil, hfound] at hw
          rw [← Option.some.inj hw, hfields]
          rfl
      | cons j r =>
          rw [hbelow, hfields] at hw
          exact fields_isSome.2 (hway _ w hr hw)
  · rintro ⟨-, hnone, hway⟩
    obtain ⟨fields, hvalue⟩ := fields_isSome.1 (hway _ e.2 (List.prefix_append _ _) hfound)
    have hfields : nested.fields e.2 = some fields := by rw [hvalue]; rfl
    refine ⟨fields, hvalue, ?_, fun q w hq hw => ?_⟩
    · rwa [hbelow, hfields] at hnone
    · cases q with
      | nil => cases hw
      | cons j q =>
          refine fields_isSome.1 (hway (components e.1 ++ j :: q) w ?_ ?_)
          · exact (List.prefix_append_right_inj _).2 hq
          · rw [hbelow, hfields]
            exact hw

/-- A save succeeds where it collides with nothing, and where it enters an object. -/
theorem Holds.withPath_isOk_iff (h : Holds ctx held) :
    (∃ next, ctx.withPath path value = .ok next) ↔ Admits held path ∨ Enters held path := by
  rw [withPath_isOk, admits_iff]
  constructor
  · rintro ⟨hpath, hfree⟩
    by_cases hbelow : ∃ e ∈ held, components e.1 <+: components path
    · obtain ⟨e, he, rest, hrest⟩ := hbelow
      have hne : rest ≠ [] := by
        rintro rfl
        have hnone := (Nested.isSome_insertPath_iff.1 hfree).2.1
        rw [← hrest, List.append_nil, h.found e he] at hnone
        cases hnone
      refine Or.inr ⟨hpath, e, he, rest, hne, hrest.symm, ?_⟩
      rw [h.room_iff value he hne, hrest]
      exact hfree
    · refine Or.inl ⟨hpath, fun e he => ⟨fun habove => ?_, fun hle => hbelow ⟨e, he, hle⟩⟩⟩
      by_cases hsame : components path = components e.1
      · exact hbelow ⟨e, he, hsame ▸ List.prefix_refl _⟩
      · obtain ⟨w, hw, -⟩ :=
          Nested.find_of_prefix (h.found e he) habove hsame (components_ne_nil _)
        rw [(Nested.isSome_insertPath_iff.1 hfree).2.1] at hw
        cases hw
  · rintro (⟨hpath, hapart⟩ | ⟨hpath, e, he, rest, hne, hrest, hroom⟩)
    · refine ⟨hpath, Nested.isSome_insertPath_iff.2 ⟨components_ne_nil _, ?_, fun q w hq hw => ?_⟩⟩
      · by_contra hsome
        obtain ⟨w, hw⟩ := Option.ne_none_iff_exists'.1 hsome
        rcases h.complete _ w hw with ⟨e, he, hbelow⟩ | ⟨-, -, e, he, habove⟩
        · exact (hapart e he).2 hbelow
        · exact (hapart e he).1 habove
      · rcases h.complete q w hw with ⟨e, he, hbelow⟩ | ⟨-, hmap, -⟩
        · exact absurd (hbelow.trans hq) (hapart e he).2
        · exact hmap
    · exact ⟨hpath, hrest ▸ (h.room_iff value he hne).1 hroom⟩

/-- A save that does not enter an object leaves everything else as it was. -/
theorem Holds.save (h : Holds ctx held) (hout : ¬ Enters held path)
    (hsave : ctx.withPath path value = .ok next) : Holds next (held ++ [(path, value)]) := by
  have hadmits := (h.withPath_isOk_iff.1 ⟨next, hsave⟩).resolve_right hout
  obtain ⟨hpath, hinsert⟩ := withPath_eq_ok.1 hsave
  refine ⟨?_, ?_, fun p w hw => ?_⟩
  · exact List.forall_mem_append.2 ⟨h.wellFormed, List.forall_mem_singleton.2 hpath⟩
  · refine List.forall_mem_append.2 ⟨fun e he => ?_, List.forall_mem_singleton.2 ?_⟩
    · exact Nested.find_insertPath_apart ((admits_iff.1 hadmits).2 e he) hinsert (h.found e he)
    · exact Nested.find_insertPath_self hinsert
  · have hnil : p ≠ [] := by
      rintro rfl
      cases hw
    rcases Nested.find_of_insertPath hinsert hw with hold | hbelow | ⟨habove, hmap⟩
    · rcases h.complete p w hold with ⟨e, he, hbelow⟩ | ⟨-, hmap, e, he, habove⟩
      · exact Or.inl ⟨e, List.mem_append_left _ he, hbelow⟩
      · exact Or.inr ⟨hnil, hmap, e, List.mem_append_left _ he, habove⟩
    · exact Or.inl ⟨_, List.mem_append_right _ (List.mem_singleton_self _), hbelow⟩
    · exact Or.inr ⟨hnil, hmap, _, List.mem_append_right _ (List.mem_singleton_self _), habove⟩

theorem validateComponent_ok {name context : String} (h : validateComponent name context = .ok ()) :
    validateVariablePath name = .ok () ∧ components name = [name] := by
  simp only [validateComponent, validateName, bind_eq_ok, bailIf_eq_ok] at h
  obtain ⟨-, hblank, hdot⟩ := h
  have hcomponents := components_eq_singleton hdot
  refine ⟨?_, hcomponents⟩
  simp only [validateVariablePath, validatePath, validateName, bind_eq_ok, bailIf_eq_ok, hcomponents,
    List.mem_singleton]
  refine ⟨(), hblank, ?_⟩
  rintro rfl
  exact hblank (by decide)

/-- An instance starts with its bindings. -/
theorem holds_new {bindings : List SavedValue} (h : new (OrdMap.ofList bindings) = .ok ctx) :
    Holds ctx (OrdMap.ofList bindings) := by
  obtain ⟨⟨⟩, hnames, hctx⟩ := bind_eq_ok.1 h
  obtain rfl := Except.ok.inj hctx
  have hname := fun e he => validateComponent_ok (Fallible.forM_ok.1 hnames e he)
  have hnodup : ((OrdMap.ofList bindings).map Prod.fst).Nodup :=
    (OrdMap.sorted_ofList bindings).imp fun hlt => hlt.ne
  refine ⟨fun e he => (hname e he).1, fun e he => ?_, fun p w hw => Or.inl ?_⟩
  · rw [(hname e he).2]
    exact OrdMap.get?_of_mem hnodup he
  · cases p with
    | nil => cases hw
    | cons k p =>
        obtain ⟨v, hv⟩ : ∃ v, OrdMap.get? k (OrdMap.ofList bindings) = some v := by
          cases p with
          | nil => exact ⟨w, hw⟩
          | cons l p => exact ⟨_, (Option.bind_eq_some_iff.1 hw).choose_spec.1⟩
        have hmem := OrdMap.mem_of_get? hv
        refine ⟨_, hmem, ?_⟩
        rw [(hname _ hmem).2]
        exact List.cons_prefix_cons.2 ⟨rfl, List.nil_prefix⟩

/-! ## Runs -/

/-- No save enters an object that was there before it. -/
def NoneEnters (held saves : List SavedValue) : Prop :=
  ∀ (i : ℕ) (save : SavedValue), saves[i]? = some save → ¬ Enters (held ++ saves.take i) save.1

theorem noneEnters_cons {save : SavedValue} : NoneEnters held (save :: saves) ↔
    ¬ Enters held save.1 ∧ NoneEnters (held ++ [save]) saves := by
  constructor
  · intro h
    refine ⟨by simpa using h 0 save rfl, fun i e he => ?_⟩
    simpa using h (i + 1) e he
  · rintro ⟨hfirst, hrest⟩ i e he
    cases i with
    | zero =>
        obtain rfl := Option.some.inj he
        simpa using hfirst
    | succ i => simpa using hrest i e he

theorem Holds.run (h : Holds ctx held) (hrun : ctx.withPaths saves = .ok last)
    (hout : NoneEnters held saves) : Holds last (held ++ saves) := by
  induction saves generalizing ctx held with
  | nil =>
      obtain rfl := Except.ok.inj hrun
      rwa [List.append_nil]
  | cons save saves ih =>
      obtain ⟨next, hnext, hrest⟩ := withPaths_cons.1 hrun
      obtain ⟨hfirst, hout⟩ := noneEnters_cons.1 hout
      have hlast := ih (h.save hfirst hnext) hrest hout
      rwa [List.append_assoc] at hlast

theorem isSome_find_withPaths {p : List String} (hrun : ctx.withPaths saves = .ok last)
    (h : (nested.find p ctx.roots).isSome = true) : (nested.find p last.roots).isSome = true := by
  induction saves generalizing ctx with
  | nil =>
      obtain rfl := Except.ok.inj hrun
      exact h
  | cons save saves ih =>
      obtain ⟨next, hnext, hrest⟩ := withPaths_cons.1 hrun
      exact ih hrest (Nested.isSome_find_insertPath (withPath_eq_ok.1 hnext).2 h)

/-- The object that a save enters is not what was saved any more, whatever comes after it. -/
theorem Holds.get_ne_of_enters (h : Holds ctx held) (hsave : ctx.withPath path value = .ok next)
    (hrun : next.withPaths saves = .ok last) (henters : Enters held path) :
    ∃ e ∈ held, last.get e.1 ≠ .ok e.2 := by
  obtain ⟨-, e, he, rest, hne, hpath, fields, hvalue, hnone, -⟩ := henters
  have hinsert := (withPath_eq_ok.1 hsave).2
  refine ⟨e, he, fun hget => ?_⟩
  have hstays : (nested.find (components e.1) last.roots).isSome = true :=
    isSome_find_withPaths hrun (Nested.isSome_find_insertPath hinsert (by rw [h.found e he]; rfl))
  obtain ⟨w, hw⟩ := Option.isSome_iff_exists.1 hstays
  obtain rfl : w = e.2 := by
    have hgot := get_found (h.wellFormed e he) hw
    exact Except.ok.inj (hgot.symm.trans hget)
  have hnew : (nested.find (components path) last.roots).isSome = true :=
    isSome_find_withPaths hrun (by rw [Nested.find_insertPath_self hinsert]; rfl)
  obtain ⟨k, rest, rfl⟩ := List.exists_cons_of_ne_nil hne
  rw [hpath, Nested.find_append (components_ne_nil _), hw, Option.bind_some, hvalue] at hnew
  rw [show nested.fields (.object fields) = some fields from rfl, Option.bind_some, hnone] at hnew
  cases hnew

theorem Holds.noneEnters (h : Holds ctx held) (hrun : ctx.withPaths saves = .ok last)
    (hget : ∀ e ∈ held ++ saves, last.get e.1 = .ok e.2) : NoneEnters held saves := by
  induction saves generalizing ctx held with
  | nil => exact nofun
  | cons save saves ih =>
      obtain ⟨next, hnext, hrest⟩ := withPaths_cons.1 hrun
      have hfirst : ¬ Enters held save.1 := by
        intro henters
        obtain ⟨e, he, hne⟩ := h.get_ne_of_enters hnext hrest henters
        exact hne (hget e (List.mem_append_left _ he))
      refine noneEnters_cons.2 ⟨hfirst, ih (h.save hfirst hnext) hrest fun e he => hget e ?_⟩
      rwa [List.append_assoc] at he

/-- Every saved value stays exactly if no save entered an object; a further save then succeeds exactly
    if it collides with nothing, unless it enters an object. -/
theorem saved_values_stay_iff {bindings : List SavedValue}
    (hnew : new (OrdMap.ofList bindings) = .ok ctx) (hrun : ctx.withPaths saves = .ok last) :
    (NoneEnters (OrdMap.ofList bindings) saves ↔
      ∀ e ∈ OrdMap.ofList bindings ++ saves, last.get e.1 = .ok e.2) ∧
    (NoneEnters (OrdMap.ofList bindings) saves → ∀ path value,
      (((∃ next, last.withPath path value = .ok next) ↔
          Admits (OrdMap.ofList bindings ++ saves) path) ↔
        ¬ Enters (OrdMap.ofList bindings ++ saves) path)) := by
  have hholds := holds_new hnew
  refine ⟨⟨fun hout e he => (hholds.run hrun hout).get he, hholds.noneEnters hrun⟩,
    fun hout path value => ?_⟩
  rw [(hholds.run hrun hout).withPath_isOk_iff]
  constructor
  · -- what is entered is continued, so that the path collides with it
    rintro hlaw henters
    obtain ⟨-, e, he, rest, -, hpath, -⟩ := id henters
    refine ((admits_iff.1 (hlaw.1 (Or.inr henters))).2 e he).2 ?_
    rw [hpath]
    exact List.prefix_append _ _
  · intro hout'
    exact or_iff_left hout'

theorem saved_values_stay_sample : ∃ ctx last : RuntimeContext,
    new (OrdMap.ofList [("user", .null)]) = .ok ctx ∧
    ctx.withPaths [("transfer.receipt", .bool true)] = .ok last ∧
    (NoneEnters (OrdMap.ofList [("user", .null)]) [("transfer.receipt", .bool true)] ↔
      ∀ e ∈ OrdMap.ofList [("user", .null)] ++ [("transfer.receipt", .bool true)],
        last.get e.1 = .ok e.2) := by
  have hnew : new (OrdMap.ofList [("user", .null)]) = .ok ⟨[("user", .null)]⟩ := rfl
  have hrun : withPaths ⟨[("user", .null)]⟩ [("transfer.receipt", .bool true)] =
      .ok ⟨[("transfer", .object [("receipt", .bool true)]), ("user", .null)]⟩ := rfl
  exact ⟨_, _, hnew, hrun, (saved_values_stay_iff hnew hrun).1⟩

/-- A save goes into an object that was saved before. -/
theorem saved_object_changes : ∃ first second : RuntimeContext,
    ({} : RuntimeContext).withPath "transfer" (.object []) = .ok first ∧
    first.get "transfer" = .ok (.object []) ∧
    first.withPath "transfer.receipt" (.bool true) = .ok second ∧
    second.get "transfer" ≠ .ok (.object []) := by
  refine ⟨⟨[("transfer", .object [])]⟩, ⟨[("transfer", .object [("receipt", .bool true)])]⟩,
    rfl, rfl, rfl, fun h => ?_⟩
  have hget : get ⟨[("transfer", .object [("receipt", .bool true)])]⟩ "transfer" =
      .ok (.object [("receipt", .bool true)]) := rfl
  cases hget.symm.trans h

end RuntimeContext

end TxGen
