import TxGen.Scenario.Value

set_option autoImplicit false

/-! # Dotted paths

A dotted path is the list of its components: a dot between two paths appends the lists, so that one
path continues another exactly if the components of the one are the first components of the other.
With that, saving and resolving are the operations on nested maps (`Nested`). -/

namespace TxGen

/-- `strip_prefix` -/
def stripPrefix (s start : String) : Option String :=
  if start.toList <+: s.toList then some (String.ofList (s.toList.drop start.toList.length)) else none

def startsWith (s start : String) : Bool := start.toList.isPrefixOf s.toList

theorem stripPrefix_eq_some {s start rest : String} :
    stripPrefix s start = some rest ↔ s = start ++ rest := by
  unfold stripPrefix
  constructor
  · intro h
    split at h
    · rename_i hpre
      obtain ⟨t, ht⟩ := hpre
      obtain rfl := Option.some.inj h
      rw [← String.toList_inj, String.toList_append, String.toList_ofList, ← ht,
        List.drop_left]
    · cases h
  · rintro rfl
    rw [if_pos (by rw [String.toList_append]; exact List.prefix_append _ _), String.toList_append,
      List.drop_left, String.ofList_toList]

theorem startsWith_iff {s start : String} : startsWith s start = true ↔ ∃ t, s = start ++ t := by
  rw [startsWith, List.isPrefixOf_iff_prefix]
  constructor
  · rintro ⟨t, ht⟩
    exact ⟨String.ofList t, by rw [← String.toList_inj, String.toList_append, String.toList_ofList, ht]⟩
  · rintro ⟨t, rfl⟩
    rw [String.toList_append]
    exact List.prefix_append _ _

/-! ## Components -/

theorem components_ne_nil (p : String) : components p ≠ [] := by
  simp [components]

/-- A dot between two paths appends their components. -/
theorem components_dot (q t : String) :
    components (q ++ "." ++ t) = components q ++ components t := by
  have hlist : (q ++ "." ++ t).toList = q.toList ++ '.' :: t.toList := by simp
  rw [components, hlist, List.splitOn_append_cons_self, List.map_append]
  rfl

theorem components_eq_singleton {name : String} (h : '.' ∉ name.toList) :
    components name = [name] := by
  rw [components, List.splitOn_eq_singleton h]
  simp

/-- The path with the given components. -/
theorem intercalate_components (p : String) :
    p.toList = ['.'].intercalate ((components p).map String.toList) := by
  have hmap : (components p).map String.toList = p.toList.splitOn '.' := by
    simp [components]
  rw [hmap, List.intercalate_splitOn]

theorem components_inj {p q : String} (h : components p = components q) : p = q := by
  rw [← String.toList_inj, intercalate_components p, intercalate_components q, h]

theorem pathRoot_components (p : String) : (components p).head? = some (pathRoot p) := by
  have hgo : ∀ cs : List Char, (cs.splitOn '.').head? = some (cs.takeWhile (· ≠ '.')) := by
    intro cs
    induction cs with
    | nil => rfl
    | cons c cs ih =>
        rw [List.splitOn_cons_eq_if_modifyHead]
        by_cases hc : c = '.'
        · simp [hc]
        · simp [hc, ih]
  rw [components, List.head?_map, hgo, pathRoot]
  rfl

/-- A path whose components begin with those of another continues it. -/
theorem eq_or_dot_of_prefix {p q : String} (h : components q <+: components p) :
    p = q ∨ ∃ t, p = q ++ "." ++ t := by
  obtain ⟨rest, hrest⟩ := h
  cases rest with
  | nil => exact Or.inl (components_inj (by rw [← hrest, List.append_nil]))
  | cons c rest =>
      have happend : ∀ (xs : List (List Char)) (y : List Char) (ys : List (List Char)), xs ≠ [] →
          ['.'].intercalate (xs ++ y :: ys) =
            ['.'].intercalate xs ++ '.' :: ['.'].intercalate (y :: ys) := by
        intro xs y ys hxs
        induction xs with
        | nil => exact absurd rfl hxs
        | cons x xs ih =>
            cases xs with
            | nil => simp
            | cons x' xs =>
                have := ih (by simp)
                simp only [List.cons_append, List.intercalate_cons_cons] at this ⊢
                simp [this]
      refine Or.inr ⟨String.ofList (['.'].intercalate ((c :: rest).map String.toList)), ?_⟩
      rw [← String.toList_inj, intercalate_components p, ← hrest, List.map_append, List.map_cons,
        happend _ _ _ (by simp [components_ne_nil]), ← intercalate_components q]
      simp

theorem prefix_iff {p q : String} :
    components q <+: components p ↔ p = q ∨ startsWith p (q ++ ".") = true := by
  rw [startsWith_iff]
  constructor
  · exact eq_or_dot_of_prefix
  · rintro (rfl | ⟨t, rfl⟩)
    · exact List.prefix_refl _
    · rw [components_dot]
      exact List.prefix_append _ _

/-- Two paths are apart if they differ and neither continues the other. -/
theorem apart_iff {p q : String} : Apart (components p) (components q) ↔
    p ≠ q ∧ startsWith p (q ++ ".") = false ∧ startsWith q (p ++ ".") = false := by
  rw [Apart, prefix_iff, prefix_iff]
  constructor
  · rintro ⟨hqp, hpq⟩
    rw [not_or] at hqp hpq
    exact ⟨hpq.1, by simpa using hpq.2, by simpa using hqp.2⟩
  · rintro ⟨hne, hpq, hqp⟩
    simp [hne, Ne.symm hne, hpq, hqp]

/-! ## Saving and resolving -/

theorem children_nested (name : String) (m : List (String × RuntimeValue)) :
    RuntimeValue.nested.children name m =
      RuntimeValue.nested.fields ((OrdMap.get? name m).getD (.object [])) := by
  rw [Nested.children]
  cases OrdMap.get? name m <;> rfl

/-- Saving stores the value in the nested maps. -/
theorem insertRuntimePath_eq_ok {full : String} {value : RuntimeValue} {parts : List String}
    (hparts : parts ≠ []) {depth : ℕ} {m m' : List (String × RuntimeValue)} :
    insertRuntimePath full value parts depth m = .ok m' ↔
      RuntimeValue.nested.insertPath parts value m = some m' := by
  induction parts generalizing depth m m' with
  | nil => exact absurd rfl hparts
  | cons name parts ih =>
      cases parts with
      | nil =>
          rw [insertRuntimePath, Nested.insertPath]
          split <;> simp
      | cons next parts =>
          rw [insertRuntimePath, Nested.insertPath, children_nested]
          cases hold : (OrdMap.get? name m).getD (.object []) with
          | object children =>
              show (_ >>= _) = _ ↔ Option.bind (some children) _ = _
              rw [Option.bind_some, bind_eq_ok, Option.map_eq_some_iff]
              refine exists_congr fun c => ?_
              rw [ih (List.cons_ne_nil _ _)]
              refine and_congr_right fun _ => ?_
              exact ⟨fun h => Except.ok.inj h, fun h => congrArg Except.ok h⟩
          | _ => simp [RuntimeValue.nested]

/-- Resolving a path below a value that is found goes on from there. -/
theorem walk_of_find {path : String} {p rest : List String} {m : List (String × RuntimeValue)}
    {v : RuntimeValue} (h : RuntimeValue.nested.find p m = some v) :
    ∃ root tail w, p = root :: tail ∧ OrdMap.get? root m = some w ∧
      w.walk path (tail ++ rest) = v.walk path rest := by
  induction p generalizing m with
  | nil => cases h
  | cons root p ih =>
      cases p with
      | nil => exact ⟨root, [], v, rfl, h, rfl⟩
      | cons next p =>
          obtain ⟨w, hw, hrest⟩ := Option.bind_eq_some_iff.1 h
          obtain ⟨fields, hfields, hfind⟩ := Option.bind_eq_some_iff.1 hrest
          obtain ⟨_, _, w', hp, hw', hwalk⟩ := ih hfind
          obtain ⟨rfl, rfl⟩ := List.cons.inj hp
          refine ⟨root, next :: p, w, rfl, hw, ?_⟩
          cases w with
          | object values =>
              obtain rfl := Option.some.inj hfields
              rw [List.cons_append, RuntimeValue.walk, hw']
              exact hwalk
          | _ => cases hfields

namespace RuntimeContext

theorem withPath_eq_ok {ctx next : RuntimeContext} {path : String} {value : RuntimeValue} :
    ctx.withPath path value = .ok next ↔ validateVariablePath path = .ok () ∧
      RuntimeValue.nested.insertPath (components path) value ctx.roots = some next.roots := by
  unfold withPath
  rw [bind_eq_ok]
  simp only [bind_eq_ok, insertRuntimePath_eq_ok (components_ne_nil path)]
  constructor
  · rintro ⟨⟨⟩, hpath, roots, hroots, hnext⟩
    obtain rfl := Except.ok.inj hnext
    exact ⟨hpath, hroots⟩
  · rintro ⟨hpath, hroots⟩
    exact ⟨(), hpath, next.roots, hroots, rfl⟩

/-- A path at or below a value that is found resolves from there. -/
theorem get_of_find {ctx : RuntimeContext} {path q : String} {rest : List String} {v : RuntimeValue}
    (hpath : validateVariablePath path = .ok ()) (hcomp : components path = components q ++ rest)
    (h : RuntimeValue.nested.find (components q) ctx.roots = some v) :
    ctx.get path = v.walk path rest := by
  obtain ⟨root, tail, w, hq, hw, hwalk⟩ := @walk_of_find path (components q) rest _ _ h
  unfold get
  rw [hpath, hcomp, hq, List.cons_append]
  simp only [hw]
  exact hwalk

end RuntimeContext

end TxGen
