import TxGen.Scenario.Saves
import TxGen.Scenario.Results

set_option autoImplicit false

/-! # The context of an instance

An instance starts with a context of its bindings, and every step that succeeds adds its save. With the
names of an accepted scenario that never fails, and the context depends on which steps have succeeded and
not on the order in which they did. -/

namespace TxGen

namespace RuntimeContext

variable {ctx ctx₁ ctx₂ next : RuntimeContext} {held held₁ held₂ : List SavedValue}

/-- A save that collides with nothing succeeds, and everything else stays. -/
theorem Holds.extend (h : Holds ctx held) {path : String} (hadmits : Admits held path)
    (value : RuntimeValue) :
    ∃ next, ctx.withPath path value = .ok next ∧ Holds next (held ++ [(path, value)]) := by
  have hok : ∃ next, ctx.withPath path value = .ok next := h.withPath_isOk_iff.2 (Or.inl hadmits)
  obtain ⟨next, hnext⟩ := hok
  refine ⟨next, hnext, h.save ?_ hnext⟩
  -- what is entered is continued, so that the path collides with it
  rintro ⟨-, e, he, rest, -, hpath, -⟩
  refine ((admits_iff.1 hadmits).2 e he).2 ?_
  rw [hpath]
  exact List.prefix_append _ _

/-- Paths that are well formed and apart from each other. -/
def PathsApart (held : List SavedValue) : Prop :=
  (∀ e ∈ held, validateVariablePath e.1 = .ok ()) ∧
    held.Pairwise fun x y => Apart (components x.1) (components y.1)

theorem PathsApart.of_append {xs ys : List SavedValue} (h : PathsApart (xs ++ ys)) : PathsApart xs :=
  ⟨fun e he => h.1 e (List.mem_append_left _ he), (List.pairwise_append.1 h.2).1⟩

/-- Values with paths apart from each other are saved one after the other. -/
theorem Holds.withPaths (h : Holds ctx held) {saves : List SavedValue}
    (hapart : PathsApart (held ++ saves)) :
    ∃ last, ctx.withPaths saves = .ok last ∧ Holds last (held ++ saves) := by
  induction saves generalizing ctx held with
  | nil => exact ⟨ctx, rfl, by rwa [List.append_nil]⟩
  | cons save saves ih =>
      have hadmits : Admits held save.1 := by
        refine admits_iff.2 ⟨hapart.1 save (by simp), fun e he => ?_⟩
        exact ((List.pairwise_append.1 hapart.2).2.2 e he save List.mem_cons_self).symm
      obtain ⟨next, hnext, hholds⟩ := h.extend hadmits save.2
      have happend : held ++ save :: saves = held ++ [save] ++ saves := by simp
      rw [happend] at hapart ⊢
      obtain ⟨last, hlast, hfinal⟩ := ih hholds hapart
      exact ⟨last, withPaths_cons.2 ⟨next, hnext, hlast⟩, hfinal⟩

theorem withPaths_iff {saves : List SavedValue} (h : ∀ e ∈ saves, validateVariablePath e.1 = .ok ()) :
    ctx.withPaths saves = .ok next ↔
      RuntimeValue.nested.insertAll (saves.map fun e => (components e.1, e.2)) ctx.roots =
        some next.roots := by
  induction saves generalizing ctx with
  | nil =>
      show Except.ok ctx = .ok next ↔ some ctx.roots = some next.roots
      rw [Except.ok.injEq, Option.some.injEq]
      constructor
      · rintro rfl
        rfl
      · intro hroots
        cases ctx
        cases next
        exact congrArg RuntimeContext.mk hroots
  | cons save saves ih =>
      obtain ⟨hsave, hrest⟩ := List.forall_mem_cons.1 h
      have hinsert : RuntimeValue.nested.insertAll ((save :: saves).map fun e => (components e.1, e.2))
          ctx.roots = (RuntimeValue.nested.insertPath (components save.1) save.2 ctx.roots).bind
            (RuntimeValue.nested.insertAll (saves.map fun e => (components e.1, e.2))) := rfl
      rw [withPaths_cons, hinsert, Option.bind_eq_some_iff]
      constructor
      · rintro ⟨mid, hmid, hlast⟩
        exact ⟨mid.roots, (withPath_eq_ok.1 hmid).2, (ih hrest).1 hlast⟩
      · rintro ⟨roots, hroots, hlast⟩
        have hlast' : RuntimeValue.nested.insertAll (saves.map fun e => (components e.1, e.2))
            (RuntimeContext.mk roots).roots = some next.roots := hlast
        exact ⟨⟨roots⟩, withPath_eq_ok.2 ⟨hsave, hroots⟩, (ih hrest).2 hlast'⟩

/-- The order of the saves does not matter. -/
theorem withPaths_perm {xs ys : List SavedValue} (hperm : xs.Perm ys) (hapart : PathsApart xs) :
    ctx.withPaths xs = .ok next ↔ ctx.withPaths ys = .ok next := by
  rw [withPaths_iff hapart.1, withPaths_iff fun e he => hapart.1 e (hperm.mem_iff.2 he),
    Nested.insertAll_perm (hperm.map _) (List.pairwise_map.2 hapart.2)]

/-- What is at or below a value that both contexts hold resolves alike. -/
theorem get_same (h₁ : Holds ctx₁ held₁) (h₂ : Holds ctx₂ held₂) {e : SavedValue} (he₁ : e ∈ held₁)
    (he₂ : e ∈ held₂) {path : String} (hpath : validateVariablePath path = .ok ())
    (hbelow : components e.1 <+: components path) : ctx₁.get path = ctx₂.get path := by
  obtain ⟨rest, hrest⟩ := hbelow
  rw [get_of_find hpath hrest.symm (h₁.found e he₁), get_of_find hpath hrest.symm (h₂.found e he₂)]

end RuntimeContext

open RuntimeContext

/-! ## Bindings and saves -/

/-- What is selected or drawn for a binding: an account of its pool, and bytes. -/
structure BindingDraw where
  index : ℕ
  address : Address
  bytes : BitVec 256

def BindingDef.value (draw : BindingDraw) : BindingDef → RuntimeValue
  | .account pool _ => accountBindingValue pool draw.index draw.address
  | .bytes32 _ => .bytes32 draw.bytes

namespace ScenarioDef

variable (sc : ScenarioDef)

/-- The roots of `bind_instance`. -/
def bindRoots (draw : String → BindingDraw) : List SavedValue :=
  OrdMap.ofList (sc.bindings.map fun b => (b.1, b.2.value (draw b.1)))

/-- `bind_instance`, once the accounts are selected and leased. -/
def bindInstance (draw : String → BindingDraw) : Except Report RuntimeContext :=
  RuntimeContext.new (sc.bindRoots draw)

/-- What a step saves when it has succeeded. -/
def savedValue (x : ℕ × StepAnswer) : Option SavedValue := do
  let step ← sc.steps[x.1]?
  let save ← step.save
  return (save, x.2.value step.action.chain)

def savedValues (succeeded : List (ℕ × StepAnswer)) : List SavedValue := succeeded.filterMap sc.savedValue

variable {sc}

theorem savedValue_eq_some {x : ℕ × StepAnswer} {e : SavedValue} : sc.savedValue x = some e ↔
    ∃ step, sc.steps[x.1]? = some step ∧ step.save = some e.1 ∧
      e.2 = x.2.value step.action.chain := by
  simp only [savedValue, Option.bind_eq_bind, Option.bind_eq_some_iff, Option.pure_def,
    Option.some.injEq]
  constructor
  · rintro ⟨step, hstep, save, hsave, rfl⟩
    exact ⟨step, hstep, hsave, rfl⟩
  · rintro ⟨step, hstep, hsave, hvalue⟩
    exact ⟨step, hstep, e.1, hsave, by rw [← hvalue]⟩

theorem mem_savedValues {succeeded : List (ℕ × StepAnswer)} {e : SavedValue} :
    e ∈ sc.savedValues succeeded ↔ ∃ x ∈ succeeded, sc.savedValue x = some e :=
  List.mem_filterMap

/-- Every binding is a root. -/
theorem mem_bindRoots_names {draw : String → BindingDraw} {e : SavedValue} (h : e ∈ sc.bindRoots draw) :
    ∃ b ∈ sc.bindings, b.1 = e.1 := by
  obtain ⟨b, hb, rfl⟩ := List.mem_map.1 (OrdMap.mem_of_mem_ofList h)
  exact ⟨b, hb, rfl⟩

theorem exists_mem_bindRoots (draw : String → BindingDraw) {b : String × BindingDef}
    (hb : b ∈ sc.bindings) : ∃ e ∈ sc.bindRoots draw, e.1 = b.1 := by
  have hin : b.1 ∈ (sc.bindings.map fun b => (b.1, b.2.value (draw b.1))).reverse.map Prod.fst := by
    simp only [List.map_reverse, List.map_map, List.mem_reverse, List.mem_map]
    exact ⟨b, hb, rfl⟩
  obtain ⟨v, hv⟩ : ∃ v, OrdMap.get? b.1
      (sc.bindings.map fun b => (b.1, b.2.value (draw b.1))).reverse = some v :=
    Option.ne_none_iff_exists'.1 fun hnone => OrdMap.notMem_of_get? hnone hin
  refine ⟨(b.1, v), OrdMap.mem_of_get? ?_, rfl⟩
  rw [bindRoots, OrdMap.ofList, OrdMap.get?_foldl_set, hv]
  rfl

/-- The bindings and the saves of distinct steps are apart. -/
theorem NamesApart.pathsApart (h : sc.NamesApart) (draw : String → BindingDraw)
    {succeeded : List (ℕ × StepAnswer)} (hnodup : (succeeded.map Prod.fst).Nodup) :
    PathsApart (sc.bindRoots draw ++ sc.savedValues succeeded) := by
  have hbinding : ∀ e ∈ sc.bindRoots draw, validateVariablePath e.1 = .ok () ∧ components e.1 = [e.1] := by
    intro e he
    obtain ⟨b, hb, hname⟩ := mem_bindRoots_names he
    exact hname ▸ h.binding b hb
  have hsave : ∀ e ∈ sc.savedValues succeeded, validateVariablePath e.1 = .ok () ∧
      ∀ b ∈ sc.bindings, Apart (components e.1) (components b.1) := by
    intro e he
    obtain ⟨x, -, hx⟩ := mem_savedValues.1 he
    obtain ⟨step, hstep, hpath, -⟩ := savedValue_eq_some.1 hx
    exact h.save hstep hpath
  refine ⟨List.forall_mem_append.2 ⟨fun e he => (hbinding e he).1, fun e he => (hsave e he).1⟩,
    List.pairwise_append.2 ⟨?_, ?_, fun e he f hf => ?_⟩⟩
  · -- bindings have different names of one component
    have hsorted := List.pairwise_map.1 (OrdMap.sorted_ofList
      (sc.bindings.map fun b => (b.1, b.2.value (draw b.1))))
    refine hsorted.imp_of_mem fun {e f} he hf hlt => ?_
    rw [(hbinding e he).2, (hbinding f hf).2]
    exact Apart.of_head_ne hlt.ne [] []
  · refine List.Pairwise.filterMap _ ?_ (List.pairwise_map.1 hnodup)
    intro x y hne e he f hf
    obtain ⟨a, ha, hp, -⟩ := savedValue_eq_some.1 he
    obtain ⟨b, hb, hq, -⟩ := savedValue_eq_some.1 hf
    exact h.saves ha hb hne hp hq
  · obtain ⟨b, hb, hname⟩ := mem_bindRoots_names he
    rw [← hname]
    exact ((hsave f hf).2 b hb).symm

/-- The save of a step that has not succeeded yet collides with nothing. -/
theorem NamesApart.admits (h : sc.NamesApart) (draw : String → BindingDraw)
    {succeeded : List (ℕ × StepAnswer)} {i : ℕ} {step : StepDef} {save : String}
    (hstep : sc.steps[i]? = some step) (hsave : step.save = some save)
    (hnot : i ∉ succeeded.map Prod.fst) :
    Admits (sc.bindRoots draw ++ sc.savedValues succeeded) save := by
  obtain ⟨hpath, hbindings⟩ := h.save hstep hsave
  refine admits_iff.2 ⟨hpath, List.forall_mem_append.2 ⟨fun e he => ?_, fun e he => ?_⟩⟩
  · obtain ⟨b, hb, hname⟩ := mem_bindRoots_names he
    exact hname ▸ hbindings b hb
  · obtain ⟨x, hx, hsaved⟩ := mem_savedValues.1 he
    obtain ⟨other, hother, hp, -⟩ := savedValue_eq_some.1 hsaved
    refine h.saves hstep hother (fun heq => hnot ?_) hsave hp
    exact heq ▸ List.mem_map_of_mem hx

end ScenarioDef

end TxGen
