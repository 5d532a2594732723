import Mathlib

set_option autoImplicit false

/-! # Executable labelled systems and their runs

A `System` is a state machine whose step is a partial function of a label. Every choice the
environment or the scheduler makes is in the label, so one list of labels names one run, a concrete
run can be executed (`System.exec`), and "every interleaving" is "every list of labels".

`Run m ok s ls t` is a run whose steps all meet the side condition `ok`; the unconditional runs are
those for `fun _ _ => True`. The two rules the developments use are `Run.invariant` (what one step
preserves, a run preserves) and `Run.simulates` (a step-wise simulation lifts to runs). -/

universe u v w

/-- A state machine with an executable, partial labelled step. -/
structure System (σ : Type u) (ℓ : Type v) where
  init : σ
  step : σ → ℓ → Option σ

namespace System

variable {σ : Type u} {ℓ : Type v} {τ : Type w} (m : System σ ℓ)

/-- Execute a list of labels; `none` when some label is not enabled. -/
def exec : σ → List ℓ → Option σ
  | s, [] => some s
  | s, l :: ls => (m.step s l).bind fun t => exec t ls

/-- Execute a list of labels as long as every step passes the check. -/
def execChecked (check : σ → ℓ → Bool) : σ → List ℓ → Option σ
  | s, [] => some s
  | s, l :: ls => if check s l then (m.step s l).bind fun t => execChecked check t ls else none

/-- A run whose every step meets `ok` in the state it is taken from. -/
inductive Run (ok : σ → ℓ → Prop) : σ → List ℓ → σ → Prop
  | nil (s : σ) : Run ok s [] s
  | cons {s t u : σ} {l : ℓ} {ls : List ℓ} (hok : ok s l) (hstep : m.step s l = some t)
      (rest : Run ok t ls u) : Run ok s (l :: ls) u

/-- No side condition: every interleaving. -/
abbrev anyStep : σ → ℓ → Prop := fun _ _ => True

/-- `t` is reached from the initial state by some run. -/
def Reachable (t : σ) : Prop := ∃ ls, m.Run anyStep m.init ls t

variable {m} {ok ok' : σ → ℓ → Prop}

theorem run_of_exec {s t : σ} {ls : List ℓ} (h : m.exec s ls = some t) :
    m.Run anyStep s ls t := by
  induction ls generalizing s with
  | nil =>
      simp only [exec, Option.some.injEq] at h
      exact h ▸ Run.nil s
  | cons l ls ih =>
      simp only [exec, Option.bind_eq_some_iff] at h
      obtain ⟨s', hstep, hrest⟩ := h
      exact Run.cons trivial hstep (ih hrest)

/-- Executing a run whose end passes the check `P`. -/
theorem run_of_check {P : σ → Prop} [DecidablePred P] {s : σ} {ls : List ℓ}
    (h : (m.exec s ls).any (fun t => decide (P t)) = true) : ∃ t, m.Run anyStep s ls t ∧ P t := by
  obtain ⟨t, ht, hP⟩ := (Option.any_eq_true _ _).1 h
  exact ⟨t, run_of_exec ht, of_decide_eq_true hP⟩

/-- Executing a checked run whose end passes the check `P`. -/
theorem run_of_execChecked {check : σ → ℓ → Bool} {P : σ → Prop} [DecidablePred P] {s : σ}
    {ls : List ℓ} (h : (m.execChecked check s ls).any (fun t => decide (P t)) = true) :
    ∃ t, m.Run (fun s l => check s l = true) s ls t ∧ P t := by
  obtain ⟨t, ht, hP⟩ := (Option.any_eq_true _ _).1 h
  refine ⟨t, ?_, of_decide_eq_true hP⟩
  clear h hP
  induction ls generalizing s with
  | nil =>
      simp only [execChecked, Option.some.injEq] at ht
      exact ht ▸ Run.nil s
  | cons l ls ih =>
      simp only [execChecked, Option.ite_none_right_eq_some, Option.bind_eq_some_iff] at ht
      obtain ⟨hcheck, s', hstep, hrest⟩ := ht
      exact Run.cons hcheck hstep (ih hrest)

theorem exec_of_run {s t : σ} {ls : List ℓ} (h : m.Run ok s ls t) : m.exec s ls = some t := by
  induction h with
  | nil s => rfl
  | cons _ hstep _ ih => simp only [exec, hstep, Option.bind_some, ih]

theorem Run.mono {s t : σ} {ls : List ℓ} (himp : ∀ s l, ok s l → ok' s l)
    (h : m.Run ok s ls t) : m.Run ok' s ls t := by
  induction h with
  | nil s => exact Run.nil s
  | cons hok hstep _ ih => exact Run.cons (himp _ _ hok) hstep ih

/-- A run all of whose labels are admitted in every state. -/
theorem Run.of_labels {s t : σ} {ls : List ℓ} (h : m.Run ok' s ls t)
    (hok : ∀ l ∈ ls, ∀ s, ok s l) : m.Run ok s ls t := by
  induction h with
  | nil s => exact Run.nil s
  | cons _ hstep _ ih =>
      exact Run.cons (hok _ List.mem_cons_self _) hstep
        (ih fun l hl => hok l (List.mem_cons_of_mem _ hl))

theorem Run.any {s t : σ} {ls : List ℓ} (h : m.Run ok s ls t) : m.Run anyStep s ls t :=
  h.mono fun _ _ _ => trivial

theorem Run.append {s t u : σ} {ls ls' : List ℓ} (h : m.Run ok s ls t) (h' : m.Run ok t ls' u) :
    m.Run ok s (ls ++ ls') u := by
  induction h with
  | nil s => exact h'
  | cons hok hstep _ ih => exact Run.cons hok hstep (ih h')

theorem Run.snoc {s t u : σ} {ls : List ℓ} {l : ℓ} (h : m.Run ok s ls t) (hok : ok t l)
    (hstep : m.step t l = some u) : m.Run ok s (ls ++ [l]) u :=
  h.append (Run.cons hok hstep (Run.nil u))

/-- **Invariant rule.** What every admitted step preserves, every run preserves. -/
theorem Run.invariant {I : σ → Prop} (hstep : ∀ s l t, ok s l → I s → m.step s l = some t → I t)
    {s t : σ} {ls : List ℓ} (h : m.Run ok s ls t) (hs : I s) : I t := by
  induction h with
  | nil s => exact hs
  | cons hok hst _ ih => exact ih (hstep _ _ _ hok hs hst)

/-- A relation between the ends of one step that is reflexive and transitive holds between the ends
    of a run. -/
theorem Run.relates {R : σ → σ → Prop} (hrefl : ∀ s, R s s)
    (htrans : ∀ {s t u}, R s t → R t u → R s u) {I : σ → Prop}
    (hinv : ∀ s l t, ok s l → I s → m.step s l = some t → I t)
    (hstep : ∀ s l t, ok s l → I s → m.step s l = some t → R s t)
    {s t : σ} {ls : List ℓ} (h : m.Run ok s ls t) (hs : I s) : R s t := by
  induction h with
  | nil s => exact hrefl s
  | cons hok hst _ ih =>
      exact htrans (hstep _ _ _ hok hs hst) (ih (hinv _ _ _ hok hs hst))

/-- **Simulation rule.** If each admitted step is matched by finitely many abstract steps, so is
    each run. -/
theorem Run.simulates {R : σ → τ → Prop} {next : τ → τ → Prop}
    (hstep : ∀ s l s' a, ok s l → R s a → m.step s l = some s' →
      ∃ a', Relation.ReflTransGen next a a' ∧ R s' a')
    {s s' : σ} {ls : List ℓ} (h : m.Run ok s ls s') {a : τ} (hs : R s a) :
    ∃ a', Relation.ReflTransGen next a a' ∧ R s' a' := by
  induction h generalizing a with
  | nil s => exact ⟨a, Relation.ReflTransGen.refl, hs⟩
  | cons hok hst _ ih =>
      obtain ⟨a₁, h₁, hR₁⟩ := hstep _ _ _ _ hok hs hst
      obtain ⟨a₂, h₂, hR₂⟩ := ih hR₁
      exact ⟨a₂, h₁.trans h₂, hR₂⟩

theorem Reachable.invariant {I : σ → Prop} (hinit : I m.init)
    (hstep : ∀ s l t, I s → m.step s l = some t → I t) {t : σ} (h : m.Reachable t) : I t := by
  obtain ⟨ls, hrun⟩ := h
  exact hrun.invariant (fun s l t _ => hstep s l t) hinit

theorem Reachable.step {s t : σ} {l : ℓ} (h : m.Reachable s) (hst : m.step s l = some t) :
    m.Reachable t := by
  obtain ⟨ls, hrun⟩ := h
  exact ⟨ls ++ [l], hrun.snoc trivial hst⟩

theorem Reachable.run {s t : σ} {ls : List ℓ} (h : m.Reachable s) (hrun : m.Run ok s ls t) :
    m.Reachable t := by
  obtain ⟨ls₀, hrun₀⟩ := h
  exact ⟨ls₀ ++ ls, hrun₀.append hrun.any⟩

/-- **History rule.** The invariant may look at the labels of the run so far. -/
theorem Run.history {I : List ℓ → σ → Prop} {s t : σ} {ls : List ℓ} (h : m.Run ok s ls t)
    (hinit : I [] s) (hstep : ∀ ls t l u, m.Run ok s ls t → I ls t → ok t l → m.step t l = some u →
      I (ls ++ [l]) u) : I ls t := by
  suffices ∀ before u, m.Run ok s before u → I before u → m.Run ok u ls t → I (before ++ ls) t from
    this [] s (Run.nil s) hinit h
  clear h
  induction ls with
  | nil =>
      intro before u _ hI hrun
      cases hrun
      rwa [List.append_nil]
  | cons l ls ih =>
      intro before u hbefore hI hrun
      cases hrun with
      | cons hok hst hrest =>
          have := ih _ _ (hbefore.snoc hok hst) (hstep _ _ _ _ hbefore hI hok hst) hrest
          rwa [List.append_assoc, List.singleton_append] at this

/-- Some step of the run from `s` to `t` meets `P`. -/
def Happened (m : System σ ℓ) (P : σ → ℓ → Prop) (s : σ) (ls : List ℓ) (t : σ) : Prop :=
  ∃ before l after u v, ls = before ++ l :: after ∧ m.Run anyStep s before u ∧
    m.step u l = some v ∧ m.Run anyStep v after t ∧ P u l

theorem Happened.snoc {P : σ → ℓ → Prop} {s t u : σ} {ls : List ℓ} {l : ℓ}
    (h : m.Happened P s ls t) (hstep : m.step t l = some u) : m.Happened P s (ls ++ [l]) u := by
  obtain ⟨before, l', after, v, w, rfl, hbefore, hst, hafter, hP⟩ := h
  exact ⟨before, l', after ++ [l], v, w, by simp, hbefore, hst, hafter.snoc trivial hstep, hP⟩

theorem Happened.last {P : σ → ℓ → Prop} {s t u : σ} {ls : List ℓ} {l : ℓ}
    (h : m.Run anyStep s ls t) (hstep : m.step t l = some u) (hP : P t l) :
    m.Happened P s (ls ++ [l]) u :=
  ⟨ls, l, [], t, u, rfl, h, hstep, Run.nil u, hP⟩

/-- A step that meets `P` meets `P'` too, by what the rest of the run shows. -/
theorem Happened.imp {P P' : σ → ℓ → Prop} {s t : σ} {ls : List ℓ} (h : m.Happened P s ls t)
    (himp : ∀ u l v before after, m.Run anyStep s before u → m.step u l = some v →
      m.Run anyStep v after t → P u l → P' u l) : m.Happened P' s ls t := by
  obtain ⟨before, l, after, u, v, heq, hbefore, hst, hafter, hP⟩ := h
  exact ⟨before, l, after, u, v, heq, hbefore, hst, hafter,
    himp u l v before after hbefore hst hafter hP⟩

end System
