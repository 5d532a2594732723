import Mathlib

set_option autoImplicit false

/-! # Loops of fallible steps

A loop in `Except` succeeds if each of its steps does. Two computations `agree` if they succeed together
and with the same result, whatever their errors say. -/

universe u v w

namespace Fallible

variable {ε : Type u} {α β : Type v} {γ : Type v}

theorem bind_ok {x : Except ε α} {f : α → Except ε β} {b : β} :
    (x >>= f) = .ok b ↔ ∃ a, x = .ok a ∧ f a = .ok b := by
  cases x <;> simp [bind, Except.bind]

theorem mapError_ok {ε' : Type w} {x : Except ε α} {f : ε → ε'} {a : α} :
    x.mapError f = .ok a ↔ x = .ok a := by
  cases x <;> simp [Except.mapError]

/-- The result of a run that passes a check. -/
theorem ok_of_check {x : Except ε α} {check : α → Bool} (h : x.toOption.any check = true) :
    ∃ a, x = .ok a ∧ check a = true := by
  cases x with
  | error e => cases h
  | ok a => exact ⟨a, rfl, h⟩

theorem mapM_ok {f : α → Except ε β} {l : List α} {l' : List β} :
    l.mapM f = .ok l' ↔ List.Forall₂ (fun a b => f a = .ok b) l l' := by
  induction l generalizing l' with
  | nil => simp [pure, Except.pure, eq_comm]
  | cons a l ih =>
      simp only [List.mapM_cons, bind_ok, List.forall₂_cons_left_iff]
      constructor
      · rintro ⟨b, hb, bs, hbs, hl⟩
        obtain rfl := Except.ok.inj hl
        exact ⟨b, bs, hb, ih.1 hbs, rfl⟩
      · rintro ⟨b, bs, hb, hbs, rfl⟩
        exact ⟨b, hb, bs, ih.2 hbs, rfl⟩

theorem forM_ok {f : α → Except ε PUnit} {l : List α} :
    l.forM f = .ok ⟨⟩ ↔ ∀ a ∈ l, f a = .ok ⟨⟩ := by
  induction l with
  | nil => simp [pure, Except.pure]
  | cons a l ih =>
      have hcons : (a :: l).forM f = (f a >>= fun _ => l.forM f) := rfl
      rw [hcons, bind_ok, List.forall_mem_cons, ← ih]
      constructor
      · rintro ⟨⟨⟩, hfirst, hrest⟩
        exact ⟨hfirst, hrest⟩
      · rintro ⟨hfirst, hrest⟩
        exact ⟨⟨⟩, hfirst, hrest⟩

/-! ## Agreement -/

/-- Both fail, or both succeed with the same result. -/
def Agree (x y : Except ε α) : Prop := x.toOption = y.toOption

namespace Agree

variable {x y z : Except ε α}

theorem refl (x : Except ε α) : Agree x x := rfl

theorem symm (h : Agree x y) : Agree y x := Eq.symm h

theorem trans (h : Agree x y) (h' : Agree y z) : Agree x z := Eq.trans h h'

theorem ok_iff (h : Agree x y) (a : α) : x = .ok a ↔ y = .ok a := by
  unfold Agree at h
  cases x <;> cases y <;> simp_all [Except.toOption]

theorem errors (e e' : ε) : Agree (.error e : Except ε α) (.error e') := rfl

theorem bind {f g : α → Except ε β} (h : Agree x y) (hfg : ∀ a, Agree (f a) (g a)) :
    Agree (x >>= f) (y >>= g) := by
  unfold Agree at h
  cases x with
  | error e =>
      cases y with
      | error e' => rfl
      | ok b => cases h
  | ok a =>
      cases y with
      | error e' => cases h
      | ok b =>
          obtain rfl := Option.some.inj h
          exact hfg a

theorem mapError {f g : ε → ε} (h : Agree x y) : Agree (x.mapError f) (y.mapError g) := by
  unfold Agree at h ⊢
  cases x <;> cases y <;> simp_all [Except.toOption, Except.mapError]

theorem forM {f g : γ → Except ε PUnit} {l : List γ} (h : ∀ a ∈ l, Agree (f a) (g a)) :
    Agree (l.forM f) (l.forM g) := by
  induction l with
  | nil => exact refl _
  | cons a l ih =>
      exact (h a List.mem_cons_self).bind fun _ => ih fun b hb => h b (List.mem_cons_of_mem _ hb)

end Agree

end Fallible
