import Mathlib

set_option autoImplicit false

/-! # Pre- and postconditions of computations that may fail

`EStateM ε σ` is a state that survives an error. `Triple P x Q E` says what holds after `x` has been
run from a state in `P`: `Q` of its result and its state, or `E` of the state that an error leaves.
The rules follow the way a computation is put together; the ones for loops carry an invariant about
what has been processed. -/

universe u

variable {ε σ α β : Type u}

/-- From every state in `P`, the computation ends in `Q`, or with an error in `E`. -/
def Triple (P : σ → Prop) (x : EStateM ε σ α) (Q : α → σ → Prop) (E : σ → Prop) : Prop :=
  ∀ s, P s → match x s with
    | .ok a s' => Q a s'
    | .error _ s' => E s'

namespace Triple

variable {P P' : σ → Prop} {Q Q' : α → σ → Prop} {E E' : σ → Prop}

/-- A stronger precondition and weaker postconditions. -/
theorem weaken {x : EStateM ε σ α} (h : Triple P x Q E) (hP : ∀ s, P' s → P s)
    (hQ : ∀ a s, Q a s → Q' a s) (hE : ∀ s, E s → E' s) : Triple P' x Q' E' := by
  intro s hs
  have hrun := h s (hP s hs)
  cases hx : x s with
  | ok a s' =>
      rw [hx] at hrun
      exact hQ a s' hrun
  | error e s' =>
      rw [hx] at hrun
      exact hE s' hrun

theorem ret {a : α} (h : ∀ s, P s → Q a s) : Triple P (pure a : EStateM ε σ α) Q E := h

theorem fail {e : ε} (h : ∀ s, P s → E s) : Triple P (throw e : EStateM ε σ α) Q E := h

theorem seq {x : EStateM ε σ α} {f : α → EStateM ε σ β} {R : α → σ → Prop} {Q : β → σ → Prop}
    (hx : Triple P x R E) (hf : ∀ a, Triple (R a) (f a) Q E) : Triple P (x >>= f) Q E := by
  intro s hs
  have hfirst := hx s hs
  show match EStateM.bind x f s with
    | .ok b s' => Q b s'
    | .error _ s' => E s'
  rw [EStateM.bind]
  cases hrun : x s with
  | ok a s' =>
      rw [hrun] at hfirst
      exact hf a s' hfirst
  | error e s' =>
      rw [hrun] at hfirst
      exact hfirst

/-- The state is read, and its value can be used in what follows. -/
theorem read {f : σ → EStateM ε σ β} {Q : β → σ → Prop}
    (h : ∀ s, P s → Triple (· = s) (f s) Q E) : Triple P (get >>= f) Q E :=
  fun s hs => h s hs s rfl

theorem write {f : σ → σ} {Q : PUnit → σ → Prop} (h : ∀ s, P s → Q ⟨⟩ (f s)) :
    Triple P (modify f : EStateM ε σ PUnit) Q E := h

theorem assign {s' : σ} {Q : PUnit → σ → Prop} (h : ∀ s, P s → Q ⟨⟩ s') :
    Triple P (set s' : EStateM ε σ PUnit) Q E := h

theorem lift {result : Except ε α} (hok : ∀ a, result = .ok a → ∀ s, P s → Q a s)
    (herror : ∀ e, result = .error e → ∀ s, P s → E s) :
    Triple P (liftExcept result : EStateM ε σ α) Q E := by
  cases hresult : result with
  | ok a => exact ret (hok a hresult)
  | error e => exact fail (herror e hresult)

/-- One state at a time. -/
theorem of_states {x : EStateM ε σ α} (h : ∀ s, P s → Triple (· = s) x Q E) : Triple P x Q E :=
  fun s hs => h s hs s rfl

/-- A loop that carries a value: `J done a` holds when `done` has been processed. -/
theorem foldlM {xs : List α} {f : β → α → EStateM ε σ β}
    (J : List α → β → σ → Prop)
    (hstep : ∀ done x rest b, xs = done ++ x :: rest →
      Triple (J done b) (f b x) (J (done ++ [x])) E) (b : β) :
    Triple (J [] b) (xs.foldlM f b) (J xs) E := by
  suffices hrest : ∀ rest done b, xs = done ++ rest →
      Triple (J done b) (rest.foldlM f b) (J xs) E from hrest xs [] b rfl
  intro rest
  induction rest with
  | nil =>
      intro done b hxs
      rw [List.append_nil] at hxs
      exact ret fun s hs => hxs ▸ hs
  | cons x rest ih =>
      intro done b hxs
      rw [List.foldlM_cons]
      exact (hstep done x rest b hxs).seq fun b' => ih (done ++ [x]) b' (by simp [hxs])

/-- A loop: `J done` holds when `done` has been processed. -/
theorem forM {xs : List α} {f : α → EStateM ε σ PUnit} (J : List α → σ → Prop)
    (hstep : ∀ done x rest, xs = done ++ x :: rest →
      Triple (J done) (f x) (fun _ => J (done ++ [x])) E) :
    Triple (J []) (xs.forM f) (fun _ => J xs) E := by
  suffices hrest : ∀ rest done, xs = done ++ rest →
      Triple (J done) (rest.forM f) (fun _ => J xs) E from hrest xs [] rfl
  intro rest
  induction rest with
  | nil =>
      intro done hxs
      rw [List.append_nil] at hxs
      exact ret fun s hs => hxs ▸ hs
  | cons x rest ih =>
      intro done hxs
      show Triple (J done) (f x >>= fun _ => rest.forM f) (fun _ => J xs) E
      exact (hstep done x rest hxs).seq fun _ => ih (done ++ [x]) (by simp [hxs])

end Triple
