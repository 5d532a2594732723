import Mathlib

set_option autoImplicit false

/-! # Bipartite assignment by augmenting paths

Every `a : α` has a list of candidates in `β`, and some of `β` may be blocked. `augment` gives one more
`a` a candidate by moving others to theirs, `coverAll` does so for a whole list and decides whether it has
an assignment, and `leastAssignment` chooses the candidates one after the other so that what remains still
has one. -/

universe u v

namespace Matching

variable {α : Type u} {β : Type v}

/-! ## The search -/

/-- The owners so far, and what was looked at. -/
structure Search (α : Type u) (β : Type v) where
  owner : β → Option α
  visited : Finset β

section Search

variable [DecidableEq β]

def Search.visit (s : Search α β) (b : β) : Search α β := { s with visited := insert b s.visited }

def Search.assign (s : Search α β) (b : β) (a : α) : Search α β :=
  { s with owner := Function.update s.owner b (some a) }

/-- Look for a candidate that is free, or whose owner can move. -/
def tryCandidates (move : α → Search α β → Bool × Search α β) (blocked : Finset β) (a : α) :
    List β → Search α β → Bool × Search α β
  | [], s => (false, s)
  | b :: bs, s =>
    if b ∈ blocked ∨ b ∈ s.visited then tryCandidates move blocked a bs s
    else
      match s.owner b with
      | none => (true, (s.visit b).assign b a)
      | some previous =>
        match move previous (s.visit b) with
        | (true, s') => (true, s'.assign b a)
        | (false, s') => tryCandidates move blocked a bs s'

/-- Give `a` a candidate; the fuel bounds the length of the path. -/
def augment (cand : α → List β) (blocked : Finset β) : ℕ → α → Search α β → Bool × Search α β
  | 0, _, s => (false, s)
  | fuel + 1, a, s => tryCandidates (augment cand blocked fuel) blocked a (cand a) s

/-- Give all of them a candidate, each by a fresh search. -/
def coverAll (search : α → Search α β → Bool × Search α β) : List α → (β → Option α) → Bool
  | [], _ => true
  | a :: as, owner =>
    match search a ⟨owner, ∅⟩ with
    | (true, s) => coverAll search as s.owner
    | (false, _) => false

/-- Choose for each the first candidate that leaves an assignment of the others. -/
def leastAssignment (cand : α → List β) (covers : Finset β → List α → Bool) :
    List α → Finset β → Except α (List β)
  | [], _ => .ok []
  | a :: as, blocked =>
    match (cand a).find? fun b => b ∉ blocked && covers (insert b blocked) as with
    | none => .error a
    | some b => (leastAssignment cand covers as (insert b blocked)).map (b :: ·)

end Search

/-! ## What a search does -/

/-- The candidate is not blocked. -/
def Open (cand : α → List β) (blocked : Finset β) (a : α) (b : β) : Prop :=
  b ∈ cand a ∧ b ∉ blocked

/-- `a` owns something outside `seen`. -/
def OwnsOutside (owner : β → Option α) (seen : Finset β) (a : α) : Prop :=
  ∃ b, b ∉ seen ∧ owner b = some a

/-- Outside `seen`, the owners have one open candidate each. -/
structure ValidOutside (cand : α → List β) (blocked : Finset β) (owner : β → Option α)
    (seen : Finset β) : Prop where
  isOpen : ∀ b a, b ∉ seen → owner b = some a → Open cand blocked a b
  inj : ∀ b b' a, b ∉ seen → b' ∉ seen → owner b = some a → owner b' = some a → b = b'

theorem ValidOutside.mono {cand : α → List β} {blocked seen seen' : Finset β} {owner : β → Option α}
    (h : ValidOutside cand blocked owner seen) (hsub : seen ⊆ seen') :
    ValidOutside cand blocked owner seen' :=
  ⟨fun b a hb => h.isOpen b a fun hin => hb (hsub hin),
    fun b b' a hb hb' => h.inj b b' a (fun hin => hb (hsub hin)) fun hin => hb' (hsub hin)⟩

theorem OwnsOutside.mono {owner : β → Option α} {seen seen' : Finset β} {a : α}
    (h : OwnsOutside owner seen' a) (hsub : seen ⊆ seen') : OwnsOutside owner seen a := by
  obtain ⟨b, hb, hown⟩ := h
  exact ⟨b, fun hin => hb (hsub hin), hown⟩

/-- A search for `a` that succeeded: outside what had been seen, `a` is one more owner. -/
structure Moved (cand : α → List β) (blocked : Finset β) (a : α) (s s' : Search α β) : Prop where
  kept : ∀ b ∈ s.visited, s'.owner b = s.owner b
  valid : ValidOutside cand blocked s'.owner s.visited
  owns : ∀ x, OwnsOutside s'.owner s.visited x ↔ x = a ∨ OwnsOutside s.owner s.visited x

/-- A search among `bs` that failed: nothing moved, the open ones among `bs` were looked at, and so were
    all open candidates of the owners of what was newly looked at. -/
structure Exhausted (cand : α → List β) (blocked : Finset β) (bs : List β) (s s' : Search α β) :
    Prop where
  owner : s'.owner = s.owner
  visited : s.visited ⊆ s'.visited
  seen : ∀ b ∈ bs, b ∉ blocked → b ∈ s'.visited
  closed : ∀ b ∈ s'.visited, b ∉ s.visited → ∃ o, s.owner b = some o ∧
    ∀ b', Open cand blocked o b' → b' ∈ s'.visited

/-- A search with enough fuel succeeded or looked everywhere. -/
def Searched (cand : α → List β) (blocked : Finset β) (a : α) (bs : List β) (s : Search α β) :
    Bool × Search α β → Prop
  | (true, s') => Moved cand blocked a s s'
  | (false, s') => Exhausted cand blocked bs s s'

variable {cand : α → List β} {blocked : Finset β}

theorem Exhausted.refl (s : Search α β) : Exhausted cand blocked [] s s :=
  ⟨rfl, fun _ hb => hb, fun _ hb => absurd hb List.not_mem_nil, fun _ hb hnot => absurd hb hnot⟩

theorem Exhausted.skip {b : β} {bs : List β} {s s' : Search α β}
    (h : Exhausted cand blocked bs s s') (hb : b ∈ blocked ∨ b ∈ s.visited) :
    Exhausted cand blocked (b :: bs) s s' := by
  refine ⟨h.owner, h.visited, fun c hc hopen => ?_, h.closed⟩
  rcases List.mem_cons.1 hc with rfl | hc
  · exact h.visited (hb.resolve_left hopen)
  · exact h.seen c hc hopen

variable [DecidableEq β]

/-- Taking a free candidate. -/
theorem Moved.free {a : α} {b : β} {s : Search α β}
    (hvalid : ValidOutside cand blocked s.owner s.visited) (ha : ¬ OwnsOutside s.owner s.visited a)
    (hopen : Open cand blocked a b) (hb : b ∉ s.visited) (hfree : s.owner b = none) :
    Moved cand blocked a s ((s.visit b).assign b a) := by
  have howner : ∀ x, ((s.visit b).assign b a).owner x = if x = b then some a else s.owner x :=
    fun x => by simp [Search.assign, Search.visit, Function.update_apply]
  refine ⟨fun x hx => ?_, ⟨fun x y hx hy => ?_, fun x x' y hx hx' hy hy' => ?_⟩, fun x => ?_⟩
  · rw [howner, if_neg]
    rintro rfl
    exact hb hx
  · rw [howner] at hy
    split at hy
    · rename_i heq
      obtain rfl := Option.some.inj hy
      exact heq ▸ hopen
    · exact hvalid.isOpen x y hx hy
  · rw [howner] at hy hy'
    split at hy <;> split at hy'
    · rename_i heq heq'
      rw [heq, heq']
    · obtain rfl := Option.some.inj hy
      exact absurd ⟨x', hx', hy'⟩ ha
    · obtain rfl := Option.some.inj hy'
      exact absurd ⟨x, hx, hy⟩ ha
    · exact hvalid.inj x x' y hx hx' hy hy'
  · constructor
    · rintro ⟨c, hc, hown⟩
      rw [howner] at hown
      split at hown
      · exact Or.inl (Option.some.inj hown).symm
      · exact Or.inr ⟨c, hc, hown⟩
    · rintro (rfl | ⟨c, hc, hown⟩)
      · exact ⟨b, hb, by rw [howner, if_pos rfl]⟩
      · refine ⟨c, hc, ?_⟩
        rw [howner, if_neg, hown]
        rintro rfl
        rw [hfree] at hown
        cases hown

/-- Taking a candidate whose owner moved. -/
theorem Moved.step {a o : α} {b : β} {s s' : Search α β}
    (ha : ¬ OwnsOutside s.owner s.visited a)
    (hopen : Open cand blocked a b) (hb : b ∉ s.visited) (hown : s.owner b = some o)
    (hmove : Moved cand blocked o (s.visit b) s') :
    Moved cand blocked a s (s'.assign b a) := by
  have howner : ∀ x, (s'.assign b a).owner x = if x = b then some a else s'.owner x :=
    fun x => by simp [Search.assign, Function.update_apply]
  have hvisit : ∀ {x}, x ∉ (s.visit b).visited ↔ x ≠ b ∧ x ∉ s.visited := by
    simp [Search.visit]
  -- what is owned outside after the move was owned outside before
  have hold : ∀ x, OwnsOutside s'.owner (s.visit b).visited x →
      OwnsOutside s.owner s.visited x := by
    intro x hx
    rcases (hmove.owns x).1 hx with rfl | ⟨c, hc, hcx⟩
    · exact ⟨b, hb, hown⟩
    · exact ⟨c, (hvisit.1 hc).2, hcx⟩
  refine ⟨fun x hx => ?_, ⟨fun x y hx hy => ?_, fun x x' y hx hx' hy hy' => ?_⟩, fun x => ?_⟩
  · rw [howner, if_neg]
    · exact hmove.kept x (Finset.mem_insert_of_mem hx)
    · rintro rfl
      exact hb hx
  · rw [howner] at hy
    split at hy
    · rename_i heq
      obtain rfl := Option.some.inj hy
      exact heq ▸ hopen
    · rename_i hne
      exact hmove.valid.isOpen x y (hvisit.2 ⟨hne, hx⟩) hy
  · rw [howner] at hy hy'
    split at hy <;> split at hy'
    · rename_i heq heq'
      rw [heq, heq']
    · rename_i hne
      obtain rfl := Option.some.inj hy
      exact absurd (hold _ ⟨x', hvisit.2 ⟨hne, hx'⟩, hy'⟩) ha
    · rename_i hne _
      obtain rfl := Option.some.inj hy'
      exact absurd (hold _ ⟨x, hvisit.2 ⟨hne, hx⟩, hy⟩) ha
    · rename_i hne hne'
      exact hmove.valid.inj x x' y (hvisit.2 ⟨hne, hx⟩) (hvisit.2 ⟨hne', hx'⟩) hy hy'
  · constructor
    · rintro ⟨c, hc, hcx⟩
      rw [howner] at hcx
      split at hcx
      · exact Or.inl (Option.some.inj hcx).symm
      · rename_i hne
        exact Or.inr (hold x ⟨c, hvisit.2 ⟨hne, hc⟩, hcx⟩)
    · rintro (rfl | ⟨c, hc, hcx⟩)
      · exact ⟨b, hb, by rw [howner, if_pos rfl]⟩
      · have hnew : OwnsOutside s'.owner (s.visit b).visited x := by
          by_cases hcb : c = b
          · subst hcb
            rw [hown] at hcx
            exact (hmove.owns x).2 (Or.inl (Option.some.inj hcx).symm)
          · exact (hmove.owns x).2 (Or.inr ⟨c, hvisit.2 ⟨hcb, hc⟩, hcx⟩)
        obtain ⟨d, hd, hdx⟩ := hnew
        exact ⟨d, (hvisit.1 hd).2, by rw [howner, if_neg (hvisit.1 hd).1, hdx]⟩

/-- A search that succeeded after others had failed. -/
theorem Moved.after {a : α} {s s₁ s' : Search α β}
    (hvalid : ValidOutside cand blocked s.owner s.visited) (ha : ¬ OwnsOutside s.owner s.visited a)
    (howner : s₁.owner = s.owner) (hvisited : s.visited ⊆ s₁.visited)
    (hmove : Moved cand blocked a s₁ s') : Moved cand blocked a s s' := by
  have hkept : ∀ b ∈ s₁.visited, s'.owner b = s.owner b := fun b hb => by
    rw [hmove.kept b hb, howner]
  -- an owner outside the second set is `a` or was an owner outside it
  have hnew : ∀ {c x}, c ∉ s₁.visited → s'.owner c = some x →
      x = a ∨ OwnsOutside s.owner s₁.visited x := by
    intro c x hc hx
    rcases (hmove.owns x).1 ⟨c, hc, hx⟩ with rfl | h
    · exact Or.inl rfl
    · exact Or.inr (howner ▸ h)
  -- and then it owns nothing else
  have hcross : ∀ {b c x}, b ∉ s.visited → b ∈ s₁.visited → c ∉ s₁.visited →
      s'.owner b = some x → s'.owner c ≠ some x := by
    intro b c x hb hb₁ hc hbx hcx
    rw [hkept b hb₁] at hbx
    rcases hnew hc hcx with rfl | ⟨d, hd, hdx⟩
    · exact ha ⟨b, hb, hbx⟩
    · have := hvalid.inj b d x hb (fun hin => hd (hvisited hin)) hbx hdx
      exact hd (this ▸ hb₁)
  refine ⟨fun b hb => hkept b (hvisited hb), ⟨fun b x hb hx => ?_, fun b c x hb hc hbx hcx => ?_⟩,
    fun x => ?_⟩
  · by_cases hb₁ : b ∈ s₁.visited
    · exact hvalid.isOpen b x hb (hkept b hb₁ ▸ hx)
    · exact hmove.valid.isOpen b x hb₁ hx
  · by_cases hb₁ : b ∈ s₁.visited <;> by_cases hc₁ : c ∈ s₁.visited
    · exact hvalid.inj b c x hb hc (hkept b hb₁ ▸ hbx) (hkept c hc₁ ▸ hcx)
    · exact absurd hcx (hcross hb hb₁ hc₁ hbx)
    · exact absurd hbx (hcross hc hc₁ hb₁ hcx)
    · exact hmove.valid.inj b c x hb₁ hc₁ hbx hcx
  · constructor
    · rintro ⟨b, hb, hbx⟩
      by_cases hb₁ : b ∈ s₁.visited
      · exact Or.inr ⟨b, hb, hkept b hb₁ ▸ hbx⟩
      · exact (hnew hb₁ hbx).imp_right fun h => h.mono hvisited
    · rintro (rfl | ⟨b, hb, hbx⟩)
      · exact OwnsOutside.mono ((hmove.owns x).2 (Or.inl rfl)) hvisited
      · by_cases hb₁ : b ∈ s₁.visited
        · exact ⟨b, hb, (hkept b hb₁).trans hbx⟩
        · exact OwnsOutside.mono ((hmove.owns x).2 (Or.inr ⟨b, hb₁, howner ▸ hbx⟩)) hvisited

theorem Exhausted.cons {o : α} {b : β} {bs : List β} {s s₁ s' : Search α β}
    (hown : s.owner b = some o) (h₁ : Exhausted cand blocked (cand o) (s.visit b) s₁)
    (h : Exhausted cand blocked bs s₁ s') : Exhausted cand blocked (b :: bs) s s' := by
  have howner : s₁.owner = s.owner := h₁.owner
  have hb : b ∈ s₁.visited := h₁.visited (Finset.mem_insert_self _ _)
  refine ⟨h.owner.trans howner, ?_, fun c hc hopen => ?_, fun c hc hnew => ?_⟩
  · exact fun c hc => h.visited (h₁.visited (Finset.mem_insert_of_mem hc))
  · rcases List.mem_cons.1 hc with rfl | hc
    · exact h.visited hb
    · exact h.seen c hc hopen
  · by_cases hc₁ : c ∈ s₁.visited
    · by_cases hcb : c = b
      · subst hcb
        exact ⟨o, hown, fun d hd => h.visited (h₁.seen d hd.1 hd.2)⟩
      · obtain ⟨o', ho', hclosed⟩ := h₁.closed c hc₁ (by simp [Search.visit, hcb, hnew])
        exact ⟨o', ho', fun d hd => h.visited (hclosed d hd)⟩
    · obtain ⟨o', ho', hclosed⟩ := h.closed c hc hc₁
      exact ⟨o', howner ▸ ho', hclosed⟩

/-- One level of the search, from what the next level does. -/
theorem tryCandidates_searched {move : α → Search α β → Bool × Search α β} {all : Finset β} {n : ℕ}
    (hmove : ∀ o s, ValidOutside cand blocked s.owner s.visited →
      ¬ OwnsOutside s.owner s.visited o → (all \ s.visited).card < n → Searched cand blocked o (cand o) s (move o s))
    {a : α} {bs : List β} (hbs : ∀ b ∈ bs, b ∈ cand a ∧ b ∈ all) {s : Search α β}
    (hvalid : ValidOutside cand blocked s.owner s.visited) (ha : ¬ OwnsOutside s.owner s.visited a)
    (hcard : (all \ s.visited).card < n + 1) :
    Searched cand blocked a bs s (tryCandidates move blocked a bs s) := by
  induction bs generalizing s with
  | nil => exact Exhausted.refl s
  | cons b bs ih =>
      obtain ⟨⟨hcand, hall⟩, hbs'⟩ := List.forall_mem_cons.1 hbs
      rw [tryCandidates]
      split
      · rename_i hskip
        have hrest := ih hbs' hvalid ha hcard
        generalize tryCandidates move blocked a bs s = r at hrest ⊢
        obtain ⟨_ | _, s'⟩ := r
        · exact Exhausted.skip hrest hskip
        · exact hrest
      rename_i hskip
      obtain ⟨hblocked, hvisited⟩ := not_or.1 hskip
      have hopen : Open cand blocked a b := ⟨hcand, hblocked⟩
      split
      · rename_i hfree
        exact Moved.free hvalid ha hopen hvisited hfree
      rename_i o hown
      have hsub : s.visited ⊆ (s.visit b).visited := Finset.subset_insert b s.visited
      -- looking at `b` leaves fewer to look at, so the fuel of the next level is enough
      have hless : (all \ (s.visit b).visited).card < n := by
        have hlt : (all \ (s.visit b).visited).card < (all \ s.visited).card := by
          refine Finset.card_lt_card (Finset.ssubset_iff_subset_ne.2
            ⟨Finset.sdiff_subset_sdiff le_rfl hsub, fun heq => ?_⟩)
          have hin : b ∈ all \ s.visited := Finset.mem_sdiff.2 ⟨hall, hvisited⟩
          rw [← heq] at hin
          exact (Finset.mem_sdiff.1 hin).2 (Finset.mem_insert_self b s.visited)
        omega
      have ho : ¬ OwnsOutside (s.visit b).owner (s.visit b).visited o := by
        rintro ⟨c, hc, hco⟩
        obtain rfl := hvalid.inj c b o (fun hin => hc (hsub hin)) hvisited hco hown
        exact hc (Finset.mem_insert_self c s.visited)
      have hnext := hmove o (s.visit b) (hvalid.mono hsub) ho hless
      split
      · rename_i s₁ hs₁
        rw [hs₁] at hnext
        exact Moved.step ha hopen hvisited hown hnext
      · rename_i s₁ hs₁
        rw [hs₁] at hnext
        have howner : s₁.owner = s.owner := hnext.owner
        have hvisit : s.visited ⊆ s₁.visited := hsub.trans hnext.visited
        have hrest := ih (s := s₁) hbs' (howner ▸ hvalid.mono hvisit)
          (fun h => ha (howner ▸ h.mono hvisit))
          (lt_of_le_of_lt (Finset.card_le_card (Finset.sdiff_subset_sdiff le_rfl hvisit)) hcard)
        generalize tryCandidates move blocked a bs s₁ = r at hrest ⊢
        obtain ⟨_ | _, s'⟩ := r
        · exact Exhausted.cons hown hnext hrest
        · exact Moved.after hvalid ha howner hvisit hrest

/-- With more fuel than there is to look at, the search is complete. -/
theorem augment_searched {all : Finset β} (hall : ∀ a, ∀ b ∈ cand a, b ∈ all) {fuel : ℕ} {a : α}
    {s : Search α β} (hvalid : ValidOutside cand blocked s.owner s.visited)
    (ha : ¬ OwnsOutside s.owner s.visited a) (hcard : (all \ s.visited).card < fuel) :
    Searched cand blocked a (cand a) s (augment cand blocked fuel a s) := by
  induction fuel generalizing a s with
  | zero => omega
  | succ fuel ih =>
      exact tryCandidates_searched (fun o s hv ho hc => ih hv ho hc) (fun b hb => ⟨hb, hall a b hb⟩)
        hvalid ha hcard

/-! ## Assignments -/

/-- Every `a` has an open candidate of its own. -/
structure Assignment (cand : α → List β) (blocked : Finset β) (as : List α) (bs : List β) : Prop where
  isOpen : List.Forall₂ (Open cand blocked) as bs
  nodup : bs.Nodup

omit [DecidableEq β] in
theorem Assignment.nil_iff {bs : List β} : Assignment cand blocked [] bs ↔ bs = [] := by
  constructor
  · intro h
    exact List.forall₂_nil_left_iff.1 h.isOpen
  · rintro rfl
    exact ⟨.nil, List.nodup_nil⟩

omit [DecidableEq β] in
theorem exists_of_mem_right {r : α → β → Prop} {as : List α} {bs : List β}
    (h : List.Forall₂ r as bs) {b : β} (hb : b ∈ bs) : ∃ a ∈ as, r a b := by
  induction h with
  | nil => cases hb
  | cons hab _ ih =>
      rcases List.mem_cons.1 hb with rfl | hb
      · exact ⟨_, List.mem_cons_self, hab⟩
      · obtain ⟨a, ha, hr⟩ := ih hb
        exact ⟨a, List.mem_cons_of_mem _ ha, hr⟩

/-- What is given to the first one is blocked for the others. -/
theorem Assignment.cons_iff {a : α} {as : List α} {b : β} {bs : List β} :
    Assignment cand blocked (a :: as) (b :: bs) ↔
      Open cand blocked a b ∧ Assignment cand (insert b blocked) as bs := by
  have hopen : b ∉ bs → (List.Forall₂ (Open cand (insert b blocked)) as bs ↔
      List.Forall₂ (Open cand blocked) as bs) := by
    intro hb
    induction as generalizing bs with
    | nil => simp
    | cons a' as ih =>
        cases bs with
        | nil => simp
        | cons b' bs =>
            obtain ⟨hne, hb⟩ := List.ne_and_not_mem_of_not_mem_cons hb
            rw [List.forall₂_cons, List.forall₂_cons, ih hb]
            simp [Open, hne.symm]
  constructor
  · rintro ⟨hall, hnodup⟩
    obtain ⟨hfirst, hrest⟩ := List.forall₂_cons.1 hall
    obtain ⟨hb, hnodup⟩ := List.nodup_cons.1 hnodup
    exact ⟨hfirst, (hopen hb).2 hrest, hnodup⟩
  · rintro ⟨hfirst, hrest, hnodup⟩
    have hb : b ∉ bs := by
      intro hin
      obtain ⟨a', -, hopen'⟩ := exists_of_mem_right hrest hin
      exact hopen'.2 (Finset.mem_insert_self b blocked)
    exact ⟨.cons hfirst ((hopen hb).1 hrest), List.nodup_cons.2 ⟨hb, hnodup⟩⟩

omit [DecidableEq β] in
/-- Those whose open candidates all lie in a set are no more than the set has elements. -/
theorem Assignment.card_le {as : List α} {bs : List β} (h : Assignment cand blocked as bs)
    {crowd : Finset α} {seats : Finset β} (hin : ∀ a ∈ crowd, a ∈ as)
    (hseats : ∀ a ∈ crowd, ∀ b, Open cand blocked a b → b ∈ seats) : crowd.card ≤ seats.card := by
  refine Finset.card_le_card_of_forall_subsingleton (fun a b => (a, b) ∈ as.zip bs)
    (fun a ha => ?_) fun b _ a ha a' ha' => ?_
  · obtain ⟨i, hi, rfl⟩ := List.mem_iff_getElem.1 (hin a ha)
    have hib : i < bs.length := h.isOpen.length_eq ▸ hi
    have hmem : (as[i], bs[i]) ∈ as.zip bs := List.mem_iff_getElem.2
      ⟨i, by simp [hi, hib], List.getElem_zip⟩
    exact ⟨bs[i], hseats _ ha _ ((List.forall₂_iff_zip.1 h.isOpen).2 hmem), hmem⟩
  · obtain ⟨i, hi, heq⟩ := List.mem_iff_getElem.1 ha.2
    obtain ⟨j, hj, heq'⟩ := List.mem_iff_getElem.1 ha'.2
    rw [List.getElem_zip, Prod.mk.injEq] at heq heq'
    obtain ⟨rfl, hb⟩ := heq
    obtain ⟨rfl, hb'⟩ := heq'
    obtain rfl := (List.Nodup.getElem_inj_iff h.nodup).1 (hb.trans hb'.symm)
    rfl

/-! ## Deciding whether there is an assignment -/

omit [DecidableEq β] in
/-- A search that failed shows that there are more `a`s than candidates. -/
theorem Exhausted.not_assignment [DecidableEq α] {a : α} {as : List α} {owner : β → Option α}
    {s : Search α β} (hvalid : ValidOutside cand blocked owner ∅) (ha : ¬ OwnsOutside owner ∅ a)
    (hain : a ∈ as) (howners : ∀ b x, owner b = some x → x ∈ as)
    (h : Exhausted cand blocked (cand a) ⟨owner, ∅⟩ s) (bs : List β) :
    ¬ Assignment cand blocked as bs := by
  intro hassign
  have howner : ∀ b ∈ s.visited, ∃ x, owner b = some x ∧
      ∀ b', Open cand blocked x b' → b' ∈ s.visited := fun b hb =>
    h.closed b hb (Finset.notMem_empty b)
  -- `a` and the owners of what was looked at are one more than what was looked at
  have hcard : (insert (some a) (s.visited.image owner)).card = s.visited.card + 1 := by
    rw [Finset.card_insert_of_notMem, Finset.card_image_of_injOn]
    · intro b hb b' hb' heq
      obtain ⟨x, hx, -⟩ := howner b hb
      exact hvalid.inj b b' x (Finset.notMem_empty b) (Finset.notMem_empty b') hx (heq ▸ hx)
    · intro hin
      obtain ⟨b, -, hb⟩ := Finset.mem_image.1 hin
      exact ha ⟨b, Finset.notMem_empty b, hb⟩
  have hnone : none ∉ insert (some a) (s.visited.image owner) := by
    intro hin
    obtain ⟨b, hb, hb'⟩ := Finset.mem_image.1 ((Finset.mem_insert.1 hin).resolve_left (by simp))
    obtain ⟨x, hx, -⟩ := howner b hb
    rw [hx] at hb'
    cases hb'
  have hmem : ∀ x, x ∈ (insert (some a) (s.visited.image owner)).eraseNone →
      x = a ∨ ∃ b ∈ s.visited, owner b = some x := by
    intro x hx
    rwa [Finset.mem_eraseNone, Finset.mem_insert, Finset.mem_image, Option.some.injEq] at hx
  have hle : (insert (some a) (s.visited.image owner)).eraseNone.card ≤ s.visited.card := by
    refine hassign.card_le (fun x hx => ?_) fun x hx b hb => ?_
    · rcases hmem x hx with rfl | ⟨b, -, hb⟩
      · exact hain
      · exact howners b x hb
    · rcases hmem x hx with rfl | ⟨c, hc, hcx⟩
      · exact h.seen b hb.1 hb.2
      · obtain ⟨y, hy, hclosed⟩ := howner c hc
        obtain rfl := Option.some.inj (hcx.symm.trans hy)
        exact hclosed b hb
  rw [Finset.card_eraseNone_of_not_mem hnone, hcard] at hle
  omega

omit [DecidableEq β] in
/-- If each of the owners owns one open candidate, these are an assignment. -/
theorem ValidOutside.exists_assignment {as : List α} {owner : β → Option α}
    (hvalid : ValidOutside cand blocked owner ∅) (howns : ∀ a ∈ as, OwnsOutside owner ∅ a)
    (hnodup : as.Nodup) : ∃ bs, Assignment cand blocked as bs := by
  obtain ⟨bs, hbs⟩ : ∃ bs : List β, bs.map owner = as.map some := by
    induction as with
    | nil => exact ⟨[], rfl⟩
    | cons a as ih =>
        obtain ⟨bs, hbs⟩ := ih (fun x hx => howns x (List.mem_cons_of_mem _ hx)) hnodup.of_cons
        obtain ⟨b, -, hb⟩ := howns a List.mem_cons_self
        exact ⟨b :: bs, by rw [List.map_cons, hb, hbs, List.map_cons]⟩
  refine ⟨bs, ?_, ?_⟩
  · rw [List.forall₂_iff_zip]
    have hlength : as.length = bs.length := by simpa using (congrArg List.length hbs).symm
    refine ⟨hlength, fun {a b} hab => hvalid.isOpen b a (Finset.notMem_empty b) ?_⟩
    obtain ⟨i, hi, heq⟩ := List.mem_iff_getElem.1 hab
    rw [List.getElem_zip, Prod.mk.injEq] at heq
    obtain ⟨rfl, rfl⟩ := heq
    have hget := congrArg (fun l => l[i]?) hbs
    rw [List.length_zip, lt_min_iff] at hi
    simpa [hi.1, hi.2] using hget
  · refine List.Nodup.of_map owner ?_
    rw [hbs]
    exact hnodup.map (Option.some_injective α)

/-- With enough fuel, `coverAll` decides whether there is an assignment. -/
theorem coverAll_iff [DecidableEq α] {all : Finset β} (hall : ∀ a, ∀ b ∈ cand a, b ∈ all) {fuel : ℕ}
    (hfuel : all.card < fuel) {done as : List α} {owner : β → Option α}
    (hvalid : ValidOutside cand blocked owner ∅) (howns : ∀ x, OwnsOutside owner ∅ x ↔ x ∈ done)
    (hnodup : (done ++ as).Nodup) :
    coverAll (augment cand blocked fuel) as owner = true ↔ ∃ bs, Assignment cand blocked (done ++ as) bs := by
  induction as generalizing done owner with
  | nil =>
      rw [List.append_nil] at hnodup ⊢
      exact iff_of_true rfl (hvalid.exists_assignment (fun a ha => (howns a).2 ha) hnodup)
  | cons a as ih =>
      have ha : ¬ OwnsOutside owner ∅ a := by
        rw [howns]
        intro hin
        exact (List.disjoint_of_nodup_append hnodup) hin List.mem_cons_self
      have hsearch := @augment_searched _ _ cand blocked _ _ hall fuel a ⟨owner, ∅⟩ hvalid ha
        (by simpa)
      rw [coverAll]
      split
      · rename_i s hs
        rw [hs] at hsearch
        rw [List.append_cons] at hnodup ⊢
        refine ih hsearch.valid (fun x => ?_) hnodup
        rw [hsearch.owns x, howns x, List.mem_append, List.mem_singleton, or_comm]
      · rename_i s hs
        rw [hs] at hsearch
        refine iff_of_false (by simp) ?_
        rintro ⟨bs, hbs⟩
        refine Exhausted.not_assignment hvalid ha (by simp) (fun b x hb => ?_) hsearch bs hbs
        exact List.mem_append_left _ ((howns x).1 ⟨b, Finset.notMem_empty b, hb⟩)

theorem coverAll_none_iff [DecidableEq α] {all : Finset β} (hall : ∀ a, ∀ b ∈ cand a, b ∈ all)
    {fuel : ℕ} (hfuel : all.card < fuel) {as : List α} (hnodup : as.Nodup) :
    coverAll (augment cand blocked fuel) as (fun _ => none) = true ↔
      ∃ bs, Assignment cand blocked as bs := by
  have hstart : ValidOutside cand blocked (fun _ => (none : Option α)) ∅ :=
    ⟨fun _ _ _ h => by simp at h, fun _ _ _ _ _ h => by simp at h⟩
  have hnone : ∀ x : α, OwnsOutside (fun _ : β => none) ∅ x ↔ x ∈ [] := by simp [OwnsOutside]
  exact coverAll_iff hall hfuel hstart hnone (show ([] ++ as).Nodup from hnodup)

/-! ## The least assignment -/

/-- What `leastAssignment` returns is the least assignment, and it fails, at the first one, only if there
    is none. -/
theorem leastAssignment_spec [LT β] (hsorted : ∀ a, (cand a).Pairwise (· < ·))
    {covers : Finset β → List α → Bool}
    (hcovers : ∀ blocked as, as.Nodup → (covers blocked as = true ↔
      ∃ bs, Assignment cand blocked as bs)) {as : List α} (hnodup : as.Nodup) (blocked : Finset β) :
    (∀ bs, leastAssignment cand covers as blocked = .ok bs → Assignment cand blocked as bs ∧
      ∀ bs', Assignment cand blocked as bs' → bs = bs' ∨ List.Lex (· < ·) bs bs') ∧
    ((∃ bs, Assignment cand blocked as bs) →
      ∃ bs, leastAssignment cand covers as blocked = .ok bs) := by
  induction as generalizing blocked with
  | nil =>
      refine ⟨fun bs h => ?_, fun _ => ⟨[], rfl⟩⟩
      obtain rfl := Except.ok.inj h
      exact ⟨Assignment.nil_iff.2 rfl, fun bs' h => Or.inl (Assignment.nil_iff.1 h).symm⟩
  | cons a as ih =>
      have hpick : ∀ b, (b ∉ blocked && covers (insert b blocked) as) = true ↔
          b ∉ blocked ∧ ∃ bs, Assignment cand (insert b blocked) as bs := by
        intro b
        rw [Bool.and_eq_true, decide_eq_true_eq, hcovers _ _ hnodup.of_cons]
      rw [leastAssignment]
      split
      · rename_i hnone
        refine ⟨by simp, ?_⟩
        rintro ⟨bs, hbs⟩
        obtain ⟨b, rest, hopen, -, rfl⟩ := List.forall₂_cons_left_iff.1 hbs.isOpen
        have hrest := (Assignment.cons_iff.1 hbs).2
        exact absurd ((hpick b).2 ⟨hopen.2, rest, hrest⟩) (List.find?_eq_none.1 hnone b hopen.1)
      · rename_i b hb
        obtain ⟨hbp, l₁, l₂, hcand, hbefore⟩ := List.find?_eq_some_iff_append.1 hb
        obtain ⟨hfree, hex⟩ := (hpick b).1 hbp
        have hopen : Open cand blocked a b := ⟨hcand ▸ by simp, hfree⟩
        obtain ⟨hok, hexists⟩ := ih hnodup.of_cons (insert b blocked)
        obtain ⟨bs, hbs⟩ := hexists hex
        rw [hbs]
        refine ⟨fun bs' h => ?_, fun _ => ⟨b :: bs, rfl⟩⟩
        obtain rfl := Except.ok.inj h
        obtain ⟨hassign, hleast⟩ := hok bs hbs
        refine ⟨Assignment.cons_iff.2 ⟨hopen, hassign⟩, fun bs' hbs' => ?_⟩
        obtain ⟨b', rest, hopen', -, rfl⟩ := List.forall₂_cons_left_iff.1 hbs'.isOpen
        obtain ⟨⟨hb', hfree'⟩, hrest⟩ := Assignment.cons_iff.1 hbs'
        -- a smaller first candidate was tried before, and left nothing for the others
        rw [hcand] at hb'
        have hsort := hsorted a
        rw [hcand, List.pairwise_append, List.pairwise_cons] at hsort
        rcases List.mem_append.1 hb' with hlt | hge
        · have := hbefore b' hlt
          rw [(hpick b').2 ⟨hfree', rest, hrest⟩] at this
          cases this
        · rcases List.mem_cons.1 hge with rfl | hgt
          · rcases hleast rest hrest with rfl | hlex
            · exact Or.inl rfl
            · exact Or.inr (.cons hlex)
          · exact Or.inr (.rel (hsort.2.1.1 b' hgt))

end Matching
