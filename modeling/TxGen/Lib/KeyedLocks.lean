import Mathlib

set_option autoImplicit false
set_option linter.unusedSectionVars false

/-! # First-come locks over sets of keys

An abstract lock table: requests arrive in order, each for a finite set of keys; a waiting request
may be granted once no key of it is held and no request *ahead of it* asks for one of its keys; a
grant gives its keys back piece by piece; a waiting request may be withdrawn. `Table.Inv` is what
every run keeps: held keys are disjoint, and requests that share a key are granted in order of
arrival.

The second half is the scan that finds the next grantable request in one pass, accumulating the keys
of the requests it skips (`firstReady`), and the exact meaning of its answer. -/

universe u v w

namespace KeyedLocks

variable {ι : Type u} {κ : Type v} [LinearOrder ι] [DecidableEq κ]

/-- A request for all of `keys`; requests are numbered in order of arrival. -/
structure Request (ι : Type u) (κ : Type v) where
  id : ι
  keys : Finset κ

/-- A granted request and the keys it has not given back yet. -/
structure Grant (ι : Type u) (κ : Type v) extends Request ι κ where
  held : Finset κ

/-- Waiting requests in order of arrival, and all grants in order of granting. -/
structure Table (ι : Type u) (κ : Type v) where
  waiting : List (Request ι κ)
  granted : List (Grant ι κ)

namespace Table

/-- Some grant still holds `k`. -/
def Locked (t : Table ι κ) (k : κ) : Prop := ∃ g ∈ t.granted, k ∈ g.held

/-- `r` joins the queue. -/
def arrive (t : Table ι κ) (r : Request ι κ) : Table ι κ :=
  { t with waiting := t.waiting ++ [r] }

/-- The `i`-th waiting request `r` is granted all its keys. -/
def grant (t : Table ι κ) (i : ℕ) (r : Request ι κ) : Table ι κ :=
  { waiting := t.waiting.eraseIdx i, granted := t.granted ++ [{ r with held := r.keys }] }

/-- Grant `i` gives the keys `ks` back. -/
def release (t : Table ι κ) (i : ι) (ks : Finset κ) : Table ι κ :=
  { t with granted := t.granted.map fun g => if g.id = i then { g with held := g.held \ ks } else g }

/-- Only the requests `stay` are left in the queue. -/
def withdraw (t : Table ι κ) (stay : List (Request ι κ)) : Table ι κ :=
  { t with waiting := stay }

/-- `r`, at place `i` of the queue, may be granted: none of its keys is held or asked for earlier. -/
structure Grantable (t : Table ι κ) (i : ℕ) (r : Request ι κ) : Prop where
  at_index : t.waiting[i]? = some r
  free : ∀ g ∈ t.granted, Disjoint g.held r.keys
  first : ∀ w ∈ t.waiting.take i, Disjoint w.keys r.keys

/-- What the table can do. -/
inductive Step (t : Table ι κ) : Table ι κ → Prop
  | arrive (r : Request ι κ) (waiting_lt : ∀ w ∈ t.waiting, w.id < r.id)
      (granted_lt : ∀ g ∈ t.granted, g.id < r.id) : Step t (t.arrive r)
  | grant (i : ℕ) (r : Request ι κ) (h : t.Grantable i r) : Step t (t.grant i r)
  | release (i : ι) (ks : Finset κ) : Step t (t.release i ks)
  | withdraw (stay : List (Request ι κ)) (h : stay.Sublist t.waiting) : Step t (t.withdraw stay)

/-- What every run keeps. -/
structure Inv (t : Table ι κ) : Prop where
  waiting_sorted : t.waiting.Pairwise fun a b => a.id < b.id
  granted_ids : t.granted.Pairwise fun a b => a.id ≠ b.id
  apart : ∀ g ∈ t.granted, ∀ w ∈ t.waiting, g.id ≠ w.id
  held_subset : ∀ g ∈ t.granted, g.held ⊆ g.keys
  /-- Mutual exclusion. -/
  exclusive : t.granted.Pairwise fun a b => Disjoint a.held b.held
  /-- Requests that share a key were granted in order of arrival. -/
  fifo : t.granted.Pairwise fun a b => ¬ Disjoint a.keys b.keys → a.id < b.id
  /-- A request that still waits arrived after every grant it shares a key with. -/
  not_overtaken : ∀ g ∈ t.granted, ∀ w ∈ t.waiting, ¬ Disjoint g.keys w.keys → g.id < w.id

/-- The table before anything arrived. -/
def empty : Table ι κ := ⟨[], []⟩

theorem inv_empty : (empty : Table ι κ).Inv := by
  constructor <;> simp [empty]

theorem Inv.arrive {t : Table ι κ} (h : t.Inv) (r : Request ι κ)
    (waiting_lt : ∀ w ∈ t.waiting, w.id < r.id) (granted_lt : ∀ g ∈ t.granted, g.id < r.id) :
    (t.arrive r).Inv where
  waiting_sorted := by
    refine List.pairwise_append.2 ⟨h.waiting_sorted, List.pairwise_singleton _ _, ?_⟩
    intro a ha b hb
    rw [List.mem_singleton.1 hb]
    exact waiting_lt a ha
  granted_ids := h.granted_ids
  apart := by
    intro g hg w hw
    rcases List.mem_append.1 hw with hw | hw
    · exact h.apart g hg w hw
    · rw [List.mem_singleton.1 hw]
      exact (granted_lt g hg).ne
  held_subset := h.held_subset
  exclusive := h.exclusive
  fifo := h.fifo
  not_overtaken := by
    intro g hg w hw hshare
    rcases List.mem_append.1 hw with hw | hw
    · exact h.not_overtaken g hg w hw hshare
    · rw [List.mem_singleton.1 hw]
      exact granted_lt g hg

/-- A request that waits beside the one at place `i` is either ahead of it or numbered after it. -/
theorem mem_take_or_lt {t : Table ι κ} (h : t.Inv) {i : ℕ} {r w : Request ι κ}
    (hi : t.waiting[i]? = some r) (hw : w ∈ t.waiting.eraseIdx i) :
    w ∈ t.waiting.take i ∨ r.id < w.id := by
  rw [List.eraseIdx_eq_take_drop_succ, List.mem_append] at hw
  refine hw.imp_right fun hw => ?_
  obtain ⟨hlt, rfl⟩ := List.getElem?_eq_some_iff.1 hi
  have hsplit : (t.waiting.drop i).Pairwise fun a b => a.id < b.id :=
    h.waiting_sorted.sublist (List.drop_sublist i _)
  rw [List.drop_eq_getElem_cons hlt] at hsplit
  exact (List.pairwise_cons.1 hsplit).1 w hw

theorem Inv.grant {t : Table ι κ} (h : t.Inv) {i : ℕ} {r : Request ι κ} (hr : t.Grantable i r) :
    (t.grant i r).Inv := by
  have hmem : r ∈ t.waiting := List.mem_of_getElem? hr.at_index
  have hnew : ∀ w ∈ t.waiting.eraseIdx i, r.id ≠ w.id := by
    intro w hw heq
    obtain ⟨hlt, hri⟩ := List.getElem?_eq_some_iff.1 hr.at_index
    have hnodup : (t.waiting.map Request.id).Nodup :=
      List.pairwise_map.2 (h.waiting_sorted.imp fun hab => ne_of_lt hab)
    have hperm : t.waiting.Perm (r :: t.waiting.eraseIdx i) := by
      rw [← hri]
      exact (List.getElem_cons_eraseIdx_perm hlt).symm
    have hcons := (hperm.map Request.id).nodup_iff.1 hnodup
    exact (List.nodup_cons.1 hcons).1 (List.mem_map.2 ⟨w, hw, heq.symm⟩)
  refine ⟨h.waiting_sorted.sublist (List.eraseIdx_sublist _ _), ?_, ?_, ?_, ?_, ?_, ?_⟩
  · refine List.pairwise_append.2 ⟨h.granted_ids, List.pairwise_singleton _ _, ?_⟩
    intro a ha b hb
    rw [List.mem_singleton.1 hb]
    exact h.apart a ha r hmem
  · intro g hg w hw
    rcases List.mem_append.1 hg with hg | hg
    · exact h.apart g hg w ((List.eraseIdx_sublist _ _).subset hw)
    · rw [List.mem_singleton.1 hg]
      exact hnew w hw
  · intro g hg
    rcases List.mem_append.1 hg with hg | hg
    · exact h.held_subset g hg
    · rw [List.mem_singleton.1 hg]
  · refine List.pairwise_append.2 ⟨h.exclusive, List.pairwise_singleton _ _, ?_⟩
    intro a ha b hb
    rw [List.mem_singleton.1 hb]
    exact hr.free a ha
  · refine List.pairwise_append.2 ⟨h.fifo, List.pairwise_singleton _ _, ?_⟩
    intro a ha b hb
    rw [List.mem_singleton.1 hb]
    exact h.not_overtaken a ha r hmem
  · intro g hg w hw hshare
    rcases List.mem_append.1 hg with hg | hg
    · exact h.not_overtaken g hg w ((List.eraseIdx_sublist _ _).subset hw) hshare
    · rw [List.mem_singleton.1 hg] at hshare ⊢
      -- a request ahead of `r` shares no key with it, so `w` stood behind it
      rcases mem_take_or_lt h hr.at_index hw with hahead | hbehind
      · exact absurd (hr.first w hahead).symm hshare
      · exact hbehind

/-- Release changes the held keys of one grant and nothing else. -/
theorem mem_release {t : Table ι κ} {i : ι} {ks : Finset κ} {g : Grant ι κ}
    (hg : g ∈ (t.release i ks).granted) :
    ∃ g₀ ∈ t.granted, g.toRequest = g₀.toRequest ∧ g.held ⊆ g₀.held := by
  obtain ⟨g₀, hg₀, rfl⟩ := List.mem_map.1 hg
  refine ⟨g₀, hg₀, ?_⟩
  split
  · exact ⟨rfl, Finset.sdiff_subset⟩
  · exact ⟨rfl, Finset.Subset.refl _⟩

theorem release_pairwise {t : Table ι κ} {i : ι} {ks : Finset κ} {R : Grant ι κ → Grant ι κ → Prop}
    (hR : ∀ a b a' b', R a b → a'.toRequest = a.toRequest → b'.toRequest = b.toRequest →
      a'.held ⊆ a.held → b'.held ⊆ b.held → R a' b')
    (h : t.granted.Pairwise R) : (t.release i ks).granted.Pairwise R := by
  have hone : ∀ g : Grant ι κ,
      (if g.id = i then { g with held := g.held \ ks } else g).toRequest = g.toRequest ∧
      (if g.id = i then { g with held := g.held \ ks } else g).held ⊆ g.held := by
    intro g
    split
    · exact ⟨rfl, Finset.sdiff_subset⟩
    · exact ⟨rfl, Finset.Subset.refl _⟩
  refine List.pairwise_map.2 (h.imp fun {a b} hab => ?_)
  exact hR a b _ _ hab (hone a).1 (hone b).1 (hone a).2 (hone b).2

theorem Inv.release {t : Table ι κ} (h : t.Inv) (i : ι) (ks : Finset κ) : (t.release i ks).Inv where
  waiting_sorted := h.waiting_sorted
  granted_ids := release_pairwise (fun a b a' b' hab ha hb _ _ => by rwa [ha, hb]) h.granted_ids
  apart := by
    intro g hg w hw
    obtain ⟨g₀, hg₀, heq, _⟩ := mem_release hg
    rw [heq]
    exact h.apart g₀ hg₀ w hw
  held_subset := by
    intro g hg
    obtain ⟨g₀, hg₀, heq, hsub⟩ := mem_release hg
    rw [heq]
    exact hsub.trans (h.held_subset g₀ hg₀)
  exclusive := release_pairwise (fun a b a' b' hab _ _ ha hb =>
    Finset.disjoint_of_subset_left ha (Finset.disjoint_of_subset_right hb hab)) h.exclusive
  fifo := release_pairwise (fun a b a' b' hab ha hb _ _ => by rwa [ha, hb]) h.fifo
  not_overtaken := by
    intro g hg w hw
    obtain ⟨g₀, hg₀, heq, _⟩ := mem_release hg
    rw [heq]
    exact h.not_overtaken g₀ hg₀ w hw

theorem Inv.withdraw {t : Table ι κ} (h : t.Inv) {stay : List (Request ι κ)}
    (hstay : stay.Sublist t.waiting) : (t.withdraw stay).Inv where
  waiting_sorted := h.waiting_sorted.sublist hstay
  granted_ids := h.granted_ids
  apart := fun g hg w hw => h.apart g hg w (hstay.subset hw)
  held_subset := h.held_subset
  exclusive := h.exclusive
  fifo := h.fifo
  not_overtaken := fun g hg w hw => h.not_overtaken g hg w (hstay.subset hw)

theorem Inv.step {t t' : Table ι κ} (h : t.Inv) (hs : t.Step t') : t'.Inv := by
  cases hs with
  | arrive r hw hg => exact h.arrive r hw hg
  | grant i r hr => exact h.grant hr
  | release i ks => exact h.release i ks
  | withdraw stay hstay => exact h.withdraw hstay

/-- **Exclusion and order over runs.** Every table a run reaches from a good one is good. -/
theorem Inv.steps {t t' : Table ι κ} (h : t.Inv)
    (hs : Relation.ReflTransGen (fun a b : Table ι κ => a.Step b) t t') : t'.Inv := by
  induction hs with
  | refl => exact h
  | tail _ hstep ih => exact ih.step hstep

/-! ## The set of locked keys -/

theorem locked_grant (t : Table ι κ) (i : ℕ) (r : Request ι κ) (k : κ) :
    (t.grant i r).Locked k ↔ t.Locked k ∨ k ∈ r.keys := by
  simp [Locked, grant, or_and_right, exists_or]

/-- A key has at most one holder. -/
theorem Inv.holder_unique {t : Table ι κ} (h : t.Inv) {g g' : Grant ι κ} (hg : g ∈ t.granted)
    (hg' : g' ∈ t.granted) {k : κ} (hk : k ∈ g.held) (hk' : k ∈ g'.held) : g = g' := by
  by_contra hne
  have : Std.Symm fun a b : Grant ι κ => Disjoint a.held b.held := ⟨fun _ _ hab => hab.symm⟩
  have hdisj : Disjoint g.held g'.held := h.exclusive.forall hg hg' hne
  exact Finset.disjoint_left.1 hdisj hk hk'

theorem Inv.id_injective {t : Table ι κ} (h : t.Inv) {g g' : Grant ι κ} (hg : g ∈ t.granted)
    (hg' : g' ∈ t.granted) (hid : g.id = g'.id) : g = g' := by
  by_contra hne
  have : Std.Symm fun a b : Grant ι κ => a.id ≠ b.id := ⟨fun _ _ hab => hab.symm⟩
  exact h.granted_ids.forall hg hg' hne hid

/-- Giving back keys that `g` holds unlocks exactly these: nobody else holds them. -/
theorem locked_release {t : Table ι κ} (h : t.Inv) {g : Grant ι κ} (hg : g ∈ t.granted)
    {ks : Finset κ} (hks : ks ⊆ g.held) (k : κ) :
    (t.release g.id ks).Locked k ↔ t.Locked k ∧ k ∉ ks := by
  simp only [Locked, release, List.mem_map, exists_exists_and_eq_and]
  constructor
  · rintro ⟨g₁, hg₁, hk⟩
    split at hk
    · exact ⟨⟨g₁, hg₁, (Finset.mem_sdiff.1 hk).1⟩, (Finset.mem_sdiff.1 hk).2⟩
    · rename_i hne
      refine ⟨⟨g₁, hg₁, hk⟩, fun hin => hne ?_⟩
      rw [h.holder_unique hg₁ hg hk (hks hin)]
  · rintro ⟨⟨g₁, hg₁, hk⟩, hout⟩
    refine ⟨g₁, hg₁, ?_⟩
    split
    · exact Finset.mem_sdiff.2 ⟨hk, hout⟩
    · exact hk

end Table

/-! ## The scan for the next grantable request -/

section Scan

variable {α : Type w} (keys : α → List κ) (ready : α → Bool)

/-- Index of the first item that is `ready` and none of whose keys is blocked. The keys of every
    item skipped on the way are blocked for the items behind it. -/
def firstReady : Finset κ → List α → Option ℕ
  | _, [] => none
  | blocked, a :: rest =>
    if (keys a).any (· ∈ blocked) || !ready a then
      (firstReady (blocked ∪ (keys a).toFinset) rest).map (· + 1)
    else some 0

/-- What the answer means: the item is ready, and none of its keys is blocked or belongs to an item
    ahead of it. -/
theorem firstReady_some {blocked : Finset κ} {q : List α} {i : ℕ}
    (h : firstReady keys ready blocked q = some i) :
    ∃ a, q[i]? = some a ∧ ready a = true ∧ (∀ k ∈ keys a, k ∉ blocked) ∧
      ∀ b ∈ q.take i, ∀ k ∈ keys a, k ∉ keys b := by
  induction q generalizing blocked i with
  | nil => simp [firstReady] at h
  | cons a rest ih =>
      rw [firstReady] at h
      split at h
      · obtain ⟨j, hj, rfl⟩ := Option.map_eq_some_iff.1 h
        obtain ⟨b, hb, hready, hfree, hfirst⟩ := ih hj
        refine ⟨b, by simpa using hb, hready, fun k hk hin => ?_, ?_⟩
        · exact hfree k hk (Finset.mem_union_left _ hin)
        · intro c hc k hk hkc
          rcases List.mem_cons.1 (by simpa using hc) with rfl | hc
          · exact hfree k hk (Finset.mem_union_right _ (List.mem_toFinset.2 hkc))
          · exact hfirst c hc k hk hkc
      · rename_i hfree
        obtain rfl : i = 0 := by simpa using h.symm
        simp only [Bool.or_eq_true, List.any_eq_true, decide_eq_true_eq, Bool.not_eq_true',
          not_or, not_exists, not_and, Bool.not_eq_false] at hfree
        exact ⟨a, rfl, hfree.2, hfree.1, by simp⟩

/-- Why an item is passed over: it is not ready, or one of its keys is blocked or belongs to an item
    ahead of it. -/
theorem firstReady_skips {blocked : Finset κ} {q : List α} {j : ℕ} {b : α} (hb : q[j]? = some b)
    (h : ∀ i, firstReady keys ready blocked q = some i → j < i) :
    ready b = false ∨ ∃ k ∈ keys b, k ∈ blocked ∨ ∃ c ∈ q.take j, k ∈ keys c := by
  induction q generalizing blocked j with
  | nil => simp at hb
  | cons a rest ih =>
      rw [firstReady] at h
      split at h
      · rename_i hskip
        cases j with
        | zero =>
            obtain rfl : a = b := by simpa using hb
            simp only [Bool.or_eq_true, List.any_eq_true, decide_eq_true_eq,
              Bool.not_eq_true'] at hskip
            rcases hskip with ⟨k, hk, hin⟩ | hready
            · exact Or.inr ⟨k, hk, Or.inl hin⟩
            · exact Or.inl hready
        | succ j =>
            have hrest : ∀ i,
                firstReady keys ready (blocked ∪ (keys a).toFinset) rest = some i → j < i := by
              intro i hi
              have := h (i + 1) (by simp [hi])
              omega
            rcases ih (by simpa using hb) hrest with hready | ⟨k, hk, hin⟩
            · exact Or.inl hready
            · refine Or.inr ⟨k, hk, ?_⟩
              rcases hin with hin | ⟨c, hc, hkc⟩
              · rcases Finset.mem_union.1 hin with hin | hin
                · exact Or.inl hin
                · exact Or.inr ⟨a, by simp, List.mem_toFinset.1 hin⟩
              · exact Or.inr ⟨c, by simp [hc], hkc⟩
      · exact absurd (h 0 rfl) (Nat.not_lt_zero j)

/-- Nothing is selected only if every item is passed over. -/
theorem firstReady_none {blocked : Finset κ} {q : List α}
    (h : firstReady keys ready blocked q = none) {j : ℕ} {b : α} (hb : q[j]? = some b) :
    ready b = false ∨ ∃ k ∈ keys b, k ∈ blocked ∨ ∃ c ∈ q.take j, k ∈ keys c :=
  firstReady_skips keys ready hb fun i hi => by rw [h] at hi; cases hi

/-- The head of the queue is selected as soon as it is ready and its keys are free. -/
theorem firstReady_head {blocked : Finset κ} {a : α} {rest : List α} (hready : ready a = true)
    (hfree : ∀ k ∈ keys a, k ∉ blocked) : firstReady keys ready blocked (a :: rest) = some 0 := by
  rw [firstReady, if_neg]
  simpa [hready] using hfree

end Scan

end KeyedLocks
