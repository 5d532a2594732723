import TxGen.Tempo.Uniqueness

set_option autoImplicit false

/-! # Transaction identities

A submission is told apart from the others of its chain by its number (`uniqueNonceHint`), and from the
others of its uniqueness group by its number in the group (`denseUniqueNonceHint`). Which group a step is
in is up to the adapter. -/

namespace TxGen

/-! ## Numbers in a group -/

def denseUniqueNonceIdentity (inst stepIndex : ℕ) (group : String)
    (groups : List (ℕ × Option String)) : Except Report (Option ℕ) :=
  let matching := groups.filter fun candidate => candidate.2 = some group
  let rank := (matching.filter fun candidate => candidate.1 < stepIndex).length
  let count := matching.length
  okOr (((checkedMul 64 inst count).bind fun base => checkedAdd 64 base rank).map some)
    "dense scenario identity overflow"

section

variable (uniqueNonceGroup : SubmitStep → Except Report (Option String)) (chain : String)

/-- The groups of the steps that submit to the chain, with their places. -/
def chainGroups : List StepDef → ℕ → Except Report (List (ℕ × Option String))
  | [], _ => .ok []
  | step :: steps, index =>
    match step.action with
    | .submit candidate => do
      if candidate.chain ≠ chain then chainGroups steps (index + 1)
      else
        let group ← uniqueNonceGroup candidate
        return (index, group) :: (← chainGroups steps (index + 1))
    | _ => chainGroups steps (index + 1)

/-- `uniqueNonceGroup` is the group of the template that a step submits. -/
def denseUniqueNonceHint (steps : List StepDef) (inst stepIndex : ℕ) (submit : SubmitStep) :
    Except Report (Option ℕ) := do
  match ← uniqueNonceGroup submit with
  | none => return none
  | some group =>
    denseUniqueNonceIdentity inst stepIndex group (← chainGroups uniqueNonceGroup chain steps 0)

/-- The step submits to the chain, in the group. -/
def StepDef.inGroup (group : String) (step : StepDef) : Bool :=
  match step.action with
  | .submit submit => submit.chain = chain &&
      (match uniqueNonceGroup submit with
        | .ok g => decide (g = some group)
        | .error _ => false)
  | _ => false

end

section

variable {uniqueNonceGroup : SubmitStep → Except Report (Option String)} {chain group : String}
  {steps : List StepDef} {groups : List (ℕ × Option String)}

/-- What the groups of the steps begin with. -/
theorem chainGroups_cons {step : StepDef} {index : ℕ}
    (h : chainGroups uniqueNonceGroup chain (step :: steps) index = .ok groups) :
    ∃ first rest, groups = first ++ rest ∧
      chainGroups uniqueNonceGroup chain steps (index + 1) = .ok rest ∧
      ((first = [] ∧ ∀ group, step.inGroup uniqueNonceGroup chain group = false) ∨
        ∃ g, first = [(index, g)] ∧ ∀ group, step.inGroup uniqueNonceGroup chain group = (g = some group)) := by
  simp only [chainGroups] at h
  cases haction : step.action with
  | submit submit =>
      simp only [haction] at h
      split at h
      · next hchain =>
          exact ⟨[], groups, rfl, h, Or.inl ⟨rfl, fun group => by simp [StepDef.inGroup, haction, hchain]⟩⟩
      · next hchain =>
          obtain ⟨g, hg, h⟩ := bind_eq_ok.1 h
          obtain ⟨rest, hrest, h⟩ := bind_eq_ok.1 h
          obtain rfl := Except.ok.inj h
          refine ⟨[(index, g)], rest, rfl, hrest, Or.inr ⟨g, rfl, fun group => ?_⟩⟩
          simp [StepDef.inGroup, haction, not_not.1 hchain, hg]
  | _ =>
      simp only [haction] at h
      exact ⟨[], groups, rfl, h, Or.inl ⟨rfl, fun group => by simp [StepDef.inGroup, haction]⟩⟩

theorem le_of_mem_chainGroups {index : ℕ}
    (h : chainGroups uniqueNonceGroup chain steps index = .ok groups) :
    ∀ c ∈ groups, index ≤ c.1 := by
  induction steps generalizing index groups with
  | nil =>
      obtain rfl := Except.ok.inj h
      exact nofun
  | cons step steps ih =>
      obtain ⟨first, rest, rfl, hrest, hfirst⟩ := chainGroups_cons h
      refine List.forall_mem_append.2 ⟨?_, fun c hc => Nat.le_of_succ_le (ih hrest c hc)⟩
      rcases hfirst with ⟨rfl, -⟩ | ⟨g, rfl, -⟩ <;> simp

/-- The groups list the members of each group. -/
theorem chainGroups_count {index : ℕ}
    (h : chainGroups uniqueNonceGroup chain steps index = .ok groups) :
    (groups.filter fun c => c.2 = some group).length =
      steps.countP (StepDef.inGroup uniqueNonceGroup chain group) := by
  induction steps generalizing index groups with
  | nil =>
      obtain rfl := Except.ok.inj h
      rfl
  | cons step steps ih =>
      obtain ⟨first, rest, rfl, hrest, hfirst⟩ := chainGroups_cons h
      rw [List.filter_append, List.length_append, ih hrest, List.countP_cons, Nat.add_comm]
      rcases hfirst with ⟨rfl, hout⟩ | ⟨g, rfl, hin⟩
      · simp [hout]
      · by_cases hg : g = some group <;> simp_all

/-- They list them by their places. -/
theorem chainGroups_rank {index : ℕ}
    (h : chainGroups uniqueNonceGroup chain steps index = .ok groups) (stepIndex : ℕ) :
    ((groups.filter fun c => c.2 = some group).filter fun c => c.1 < index + stepIndex).length =
      Rank.rank (StepDef.inGroup uniqueNonceGroup chain group) steps stepIndex := by
  induction steps generalizing index groups stepIndex with
  | nil =>
      obtain rfl := Except.ok.inj h
      simp [Rank.rank]
  | cons step steps ih =>
      cases stepIndex with
      | zero =>
          have hnone : ((groups.filter fun c => c.2 = some group).filter
              fun c => c.1 < index + 0) = [] := by
            refine List.filter_eq_nil_iff.2 fun c hc => ?_
            simpa using le_of_mem_chainGroups h c (List.mem_of_mem_filter hc)
          rw [hnone]
          simp [Rank.rank]
      | succ stepIndex =>
          obtain ⟨first, rest, rfl, hrest, hfirst⟩ := chainGroups_cons h
          have hplace : index + (stepIndex + 1) = index + 1 + stepIndex := by omega
          rw [List.filter_append, List.filter_append, List.length_append, hplace, ih hrest,
            Rank.rank, Rank.rank, List.take_succ_cons, List.countP_cons, Nat.add_comm]
          rcases hfirst with ⟨rfl, hout⟩ | ⟨g, rfl, hin⟩
          · simp [hout]
          · have hlt : index < index + 1 + stepIndex := by omega
            by_cases hg : g = some group <;> simp_all

end

/-! ## Identities -/

/-- The identities of the members of all instances: numbers without gaps, up to what fits. -/
structure Dense (identity : ℕ → ℕ → Except Report (Option ℕ)) (p : StepDef → Bool)
    (steps : List StepDef) : Prop where
  /-- Two submissions have one identity exactly if the one repeats the other. -/
  injective : ∀ {inst inst' i j v v' : ℕ}, Rank.IsMember p steps i → Rank.IsMember p steps j →
    identity inst i = .ok (some v) → identity inst' j = .ok (some v') →
      (v = v' ↔ inst = inst' ∧ i = j)
  /-- The first instances take the first numbers. -/
  onto : ∀ n v : ℕ, (∃ inst < n, ∃ i, Rank.IsMember p steps i ∧ identity inst i = .ok (some v)) ↔
    v < n * steps.countP p ∧ v < 2 ^ 64
  /-- What does not fit is an error. -/
  error_iff : ∀ {inst i : ℕ}, Rank.IsMember p steps i →
    ((∃ e, identity inst i = .error e) ↔ 2 ^ 64 ≤ Rank.number p steps inst i)

/-- An identity that is the number of a member, as far as it fits, is dense. -/
theorem Dense.of_number {identity : ℕ → ℕ → Except Report (Option ℕ)} {p : StepDef → Bool}
    {steps : List StepDef}
    (h : ∀ inst i, Rank.IsMember p steps i → ∀ v, identity inst i = .ok (some v) ↔
      v = Rank.number p steps inst i ∧ v < 2 ^ 64)
    (hsome : ∀ inst i, Rank.IsMember p steps i → identity inst i ≠ .ok none) :
    Dense identity p steps := by
  refine ⟨fun {inst inst' i j v v'} hi hj hv hv' => ?_, fun n v => ?_, fun {inst i} hi => ?_⟩
  · rw [((h inst i hi v).1 hv).1, ((h inst' j hj v').1 hv').1]
    exact ⟨Rank.number_injective hi hj, by rintro ⟨rfl, rfl⟩; rfl⟩
  · rw [← Rank.exists_number_iff]
    constructor
    · rintro ⟨inst, hinst, i, hi, hv⟩
      obtain ⟨rfl, hfits⟩ := (h inst i hi v).1 hv
      exact ⟨⟨inst, hinst, i, hi, rfl⟩, hfits⟩
    · rintro ⟨⟨inst, hinst, i, hi, rfl⟩, hfits⟩
      exact ⟨inst, hinst, i, hi, (h inst i hi _).2 ⟨rfl, hfits⟩⟩
  · cases hres : identity inst i with
    | error e =>
        refine iff_of_true ⟨e, rfl⟩ (Nat.le_of_not_lt fun hfits => ?_)
        rw [(h inst i hi _).2 ⟨rfl, hfits⟩] at hres
        cases hres
    | ok value =>
        cases value with
        | none => exact absurd hres (hsome inst i hi)
        | some v =>
            obtain ⟨rfl, hfits⟩ := (h inst i hi v).1 hres
            exact iff_of_false nofun (Nat.not_le.2 hfits)

/-- The number is computed with checks at each operation. -/
theorem checkedNumber_eq_some {inst count rank v : ℕ} :
    ((checkedMul 64 inst count).bind fun base => checkedAdd 64 base rank) = some v ↔
      v = inst * count + rank ∧ v < 2 ^ 64 := by
  simp only [Option.bind_eq_some_iff, checkedMul_eq_some, checkedAdd_eq_some]
  constructor
  · rintro ⟨_, ⟨-, rfl⟩, hfits, rfl⟩
    exact ⟨rfl, hfits⟩
  · rintro ⟨rfl, hfits⟩
    exact ⟨_, ⟨Nat.lt_of_le_of_lt (Nat.le_add_right _ _) hfits, rfl⟩, hfits, rfl⟩

theorem okOr_map_some_ne {x : Option ℕ} {message : String} :
    okOr (x.map some) message ≠ .ok none := by
  cases x <;> simp [okOr]

theorem map_some_okOr (x : Option ℕ) (message : String) :
    (okOr x message).map some = okOr (x.map some) message := by
  cases x <;> rfl

/-- The step that submits. -/
def submitAt (steps : List StepDef) (i : ℕ) : Option SubmitStep :=
  match steps[i]?.map StepDef.action with
  | some (.submit submit) => some submit
  | _ => none

/-- The identity of a submission in its group. -/
def denseIdentity (uniqueNonceGroup : SubmitStep → Except Report (Option String)) (chain : String)
    (steps : List StepDef) (inst i : ℕ) : Except Report (Option ℕ) :=
  match submitAt steps i with
  | some submit => denseUniqueNonceHint uniqueNonceGroup chain steps inst i submit
  | none => .ok none

variable {uniqueNonceGroup : SubmitStep → Except Report (Option String)} {chain : String}
  {steps : List StepDef}

theorem denseIdentity_of_member {groups : List (ℕ × Option String)}
    (hgroups : chainGroups uniqueNonceGroup chain steps 0 = .ok groups) {group : String} {inst i : ℕ}
    (hi : Rank.IsMember (StepDef.inGroup uniqueNonceGroup chain group) steps i) :
    denseIdentity uniqueNonceGroup chain steps inst i =
      denseUniqueNonceIdentity inst i group groups := by
  obtain ⟨step, hstep, hin⟩ := Rank.isMember_iff.1 hi
  obtain ⟨submit, haction, hgroup⟩ : ∃ submit, step.action = .submit submit ∧
      uniqueNonceGroup submit = .ok (some group) := by
    unfold StepDef.inGroup at hin
    split at hin
    · next submit haction =>
        refine ⟨submit, haction, ?_⟩
        split at hin <;> simp_all
    · cases hin
  simp only [denseIdentity, submitAt, hstep, Option.map_some, haction, denseUniqueNonceHint, hgroup,
    hgroups]
  rfl

/-- The members of a group are numbered among themselves. -/
theorem denseIdentity_dense {groups : List (ℕ × Option String)}
    (hgroups : chainGroups uniqueNonceGroup chain steps 0 = .ok groups) (group : String) :
    Dense (denseIdentity uniqueNonceGroup chain steps)
      (StepDef.inGroup uniqueNonceGroup chain group) steps := by
  have hrank : ∀ i, _ = Rank.rank (StepDef.inGroup uniqueNonceGroup chain group) steps i :=
    chainGroups_rank hgroups
  refine .of_number (fun inst i hi v => ?_) fun inst i hi => ?_
  · rw [denseIdentity_of_member hgroups hi, denseUniqueNonceIdentity, okOr_eq_ok,
      Option.map_eq_some_iff]
    simp only [Nat.zero_add] at hrank
    simp only [Option.some.injEq, exists_eq_right, checkedNumber_eq_some,
      chainGroups_count hgroups, hrank]
    rfl
  · rw [denseIdentity_of_member hgroups hi, denseUniqueNonceIdentity]
    exact okOr_map_some_ne

/-- **Identities.** The submissions of a chain are numbered without a gap, and so are those of each
    uniqueness group when the groups of the chain are known. -/
theorem identities_dense (uniqueNonceGroup : SubmitStep → Except Report (Option String))
    (chain : String) (steps : List StepDef) :
    Dense (fun inst i => (uniqueNonceHint chain steps inst i).map some) (StepDef.submitsOn chain) steps ∧
      match chainGroups uniqueNonceGroup chain steps 0 with
      | .ok _ => ∀ group, Dense (denseIdentity uniqueNonceGroup chain steps)
          (StepDef.inGroup uniqueNonceGroup chain group) steps
      | .error e => ∀ inst i submit group, uniqueNonceGroup submit = .ok (some group) →
          denseUniqueNonceHint uniqueNonceGroup chain steps inst i submit = .error e := by
  constructor
  · refine .of_number (fun inst i _ v => ?_) fun inst i _ => ?_
    · rw [uniqueNonceHint, map_some_okOr, okOr_eq_ok, Option.map_eq_some_iff]
      simp only [Option.some.injEq, exists_eq_right, checkedNumber_eq_some]
      rfl
    · rw [uniqueNonceHint, map_some_okOr]
      exact okOr_map_some_ne
  · cases hgroups : chainGroups uniqueNonceGroup chain steps 0 with
    | error e =>
        intro inst i submit group hgroup
        simp only [denseUniqueNonceHint, hgroup, hgroups]
        rfl
    | ok groups =>
        exact fun group => denseIdentity_dense hgroups group

end TxGen
