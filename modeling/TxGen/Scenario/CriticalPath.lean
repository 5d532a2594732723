import TxGen.Scenario.Graph
import TxGen.Scenario.Validation

set_option autoImplicit false

/-! # The observed critical path

`observedCriticalPath` walks back from the steps that nothing depends on, over string ids and with a
table of what it has visited. Where ids are distinct and the dependencies have no cycle, it returns the
chain of the latest predecessors; two steps of one id can make it run in a circle. -/

namespace TxGen

/-! ## The walk -/

structure StepOutcome where
  index : ℕ
  id : String
  dependsOn : List String
  startedOffsetMs : ℕ
  finishedOffsetMs : ℕ
deriving DecidableEq

structure CriticalPathState where
  ids : List String
  dagStartedOffsetMs : ℕ
  predecessorFinishedOffsetMs : ℕ
  finishedOffsetMs : ℕ
deriving DecidableEq

namespace CriticalPathState

def latencyMs (state : CriticalPathState) : ℕ := state.finishedOffsetMs - state.dagStartedOffsetMs

/-- Later states are greater; of those that finished together, the one with the smaller ids is. -/
def compare : CriticalPathState → CriticalPathState → Ordering :=
  compareLex (compareOn (·.finishedOffsetMs)) fun left right => compareOn (·.ids) right left

/-- Sort, and pop the last one. -/
def popGreatest (candidates : List CriticalPathState) : Option CriticalPathState :=
  (candidates.mergeSort fun left right => (left.compare right).isLE).getLast?

end CriticalPathState

namespace CriticalPath

abbrev Memo := String → Option CriticalPathState

/-- Visit the ids one after the other; ids of no step are left out. -/
def visitAll (visit : String → Memo → Option (Option CriticalPathState × Memo)) :
    List String → Memo → Option (List CriticalPathState × Memo)
  | [], memo => some ([], memo)
  | id :: ids, memo =>
    match visit id memo with
    | none => none
    | some (state, memo) =>
      match visitAll visit ids memo with
      | none => none
      | some (states, memo) => some (state.toList ++ states, memo)

/-- Remember a state; it does not end before its predecessor. -/
def remember (id : String) (state : CriticalPathState) (memo : Memo) :
    Option CriticalPathState × Memo :=
  let state := { state with
    finishedOffsetMs := max state.finishedOffsetMs state.predecessorFinishedOffsetMs }
  (some state, Function.update memo id (some state))

/-- The recursion over dependencies. It has no bound of its own: `none` says that the fuel ran out. -/
def visit (byId : String → Option StepOutcome) (dagStartedOffsetMs : ℕ) :
    ℕ → String → Memo → Option (Option CriticalPathState × Memo)
  | 0, _, _ => none
  | fuel + 1, id, memo =>
    match memo id with
    | some state => some (some state, memo)
    | none =>
      match byId id with
      | none => some (none, memo)
      | some step =>
        if step.dependsOn = [] then
          some (remember id
            { ids := [step.id]
              dagStartedOffsetMs
              predecessorFinishedOffsetMs := step.startedOffsetMs
              finishedOffsetMs := step.finishedOffsetMs } memo)
        else
          match visitAll (visit byId dagStartedOffsetMs fuel) step.dependsOn memo with
          | none => none
          | some (candidates, memo) =>
            match CriticalPathState.popGreatest candidates with
            | none => some (none, memo)
            | some selected =>
              some (remember id
                { ids := selected.ids ++ [step.id]
                  dagStartedOffsetMs := selected.dagStartedOffsetMs
                  predecessorFinishedOffsetMs := selected.finishedOffsetMs
                  finishedOffsetMs := step.finishedOffsetMs } memo)

/-- The outcome of an id; a later one replaces an earlier one. -/
def byId (steps : List StepOutcome) (id : String) : Option StepOutcome :=
  steps.reverse.find? fun step => step.id = id

/-- The first start of a step without dependencies. -/
def dagStartedOffsetMs (steps : List StepOutcome) : ℕ :=
  (((steps.filter (·.dependsOn = [])).map (·.startedOffsetMs)).min?).getD
    (((steps.map (·.startedOffsetMs)).min?).getD 0)

/-- The steps that nothing depends on. -/
def terminals (steps : List StepOutcome) : List StepOutcome :=
  steps.filter fun step => step.id ∉ steps.flatMap (·.dependsOn)

end CriticalPath

open CriticalPath in
/-- The ids of the critical path and its latency. -/
def observedCriticalPath (fuel : ℕ) (steps : List StepOutcome) : Option (List String × ℕ) :=
  if steps = [] then some ([], 0)
  else
    match visitAll (CriticalPath.visit (byId steps) (dagStartedOffsetMs steps) fuel)
        ((terminals steps).map (·.id)) fun _ => none with
    | none => none
    | some (states, _) =>
      match CriticalPathState.popGreatest states with
      | none => some ([], 0)
      | some state => some (state.ids, state.latencyMs)

/-! ## The greatest state -/

namespace CriticalPathState

instance : Inhabited CriticalPathState := ⟨⟨[], 0, 0, 0⟩⟩

instance : Std.TransCmp compare :=
  inferInstanceAs (Std.TransCmp (compareLex (compareOn CriticalPathState.finishedOffsetMs)
    fun left right => compareOn CriticalPathState.ids right left))

theorem popGreatest_spec {states : List CriticalPathState} (hne : states ≠ []) :
    ∃ state ∈ states, popGreatest states = some state ∧
      ∀ other ∈ states, (other.compare state).isLE = true := by
  have hperm := List.mergeSort_perm states fun left right => (left.compare right).isLE
  have htotal : ∀ a b : CriticalPathState, ((a.compare b).isLE || (b.compare a).isLE) = true := by
    intro a b
    cases hab : (a.compare b).isLE with
    | true => rfl
    | false =>
        have hlt : compare b a = .lt := Std.OrientedCmp.lt_of_not_isLE (by simp [hab])
        simp [hlt]
  have hsorted : (states.mergeSort fun left right => (left.compare right).isLE).Pairwise
      fun a b => (a.compare b).isLE = true :=
    List.pairwise_mergeSort (fun _ _ _ => Std.TransCmp.isLE_trans) htotal states
  rw [popGreatest]
  generalize states.mergeSort (fun left right => (left.compare right).isLE) = sorted at hperm hsorted ⊢
  rcases List.eq_nil_or_concat sorted with rfl | ⟨init, last, rfl⟩
  · exact absurd hperm.nil_eq.symm hne
  · refine ⟨last, hperm.mem_iff.1 (by simp), by simp, fun other hother => ?_⟩
    rcases List.mem_append.1 (List.concat_eq_append ▸ hperm.mem_iff.2 hother) with hin | hin
    · rw [List.concat_eq_append, List.pairwise_append] at hsorted
      exact hsorted.2.2 other hin last (List.mem_singleton_self _)
    · rw [List.mem_singleton.1 hin]
      exact Std.ReflCmp.isLE_rfl

theorem eq_of_le_of_le {a b : CriticalPathState} (hab : (a.compare b).isLE = true)
    (hba : (b.compare a).isLE = true) :
    a.finishedOffsetMs = b.finishedOffsetMs ∧ a.ids = b.ids := by
  have heq : a.compare b = .eq := Std.OrientedCmp.isLE_antisymm hab hba
  obtain ⟨hfinished, hids⟩ := compareLex_eq_eq.1 heq
  refine ⟨Nat.compare_eq_eq.1 hfinished, ?_⟩
  exact (Std.LawfulEqOrd.eq_of_compare (show Ord.compare b.ids a.ids = .eq from hids)).symm

theorem finished_le {a b : CriticalPathState} (hab : (a.compare b).isLE = true) :
    a.finishedOffsetMs ≤ b.finishedOffsetMs := by
  by_contra hlt
  have hgt : compareOn (·.finishedOffsetMs) a b = Ordering.gt := Nat.compare_eq_gt.2 (not_le.1 hlt)
  rw [compare, compareLex, hgt] at hab
  cases hab

end CriticalPathState

/-! ## The state of an id -/

namespace CriticalPath

variable {byId byId' : String → Option StepOutcome} {dag : ℕ} {id : String}
  {state state' : CriticalPathState}

/-- The state that the walk gives an id, along the dependencies. -/
inductive StateOf (byId : String → Option StepOutcome) (dag : ℕ) : String → CriticalPathState → Prop
  | root {id : String} {step : StepOutcome} (hstep : byId id = some step)
      (hroot : step.dependsOn = []) : StateOf byId dag id
        ⟨[step.id], dag, step.startedOffsetMs, max step.finishedOffsetMs step.startedOffsetMs⟩
  | node {id : String} {step : StepOutcome} (hstep : byId id = some step)
      (states : String → CriticalPathState)
      (hstates : ∀ d ∈ step.dependsOn, StateOf byId dag d (states d)) {latest : String}
      (hlatest : latest ∈ step.dependsOn)
      (hgreatest : ∀ d ∈ step.dependsOn, ((states d).compare (states latest)).isLE = true) :
      StateOf byId dag id ⟨(states latest).ids ++ [step.id], (states latest).dagStartedOffsetMs,
        (states latest).finishedOffsetMs,
        max step.finishedOffsetMs (states latest).finishedOffsetMs⟩

theorem StateOf.dagStarted (h : StateOf byId dag id state) : state.dagStartedOffsetMs = dag := by
  induction h with
  | root => rfl
  | node _ _ _ hlatest _ ih => exact ih _ hlatest

theorem StateOf.unique (h : StateOf byId dag id state) (h' : StateOf byId dag id state') :
    state = state' := by
  induction h generalizing state' with
  | root hstep hroot =>
      cases h' with
      | root hstep' =>
          obtain rfl := Option.some.inj (hstep.symm.trans hstep')
          rfl
      | node hstep' _ _ hlatest =>
          obtain rfl := Option.some.inj (hstep.symm.trans hstep')
          rw [hroot] at hlatest
          cases hlatest
  | node hstep states hstates hlatest hgreatest ih =>
      cases h' with
      | root hstep' hroot =>
          obtain rfl := Option.some.inj (hstep.symm.trans hstep')
          rw [hroot] at hlatest
          cases hlatest
      | node hstep' states' hstates' hlatest' hgreatest' =>
          obtain rfl := Option.some.inj (hstep.symm.trans hstep')
          have hsame : ∀ d ∈ _, states d = states' d := fun d hd => ih d hd (hstates' d hd)
          have hle := hgreatest' _ hlatest
          rw [← hsame _ hlatest, ← hsame _ hlatest'] at hle
          obtain ⟨hfinished, hids⟩ :=
            CriticalPathState.eq_of_le_of_le (hgreatest _ hlatest') hle
          have hdag := (hstates _ hlatest).dagStarted.trans (hstates _ hlatest').dagStarted.symm
          rw [← hsame _ hlatest', hfinished, hids, hdag]

/-- The order of the dependencies does not matter. -/
theorem StateOf.relist (hlike : ∀ id step, byId id = some step → ∃ step', byId' id = some step' ∧
      step' = { step with dependsOn := step'.dependsOn } ∧ step.dependsOn.Perm step'.dependsOn)
    (h : StateOf byId dag id state) : StateOf byId' dag id state := by
  induction h with
  | root hstep hroot =>
      obtain ⟨step', hstep', heq, hperm⟩ := hlike _ _ hstep
      rw [hroot] at hperm
      have hof : StateOf byId' dag _ _ := .root hstep' hperm.nil_eq.symm
      rw [heq] at hof
      exact hof
  | node hstep states _ hlatest hgreatest ih =>
      obtain ⟨step', hstep', heq, hperm⟩ := hlike _ _ hstep
      have := StateOf.node hstep' states (fun d hd => ih d (hperm.mem_iff.2 hd))
        (hperm.mem_iff.1 hlatest) fun d hd => hgreatest d (hperm.mem_iff.2 hd)
      rw [heq] at this
      exact this

/-! ## The walk finds the states -/

/-- What the table remembers is right. -/
def Sound (byId : String → Option StepOutcome) (dag : ℕ) (memo : Memo) : Prop :=
  ∀ id state, memo id = some state → StateOf byId dag id state

theorem Sound.remember {memo : Memo} (h : Sound byId dag memo)
    {before : CriticalPathState} (hstate : StateOf byId dag id { before with
      finishedOffsetMs := max before.finishedOffsetMs before.predecessorFinishedOffsetMs }) :
    Sound byId dag (remember id before memo).2 := by
  intro id' state hstate'
  rw [CriticalPath.remember] at hstate'
  dsimp only at hstate'
  rw [Function.update_apply] at hstate'
  split at hstate'
  · rename_i heq
    obtain rfl := Option.some.inj hstate'
    exact heq ▸ hstate
  · exact h id' state hstate'

/-- Every dependency names an outcome, of a lower rank. -/
def Ranked (byId : String → Option StepOutcome) (rank : String → ℕ) : Prop :=
  ∀ id step, byId id = some step → ∀ d ∈ step.dependsOn, (byId d).isSome ∧ rank d < rank id

theorem visitAll_spec {visit : String → Memo → Option (Option CriticalPathState × Memo)}
    {ids : List String}
    (hvisit : ∀ id ∈ ids, ∀ memo, Sound byId dag memo → ∃ state memo',
      visit id memo = some (some state, memo') ∧ StateOf byId dag id state ∧ Sound byId dag memo')
    {memo : Memo} (hmemo : Sound byId dag memo) :
    ∃ states memo', visitAll visit ids memo = some (states, memo') ∧
      List.Forall₂ (StateOf byId dag) ids states ∧ Sound byId dag memo' := by
  induction ids generalizing memo with
  | nil => exact ⟨[], memo, rfl, .nil, hmemo⟩
  | cons id ids ih =>
      obtain ⟨hfirst, hrest⟩ := List.forall_mem_cons.1 hvisit
      obtain ⟨state, memo₁, hstate, hof, hmemo₁⟩ := hfirst memo hmemo
      obtain ⟨states, memo₂, hstates, hall, hmemo₂⟩ := ih hrest hmemo₁
      refine ⟨state :: states, memo₂, ?_, .cons hof hall, hmemo₂⟩
      rw [visitAll, hstate]
      dsimp only
      rw [hstates]
      rfl

/-- The states of a list as a function of the ids. -/
theorem exists_states {ids : List String} {states : List CriticalPathState}
    (h : List.Forall₂ (StateOf byId dag) ids states) : ∃ f : String → CriticalPathState,
      (∀ id ∈ ids, StateOf byId dag id (f id)) ∧ states = ids.map f := by
  have hall : ∀ id ∈ ids, ∃ state, StateOf byId dag id state := by
    intro id hid
    obtain ⟨i, hi, rfl⟩ := List.mem_iff_getElem.1 hid
    exact ⟨_, (List.forall₂_iff_get.1 h).2 i hi (h.length_eq ▸ hi)⟩
  choose! f hf using hall
  refine ⟨f, hf, ?_⟩
  induction h with
  | nil => rfl
  | cons hstate _ ih =>
      obtain ⟨hfirst, hrest⟩ := List.forall_mem_cons.1 hf
      rw [List.map_cons, hstate.unique hfirst, ← ih hrest]

/-- With fuel for its rank, an id is given its state. -/
theorem visit_spec {rank : String → ℕ} (hrank : Ranked byId rank) {fuel : ℕ} {id : String}
    {memo : Memo} (hid : (byId id).isSome) (hfuel : rank id < fuel) (hmemo : Sound byId dag memo) :
    ∃ state memo', CriticalPath.visit byId dag fuel id memo = some (some state, memo') ∧
      StateOf byId dag id state ∧ Sound byId dag memo' := by
  induction fuel generalizing id memo with
  | zero => exact absurd hfuel (Nat.not_lt_zero _)
  | succ fuel ih =>
      obtain ⟨step, hstep⟩ := Option.isSome_iff_exists.1 hid
      rw [CriticalPath.visit]
      cases hmem : memo id with
      | some state => exact ⟨state, memo, rfl, hmemo id state hmem, hmemo⟩
      | none =>
          dsimp only
          rw [hstep]
          dsimp only
          split
          · rename_i hroot
            have hof : StateOf byId dag id _ := .root hstep hroot
            exact ⟨_, _, rfl, hof, hmemo.remember hof⟩
          · rename_i hne
            obtain ⟨states, memo', hstates, hall, hmemo'⟩ := visitAll_spec
              (fun d hd memo hmemo => ih (hrank id step hstep d hd).1
                (lt_of_lt_of_le (hrank id step hstep d hd).2 (Nat.lt_succ_iff.1 hfuel)) hmemo) hmemo
            obtain ⟨f, hf, rfl⟩ := exists_states hall
            obtain ⟨selected, hin, hpop, hgreatest⟩ :=
              CriticalPathState.popGreatest_spec (mt List.map_eq_nil_iff.1 hne)
            obtain ⟨latest, hlatest, rfl⟩ := List.mem_map.1 hin
            have hof := StateOf.node hstep f hf hlatest
              fun d hd => hgreatest _ (List.mem_map_of_mem hd)
            rw [hstates]
            dsimp only
            rw [hpop]
            exact ⟨_, _, rfl, hof, hmemo'.remember hof⟩

/-! ## Outcomes with distinct ids -/

/-- Outcomes of steps that ran after their dependencies, which have no cycle. -/
structure Consistent (steps : List StepOutcome) (rank : ℕ → ℕ) : Prop where
  ne_nil : steps ≠ []
  nodup : (steps.map (·.id)).Nodup
  known : ∀ b ∈ steps, ∀ d ∈ b.dependsOn, ∃ a ∈ steps, a.id = d ∧ rank a.index < rank b.index ∧
    a.finishedOffsetMs ≤ b.startedOffsetMs
  started : ∀ a ∈ steps, a.startedOffsetMs ≤ a.finishedOffsetMs

variable {steps steps' : List StepOutcome} {rank : ℕ → ℕ} {step : StepOutcome}

theorem byId_eq_some (hnodup : (steps.map (·.id)).Nodup) :
    CriticalPath.byId steps id = some step ↔ step ∈ steps ∧ step.id = id := by
  constructor
  · intro h
    exact ⟨List.mem_reverse.1 (List.mem_of_find?_eq_some h), by simpa using List.find?_some h⟩
  · rintro ⟨hin, rfl⟩
    cases hfind : CriticalPath.byId steps step.id with
    | none =>
        have := List.find?_eq_none.1 hfind step (List.mem_reverse.2 hin)
        simp at this
    | some step' =>
        have hin' := List.mem_reverse.1 (List.mem_of_find?_eq_some hfind)
        have hid : step'.id = step.id := by simpa using List.find?_some hfind
        rw [List.inj_on_of_nodup_map hnodup hin' hin hid]

theorem Consistent.ranked (h : Consistent steps rank) : Ranked (CriticalPath.byId steps)
    fun id => ((CriticalPath.byId steps id).map fun step => rank step.index).getD 0 := by
  intro id step hstep d hd
  obtain ⟨a, ha, rfl, hrank, -⟩ := h.known step ((byId_eq_some h.nodup).1 hstep).1 d hd
  have hbyId : CriticalPath.byId steps a.id = some a := (byId_eq_some h.nodup).2 ⟨ha, rfl⟩
  dsimp only
  rw [hbyId, hstep]
  exact ⟨rfl, hrank⟩

/-- A step that finished after its dependencies has its own finish time in its state. -/
theorem StateOf.finished (h : Consistent steps rank)
    (hstate : StateOf (CriticalPath.byId steps) dag id state) : ∃ step ∈ steps, step.id = id ∧
      state.finishedOffsetMs = step.finishedOffsetMs := by
  induction hstate with
  | root hstep =>
      obtain ⟨hin, hid⟩ := (byId_eq_some h.nodup).1 hstep
      exact ⟨_, hin, hid, max_eq_left (h.started _ hin)⟩
  | node hstep states _ hlatest _ ih =>
      obtain ⟨hin, hid⟩ := (byId_eq_some h.nodup).1 hstep
      obtain ⟨a, ha, haid, hfinished⟩ := ih _ hlatest
      obtain ⟨a', ha', haid', -, hle⟩ := h.known _ hin _ hlatest
      obtain rfl := List.inj_on_of_nodup_map h.nodup ha ha' (haid.trans haid'.symm)
      refine ⟨_, hin, hid, max_eq_left ?_⟩
      rw [hfinished]
      exact hle.trans (h.started _ hin)

/-- `b` was waiting for `a`, the last of its dependencies to finish. -/
def LatestPredecessor (steps : List StepOutcome) (a b : StepOutcome) : Prop :=
  a.id ∈ b.dependsOn ∧
    ∀ q ∈ steps, q.id ∈ b.dependsOn → q.finishedOffsetMs ≤ a.finishedOffsetMs

/-- The chain of the latest predecessors of a step. -/
structure PathTo (steps : List StepOutcome) (path : List StepOutcome) (last : StepOutcome) : Prop where
  sub : ∀ step ∈ path, step ∈ steps
  first : ∃ step, path.head? = some step ∧ step.dependsOn = []
  chain : path.IsChain (LatestPredecessor steps)
  last : path.getLast? = some last

theorem StateOf.path (h : Consistent steps rank)
    (hstate : StateOf (CriticalPath.byId steps) dag id state) : ∃ step ∈ steps, step.id = id ∧
      ∃ path, PathTo steps path step ∧ path.map (·.id) = state.ids := by
  induction hstate with
  | root hstep hroot =>
      obtain ⟨hin, hid⟩ := (byId_eq_some h.nodup).1 hstep
      refine ⟨_, hin, hid, [_], ⟨by simpa using hin, ⟨_, rfl, hroot⟩, .singleton _, rfl⟩, rfl⟩
  | @node id step hstep states hstates latest hlatest hgreatest ih =>
      obtain ⟨hin, hid⟩ := (byId_eq_some h.nodup).1 hstep
      obtain ⟨a, ha, rfl, path, hpath, hids⟩ := ih _ hlatest
      refine ⟨step, hin, hid, path ++ [step], ⟨fun s hs => ?_, ?_, ?_, by simp⟩, by simp [hids]⟩
      · rcases List.mem_append.1 hs with hs | hs
        · exact hpath.sub s hs
        · exact List.mem_singleton.1 hs ▸ hin
      · obtain ⟨first, hfirst, hroot⟩ := hpath.first
        refine ⟨first, ?_, hroot⟩
        rw [List.head?_append, hfirst]
        rfl
      · refine List.IsChain.append hpath.chain (.singleton _) fun x hx y hy => ?_
        rw [hpath.last] at hx
        obtain rfl := Option.some.inj hx
        obtain rfl := Option.some.inj hy
        refine ⟨hlatest, fun q hq hdep => ?_⟩
        obtain ⟨q', hq', hqid, hqf⟩ := (hstates _ hdep).finished h
        obtain ⟨a', ha', haid, haf⟩ := (hstates _ hlatest).finished h
        obtain rfl := List.inj_on_of_nodup_map h.nodup hq' hq hqid
        obtain rfl := List.inj_on_of_nodup_map h.nodup ha' ha haid
        rw [← hqf, ← haf]
        exact CriticalPathState.finished_le (hgreatest _ hdep)

/-! ## The result -/

theorem exists_greatest (f : StepOutcome → ℕ) (hne : steps ≠ []) :
    ∃ top ∈ steps, ∀ other ∈ steps, f other ≤ f top := by
  obtain ⟨top, hin, hmax⟩ := steps.toFinset.exists_max_image f (List.toFinset_nonempty_iff _ |>.2 hne)
  exact ⟨top, List.mem_toFinset.1 hin, fun other hother => hmax other (List.mem_toFinset.2 hother)⟩

theorem mem_terminals : step ∈ terminals steps ↔
    step ∈ steps ∧ ∀ b ∈ steps, step.id ∉ b.dependsOn := by
  simp [terminals]

/-- Something is not waited for. -/
theorem Consistent.exists_terminal (h : Consistent steps rank) : terminals steps ≠ [] := by
  -- a step of the highest rank
  obtain ⟨step, hin, hmax⟩ := exists_greatest (fun s => rank s.index) h.ne_nil
  refine List.ne_nil_of_mem (mem_terminals.2 ⟨hin, fun b hb hdep => ?_⟩)
  obtain ⟨a, ha, haid, hlt, -⟩ := h.known b hb _ hdep
  obtain rfl := List.inj_on_of_nodup_map h.nodup ha hin haid
  exact absurd (hmax b hb) (not_le.2 hlt)

/-- The greatest of the states of the terminal steps. -/
structure Greatest (steps : List StepOutcome) (dag : ℕ) (last : StepOutcome)
    (state : CriticalPathState) : Prop where
  terminal : last ∈ terminals steps
  stateOf : StateOf (CriticalPath.byId steps) dag last.id state
  greatest : ∀ t ∈ terminals steps, ∃ other,
    StateOf (CriticalPath.byId steps) dag t.id other ∧ (other.compare state).isLE = true

/-- The walk ends, with the greatest state. -/
theorem Consistent.observed (h : Consistent steps rank) : ∃ last state,
    Greatest steps (dagStartedOffsetMs steps) last state ∧ ∃ fuel₀, ∀ fuel, fuel₀ ≤ fuel →
      observedCriticalPath fuel steps = some (state.ids, state.latencyMs) := by
  let idRank := fun id => ((CriticalPath.byId steps id).map fun step => rank step.index).getD 0
  obtain ⟨top, -, htop⟩ := exists_greatest (fun s => idRank s.id) h.ne_nil
  have hvisit : ∀ fuel, idRank top.id + 1 ≤ fuel → ∀ id ∈ (terminals steps).map (·.id), ∀ memo,
      Sound (CriticalPath.byId steps) (dagStartedOffsetMs steps) memo → ∃ state memo',
        CriticalPath.visit (CriticalPath.byId steps) (dagStartedOffsetMs steps) fuel id memo =
          some (some state, memo') ∧
        StateOf (CriticalPath.byId steps) (dagStartedOffsetMs steps) id state ∧
        Sound (CriticalPath.byId steps) (dagStartedOffsetMs steps) memo' := by
    intro fuel hfuel id hid memo hmemo
    obtain ⟨t, ht, rfl⟩ := List.mem_map.1 hid
    have hin := (mem_terminals.1 ht).1
    refine visit_spec h.ranked ?_ (lt_of_le_of_lt (htop t hin) (Nat.lt_of_succ_le hfuel)) hmemo
    rw [(byId_eq_some h.nodup).2 ⟨hin, rfl⟩]
    rfl
  -- the states do not depend on the fuel
  have hwalk : ∀ fuel, idRank top.id + 1 ≤ fuel → ∃ states memo,
      visitAll (CriticalPath.visit (CriticalPath.byId steps) (dagStartedOffsetMs steps) fuel)
        ((terminals steps).map (·.id)) (fun _ => none) = some (states, memo) ∧
      List.Forall₂ (StateOf (CriticalPath.byId steps) (dagStartedOffsetMs steps))
        ((terminals steps).map (·.id)) states := by
    intro fuel hfuel
    have hmemo : Sound (CriticalPath.byId steps) (dagStartedOffsetMs steps) fun _ => none := nofun
    obtain ⟨states, memo, hstates, hall, -⟩ := visitAll_spec (hvisit fuel hfuel) hmemo
    exact ⟨states, memo, hstates, hall⟩
  obtain ⟨states, -, -, hall⟩ := hwalk _ le_rfl
  obtain ⟨f, hf, rfl⟩ := exists_states hall
  rw [List.map_map] at hall
  have hne : ((terminals steps).map (·.id)).map f ≠ [] := by simpa using h.exists_terminal
  obtain ⟨state, hin, hpop, hgreatest⟩ := CriticalPathState.popGreatest_spec hne
  obtain ⟨_, hid, rfl⟩ := List.mem_map.1 hin
  obtain ⟨last, hlast, rfl⟩ := List.mem_map.1 hid
  refine ⟨last, f last.id, ⟨hlast, hf _ hid, fun t ht => ?_⟩, idRank top.id + 1, fun fuel hfuel => ?_⟩
  · have hin := List.mem_map_of_mem (f := (·.id)) ht
    exact ⟨f t.id, hf _ hin, hgreatest _ (List.mem_map_of_mem hin)⟩
  · obtain ⟨states', memo, hstates', hall'⟩ := hwalk fuel hfuel
    obtain ⟨f', hf', rfl⟩ := exists_states hall'
    have hsame : ((terminals steps).map (·.id)).map f' = ((terminals steps).map (·.id)).map f :=
      List.map_congr_left fun id hid => (hf' id hid).unique (hf id hid)
    rw [observedCriticalPath, if_neg h.ne_nil, hstates']
    dsimp only
    rw [hsame, hpop]

/-! ## Other listings of the same outcomes -/

/-- The same outcome, with its dependencies in another order. -/
structure Alike (a b : StepOutcome) : Prop where
  index : b.index = a.index
  sameId : b.id = a.id
  dependsOn : a.dependsOn.Perm b.dependsOn
  started : b.startedOffsetMs = a.startedOffsetMs
  finished : b.finishedOffsetMs = a.finishedOffsetMs

/-- The same outcomes in another order, each with its dependencies in another order. -/
def Relisted (steps steps' : List StepOutcome) : Prop :=
  ∃ listed, steps.Perm listed ∧ List.Forall₂ Alike listed steps'

theorem Alike.symm {a b : StepOutcome} (h : Alike a b) : Alike b a :=
  ⟨h.index.symm, h.sameId.symm, h.dependsOn.symm, h.started.symm, h.finished.symm⟩

theorem Alike.mem_dependsOn {a b : StepOutcome} (h : Alike a b) {d : String} :
    d ∈ b.dependsOn ↔ d ∈ a.dependsOn := h.dependsOn.mem_iff.symm

theorem Alike.eq_update {a b : StepOutcome} (h : Alike a b) :
    b = { a with dependsOn := b.dependsOn } := by
  cases b
  simp only [StepOutcome.mk.injEq, true_and]
  exact ⟨h.index, h.sameId, h.started, h.finished⟩

theorem mem_of_forall₂ {listed : List StepOutcome} (h : List.Forall₂ Alike listed steps')
    {a : StepOutcome} (ha : a ∈ listed) : ∃ b ∈ steps', Alike a b := by
  induction h with
  | nil => cases ha
  | cons hhead _ ih =>
      rcases List.mem_cons.1 ha with rfl | ha
      · exact ⟨_, List.mem_cons_self, hhead⟩
      · obtain ⟨b, hb, hab⟩ := ih ha
        exact ⟨b, List.mem_cons_of_mem _ hb, hab⟩

theorem Relisted.mem (h : Relisted steps steps') {a : StepOutcome} (ha : a ∈ steps) :
    ∃ b ∈ steps', Alike a b := by
  obtain ⟨listed, hperm, hlisted⟩ := h
  exact mem_of_forall₂ hlisted (hperm.mem_iff.1 ha)

theorem Relisted.mem_inv (h : Relisted steps steps') {b : StepOutcome} (hb : b ∈ steps') :
    ∃ a ∈ steps, Alike a b := by
  obtain ⟨listed, hperm, hlisted⟩ := h
  have hflip : List.Forall₂ Alike steps' listed :=
    (hlisted.imp fun a b (hab : Alike a b) => (hab.symm : Function.swap Alike a b)).flip
  obtain ⟨a, ha, hba⟩ := mem_of_forall₂ hflip hb
  exact ⟨a, hperm.mem_iff.2 ha, hba.symm⟩

theorem Relisted.nodup (h : Relisted steps steps') (hnodup : (steps.map (·.id)).Nodup) :
    (steps'.map (·.id)).Nodup := by
  obtain ⟨listed, hperm, hlisted⟩ := h
  have hsame : listed.map (·.id) = steps'.map (·.id) := by
    clear hperm
    induction hlisted with
    | nil => rfl
    | cons hhead _ ih => rw [List.map_cons, List.map_cons, hhead.sameId, ih]
  rw [← hsame]
  exact (hperm.map _).nodup_iff.1 hnodup

theorem Consistent.relist (h : Consistent steps rank) (hlist : Relisted steps steps') :
    Consistent steps' rank := by
  refine ⟨?_, hlist.nodup h.nodup, fun b' hb' d hd => ?_, fun a' ha' => ?_⟩
  · obtain ⟨a, ha⟩ := List.exists_mem_of_ne_nil _ h.ne_nil
    obtain ⟨a', ha', -⟩ := hlist.mem ha
    exact List.ne_nil_of_mem ha'
  · obtain ⟨b, hb, hbb⟩ := hlist.mem_inv hb'
    obtain ⟨a, ha, hid, hrank, hle⟩ := h.known b hb d (hbb.mem_dependsOn.1 hd)
    obtain ⟨a', ha', haa⟩ := hlist.mem ha
    rw [haa.symm.sameId] at hid
    rw [← haa.index, ← hbb.index] at hrank
    rw [← haa.finished, ← hbb.started] at hle
    exact ⟨a', ha', hid, hrank, hle⟩
  · obtain ⟨a, ha, haa⟩ := hlist.mem_inv ha'
    rw [haa.started, haa.finished]
    exact h.started a ha

theorem byId_relist (h : Consistent steps rank) (hlist : Relisted steps steps') (id : String)
    (step : StepOutcome) (hstep : CriticalPath.byId steps id = some step) :
    ∃ step', CriticalPath.byId steps' id = some step' ∧
      step' = { step with dependsOn := step'.dependsOn } ∧
      step.dependsOn.Perm step'.dependsOn := by
  obtain ⟨hin, rfl⟩ := (byId_eq_some h.nodup).1 hstep
  obtain ⟨step', hin', halike⟩ := hlist.mem hin
  exact ⟨step', (byId_eq_some (h.relist hlist).nodup).2 ⟨hin', halike.sameId⟩,
    halike.eq_update, halike.dependsOn⟩

theorem min?_congr {xs ys : List ℕ} (h : ∀ x, x ∈ xs ↔ x ∈ ys) : xs.min? = ys.min? := by
  cases hmin : xs.min? with
  | none =>
      rw [List.min?_eq_none_iff] at hmin
      subst hmin
      have : ys = [] := List.eq_nil_iff_forall_not_mem.2 fun y hy => by simpa using (h y).2 hy
      simp [this]
  | some low =>
      obtain ⟨hin, hle⟩ := List.min?_eq_some_iff.1 hmin
      exact (List.min?_eq_some_iff.2 ⟨(h low).1 hin, fun y hy => hle y ((h y).2 hy)⟩).symm

theorem mem_started (hlist : Relisted steps steps') {p : StepOutcome → Prop} [DecidablePred p]
    (hp : ∀ a b, Alike a b → (p a ↔ p b)) (x : ℕ) :
    x ∈ (steps.filter fun s => p s).map (·.startedOffsetMs) ↔
      x ∈ (steps'.filter fun s => p s).map (·.startedOffsetMs) := by
  simp only [List.mem_map, List.mem_filter, decide_eq_true_eq]
  constructor
  · rintro ⟨a, ⟨ha, hpa⟩, rfl⟩
    obtain ⟨b, hb, hab⟩ := hlist.mem ha
    exact ⟨b, ⟨hb, (hp a b hab).1 hpa⟩, hab.started⟩
  · rintro ⟨b, ⟨hb, hpb⟩, rfl⟩
    obtain ⟨a, ha, hab⟩ := hlist.mem_inv hb
    exact ⟨a, ⟨ha, (hp a b hab).2 hpb⟩, hab.started.symm⟩

theorem Relisted.dagStarted (hlist : Relisted steps steps') :
    dagStartedOffsetMs steps = dagStartedOffsetMs steps' := by
  have hroots : ∀ a b, Alike a b → (a.dependsOn = [] ↔ b.dependsOn = []) := fun a b hab =>
    ⟨fun h => (h ▸ hab.dependsOn).nil_eq.symm, fun h => (h ▸ hab.dependsOn).eq_nil⟩
  have hall := mem_started hlist (p := fun _ => True) fun _ _ _ => Iff.rfl
  simp only [decide_true, List.filter_true] at hall
  rw [dagStartedOffsetMs, dagStartedOffsetMs, min?_congr (mem_started hlist hroots),
    min?_congr hall]

theorem Alike.mem_terminals (hlist : Relisted steps steps') {a b : StepOutcome} (hab : Alike a b)
    (ha : a ∈ steps) (hb : b ∈ steps') : a ∈ terminals steps ↔ b ∈ terminals steps' := by
  rw [CriticalPath.mem_terminals, CriticalPath.mem_terminals]
  refine ⟨fun h => ⟨hb, fun c' hc' hin => ?_⟩, fun h => ⟨ha, fun c hc hin => ?_⟩⟩
  · obtain ⟨c, hc, hcc⟩ := hlist.mem_inv hc'
    exact h.2 c hc (hcc.mem_dependsOn.1 (hab.sameId ▸ hin))
  · obtain ⟨c', hc', hcc⟩ := hlist.mem hc
    exact h.2 c' hc' (hcc.mem_dependsOn.2 (hab.sameId.symm ▸ hin))

theorem Greatest.relist {last : StepOutcome} (h : Consistent steps rank)
    (hlist : Relisted steps steps') (hgreatest : Greatest steps dag last state) :
    ∃ last', Greatest steps' dag last' state := by
  have hin := (CriticalPath.mem_terminals.1 hgreatest.terminal).1
  obtain ⟨last', hlast', hsame⟩ := hlist.mem hin
  refine ⟨last', (hsame.mem_terminals hlist hin hlast').1 hgreatest.terminal, ?_, fun t' ht' => ?_⟩
  · rw [hsame.sameId]
    exact hgreatest.stateOf.relist (byId_relist h hlist)
  · have hin' := (CriticalPath.mem_terminals.1 ht').1
    obtain ⟨t, ht, htt⟩ := hlist.mem_inv hin'
    obtain ⟨other, hother, hle⟩ := hgreatest.greatest t ((htt.mem_terminals hlist ht hin').2 ht')
    refine ⟨other, ?_, hle⟩
    rw [htt.sameId]
    exact hother.relist (byId_relist h hlist)

/-- The greatest states of two terminal steps are alike in all that is reported. -/
theorem Greatest.unique {last last' : StepOutcome} (h : Greatest steps dag last state)
    (h' : Greatest steps dag last' state') :
    state.ids = state'.ids ∧ state.latencyMs = state'.latencyMs := by
  obtain ⟨other, hother, hle⟩ := h'.greatest last h.terminal
  obtain ⟨other', hother', hle'⟩ := h.greatest last' h'.terminal
  rw [hother.unique h.stateOf] at hle
  rw [hother'.unique h'.stateOf] at hle'
  obtain ⟨hfinished, hids⟩ := CriticalPathState.eq_of_le_of_le hle hle'
  refine ⟨hids, ?_⟩
  rw [CriticalPathState.latencyMs, CriticalPathState.latencyMs, hfinished, h.stateOf.dagStarted,
    h'.stateOf.dagStarted]

/-- What the critical path of the outcomes of an instance is to be. -/
def Correct (steps : List StepOutcome) : Prop :=
  ∃ ids latencyMs,
    (∃ fuel₀, ∀ fuel, fuel₀ ≤ fuel → observedCriticalPath fuel steps = some (ids, latencyMs)) ∧
    (∃ path last, path.map (·.id) = ids ∧ PathTo steps path last ∧ last ∈ terminals steps ∧
      ∀ t ∈ terminals steps, t.finishedOffsetMs ≤ last.finishedOffsetMs) ∧
    ∀ steps', Relisted steps steps' →
      ∃ fuel₀, ∀ fuel, fuel₀ ≤ fuel → observedCriticalPath fuel steps' = some (ids, latencyMs)

theorem Consistent.correct (h : Consistent steps rank) : Correct steps := by
  obtain ⟨last, state, hgreatest, hobserved⟩ := h.observed
  refine ⟨state.ids, state.latencyMs, hobserved, ?_, fun steps' hlist => ?_⟩
  · have hin := (mem_terminals.1 hgreatest.terminal).1
    obtain ⟨step, hstep, hid, path, hpath, hids⟩ := hgreatest.stateOf.path h
    obtain rfl := List.inj_on_of_nodup_map h.nodup hstep hin hid
    refine ⟨path, step, hids, hpath, hgreatest.terminal, fun t ht => ?_⟩
    obtain ⟨other, hother, hle⟩ := hgreatest.greatest t ht
    obtain ⟨t', ht', hid', hfinished⟩ := hother.finished h
    obtain rfl := List.inj_on_of_nodup_map h.nodup ht' (mem_terminals.1 ht).1 hid'
    obtain ⟨step', hstep', hid, hlast⟩ := hgreatest.stateOf.finished h
    obtain rfl := List.inj_on_of_nodup_map h.nodup hstep' hin hid
    rw [← hfinished, ← hlast]
    exact CriticalPathState.finished_le hle
  · obtain ⟨last', hgreatest'⟩ := hgreatest.relist h hlist
    obtain ⟨last'', state', hfound, hobserved'⟩ := (h.relist hlist).observed
    rw [← hlist.dagStarted] at hfound
    obtain ⟨hids, hlatency⟩ := hgreatest'.unique hfound
    rw [hids, hlatency]
    exact hobserved'

end CriticalPath

/-! ## Instances of a scenario -/

namespace ScenarioDef

/-- Steps that must finish before `index` starts. -/
def stepDependencies (sc : ScenarioDef) (index : ℕ) : List String :=
  match sc.execution with
  | .sequential =>
    if index = 0 then []
    else (sc.steps[index - 1]?.map (·.effectiveId (index - 1))).toList
  | .dag => (sc.steps[index]?.map (·.dependsOn)).getD []

def stepIds (sc : ScenarioDef) : List String :=
  sc.steps.zipIdx.map fun (step, index) => step.effectiveId index

/-- The outcomes of an instance whose steps all succeeded: each ran once, after the steps that it has
    to wait for. -/
structure Succeeded (sc : ScenarioDef) (outcomes : List StepOutcome) : Prop where
  length : outcomes.length = sc.steps.length
  index : ∀ (i : ℕ) (a : StepOutcome), outcomes[i]? = some a → a.index = i
  id : ∀ (i : ℕ) (a : StepOutcome), outcomes[i]? = some a → sc.stepIds[i]? = some a.id
  dependsOn : ∀ (i : ℕ) (a : StepOutcome), outcomes[i]? = some a →
    a.dependsOn = sc.stepDependencies i
  started : ∀ a ∈ outcomes, a.startedOffsetMs ≤ a.finishedOffsetMs
  ordered : ∀ (i j : ℕ) (a b : StepOutcome), outcomes[i]? = some a → outcomes[j]? = some b →
    sc.DirectlyPrecedes i j → a.finishedOffsetMs ≤ b.startedOffsetMs

variable {sc : ScenarioDef} {outcomes : List StepOutcome}

theorem stepIds_getElem? (sc : ScenarioDef) (i : ℕ) :
    sc.stepIds[i]? = sc.steps[i]?.map (·.effectiveId i) := by
  simp only [stepIds, List.getElem?_map, List.getElem?_zipIdx, Option.map_map, zero_add]
  rfl

theorem Succeeded.ids (h : sc.Succeeded outcomes) : outcomes.map (·.id) = sc.stepIds := by
  refine List.ext_getElem? fun i => ?_
  rw [List.getElem?_map]
  cases houtcome : outcomes[i]? with
  | some a => exact (h.id i a houtcome).symm
  | none =>
      rw [stepIds_getElem?, List.getElem?_eq_none (h.length ▸ List.getElem?_eq_none_iff.1 houtcome)]
      rfl

/-- The order in which the steps wait for each other, as a rank. -/
def Ranks (sc : ScenarioDef) (rank : ℕ → ℕ) : Prop :=
  ∀ j d, d ∈ sc.stepDependencies j → j < sc.steps.length →
    ∃ i, sc.stepIds[i]? = some d ∧ sc.DirectlyPrecedes i j ∧ rank i < rank j

theorem Succeeded.consistent (h : sc.Succeeded outcomes) (hne : sc.steps ≠ [])
    (hnodup : sc.stepIds.Nodup) {rank : ℕ → ℕ} (hrank : sc.Ranks rank) :
    CriticalPath.Consistent outcomes rank := by
  refine ⟨?_, h.ids ▸ hnodup, fun b hb d hd => ?_, h.started⟩
  · rintro rfl
    exact hne (List.length_eq_zero_iff.1 h.length.symm)
  · obtain ⟨j, hj⟩ := List.mem_iff_getElem?.1 hb
    rw [h.dependsOn j b hj] at hd
    have hlt : j < sc.steps.length := h.length ▸ (List.getElem?_eq_some_iff.1 hj).1
    obtain ⟨i, hid, hprecedes, hlow⟩ := hrank j d hd hlt
    rw [← h.ids, List.getElem?_map, Option.map_eq_some_iff] at hid
    obtain ⟨a, hi, rfl⟩ := hid
    refine ⟨a, List.mem_of_getElem? hi, rfl, ?_, h.ordered i j a b hi hj hprecedes⟩
    rwa [h.index i a hi, h.index j b hj]

theorem ranks_sequential (hmode : sc.execution = .sequential) : sc.Ranks id := by
  intro j d hd hj
  simp only [stepDependencies, hmode] at hd
  split at hd
  · cases hd
  · rename_i hpos
    refine ⟨j - 1, ?_, ?_, by simp only [id]; omega⟩
    · rw [stepIds_getElem?]
      exact Option.mem_toList.1 hd
    · rw [DirectlyPrecedes, hmode]
      exact ⟨by omega, hj⟩

theorem ranks_dag (hmode : sc.execution = .dag) {ids : StepIds} (h : sc.DagIds ids) {rank : ℕ → ℕ}
    (hrank : ∀ {u v : ℕ}, h.graph.Edge u v → rank u < rank v) : sc.Ranks rank := by
  intro j d hd hj
  simp only [stepDependencies, hmode] at hd
  rw [List.getElem?_eq_getElem hj] at hd
  have hin : sc.steps[j] ∈ sc.steps := List.getElem_mem hj
  obtain ⟨i, hi⟩ := Option.isSome_iff_exists.1 (h.found _ hin d hd)
  obtain ⟨a, ha, rfl⟩ := (h.lookup_iff d i).1 hi
  have hprecedes : sc.DirectlyPrecedes i j := by
    rw [DirectlyPrecedes, hmode]
    exact ⟨a, _, ha, List.getElem?_eq_getElem hj, hd⟩
  refine ⟨i, ?_, hprecedes, hrank ((h.edge_iff hmode).2 hprecedes)⟩
  rw [stepIds_getElem?, ha]
  rfl

theorem DagIds.stepIds_nodup {ids : StepIds} (h : sc.DagIds ids) : sc.stepIds.Nodup := by
  refine List.nodup_iff_injective_getElem.2 fun i j hij => ?_
  have hget : ∀ k : Fin sc.stepIds.length, ∃ step, sc.steps[k.1]? = some step ∧
      sc.stepIds[k] = step.effectiveId k := by
    intro k
    have hk := List.getElem?_eq_getElem k.2
    rw [stepIds_getElem?, Option.map_eq_some_iff] at hk
    obtain ⟨step, hstep, hid⟩ := hk
    exact ⟨step, hstep, hid.symm⟩
  obtain ⟨a, ha, hida⟩ := hget i
  obtain ⟨b, hb, hidb⟩ := hget j
  exact Fin.ext (h.effectiveId_inj ha hb (hida.symm.trans (hij.trans hidb)))

/-! ## Two steps of one ID -/

/-- The last ID that stands for a later step too. -/
theorem exists_last_duplicate {ids : List String} (h : ¬ ids.Nodup) : ∃ i j, i < j ∧
    (∃ id, ids[i]? = some id ∧ ids[j]? = some id) ∧
    ∀ k, i < k → ∀ m, k < m → m < ids.length → ids[k]? ≠ ids[m]? := by
  let Duplicated := fun i : ℕ => ∃ j, i < j ∧ ∃ id, ids[i]? = some id ∧ ids[j]? = some id
  have hbound : ∀ i, Duplicated i → i ≤ ids.length := by
    rintro i ⟨j, -, id, hi, -⟩
    exact (List.getElem?_eq_some_iff.1 hi).1.le
  obtain ⟨i, hi⟩ : ∃ i, Duplicated i := by
    rw [List.nodup_iff_getElem?_ne_getElem?] at h
    push Not at h
    obtain ⟨i, j, hij, hj, hsame⟩ := h
    exact ⟨i, j, hij, ids[j], hsame.trans (List.getElem?_eq_getElem hj), List.getElem?_eq_getElem hj⟩
  classical
  obtain ⟨j, hij, hid⟩ := Nat.findGreatest_spec (P := Duplicated) (hbound i hi) hi
  refine ⟨_, j, hij, hid, fun k hk m hkm hm hsame => ?_⟩
  have hdup : Duplicated k :=
    ⟨m, hkm, ids[m], hsame.trans (List.getElem?_eq_getElem hm), List.getElem?_eq_getElem hm⟩
  exact Nat.findGreatest_is_greatest hk (hbound k hdup) hdup

theorem Succeeded.byId_last (h : sc.Succeeded outcomes) {k : ℕ} {a : StepOutcome}
    (ha : outcomes[k]? = some a)
    (hlast : ∀ m, k < m → m < sc.stepIds.length → sc.stepIds[k]? ≠ sc.stepIds[m]?) :
    CriticalPath.byId outcomes a.id = some a := by
  obtain ⟨hlt, hstep⟩ := List.getElem?_eq_some_iff.1 ha
  have hsplit : outcomes = outcomes.take k ++ outcomes[k] :: outcomes.drop (k + 1) := by
    rw [List.getElem_cons_drop, List.take_append_drop]
  refine List.find?_eq_some_iff_append.2 ⟨by simp, (outcomes.drop (k + 1)).reverse,
    (outcomes.take k).reverse, ?_, fun later hlater => ?_⟩
  · conv_lhs => rw [hsplit, hstep]
    simp
  · -- a later step with this ID would be the one found
    obtain ⟨n, hn⟩ := List.mem_iff_getElem?.1 (List.mem_reverse.1 hlater)
    rw [List.getElem?_drop] at hn
    have hid := h.id _ _ hn
    have hne := hlast (k + 1 + n) (by omega) (List.getElem?_eq_some_iff.1 hid).1
    rw [h.id k a ha, hid, ne_eq, Option.some.injEq] at hne
    simpa using Ne.symm hne

/-- A walk that reaches an ID of two steps does not end. -/
theorem Succeeded.visit_none (h : sc.Succeeded outcomes) (hmode : sc.execution = .sequential)
    {i j : ℕ} (hij : i < j) {id : String} (hi : sc.stepIds[i]? = some id)
    (hj : sc.stepIds[j]? = some id)
    (hlast : ∀ k, i < k → ∀ m, k < m → m < sc.stepIds.length →
      sc.stepIds[k]? ≠ sc.stepIds[m]?) (dag fuel : ℕ) {k : ℕ} (hk : i < k) {id' : String}
    (hid : sc.stepIds[k]? = some id') :
    CriticalPath.visit (CriticalPath.byId outcomes) dag fuel id' (fun _ => none) = none := by
  induction fuel generalizing k id' with
  | zero => rfl
  | succ fuel ih =>
      have hid' := hid
      rw [← h.ids, List.getElem?_map, Option.map_eq_some_iff] at hid'
      obtain ⟨a, ha, rfl⟩ := hid'
      -- the step before is the only dependency
      obtain ⟨before, hdeps, hbefore⟩ : ∃ before, a.dependsOn = [before] ∧
          sc.stepIds[k - 1]? = some before := by
        have hlt := (List.getElem?_eq_some_iff.1 hid).1
        have hbefore := List.getElem?_eq_getElem (show k - 1 < sc.stepIds.length by omega)
        refine ⟨_, ?_, hbefore⟩
        rw [stepIds_getElem?] at hbefore
        rw [h.dependsOn k a ha]
        simp only [stepDependencies, hmode]
        rw [if_neg (by omega), hbefore]
        rfl
      have hnone : CriticalPath.visit (CriticalPath.byId outcomes) dag fuel before
          (fun _ => none) = none := by
        by_cases hlt : i < k - 1
        · exact ih hlt hbefore
        · obtain rfl : i = k - 1 := by omega
          rw [hi] at hbefore
          exact Option.some.inj hbefore ▸ ih hij hj
      rw [CriticalPath.visit]
      dsimp only
      rw [h.byId_last ha (hlast k hk)]
      dsimp only
      rw [hdeps, if_neg (by simp), CriticalPath.visitAll, hnone]

/-- Of a sequence, only the last step can be waited for by none. -/
theorem Succeeded.getLast?_of_terminal (h : sc.Succeeded outcomes)
    (hmode : sc.execution = .sequential) {t : StepOutcome}
    (ht : t ∈ CriticalPath.terminals outcomes) : outcomes[outcomes.length - 1]? = some t := by
  obtain ⟨hin, hnone⟩ := CriticalPath.mem_terminals.1 ht
  obtain ⟨i, hi⟩ := List.mem_iff_getElem?.1 hin
  have hlt := (List.getElem?_eq_some_iff.1 hi).1
  have hlast : i = outcomes.length - 1 := by
    by_contra hne
    have hnext := List.getElem?_eq_getElem (show i + 1 < outcomes.length by omega)
    refine hnone _ (List.mem_of_getElem? hnext) ?_
    rw [h.dependsOn _ _ hnext]
    simp only [stepDependencies, hmode, Nat.add_sub_cancel]
    rw [if_neg (Nat.succ_ne_zero i), ← stepIds_getElem?, h.id i t hi]
    exact List.mem_singleton_self _
  rw [← hlast, hi]

/-- With a duplicate, the walk ends only where nothing is left to start at. -/
theorem Succeeded.observed_none (h : sc.Succeeded outcomes) (hmode : sc.execution = .sequential)
    (hdup : ¬ sc.stepIds.Nodup) (hterminals : CriticalPath.terminals outcomes ≠ []) (fuel : ℕ) :
    observedCriticalPath fuel outcomes = none := by
  obtain ⟨i, j, hij, ⟨id, hi, hj⟩, hlast⟩ := exists_last_duplicate hdup
  obtain ⟨last, rest, hterminals⟩ := List.exists_cons_of_ne_nil hterminals
  have hin : last ∈ CriticalPath.terminals outcomes := hterminals ▸ List.mem_cons_self
  have hend := h.getLast?_of_terminal hmode hin
  have hlength : sc.stepIds.length = outcomes.length := by rw [← h.ids, List.length_map]
  have hjlt := (List.getElem?_eq_some_iff.1 hj).1
  -- from the last step it comes to the duplicate
  have hnone := h.visit_none hmode hij hi hj hlast (CriticalPath.dagStartedOffsetMs outcomes) fuel
    (k := outcomes.length - 1) (by omega) (h.id _ _ hend)
  have hne : outcomes ≠ [] := List.ne_nil_of_mem (CriticalPath.mem_terminals.1 hin).1
  rw [observedCriticalPath, if_neg hne, hterminals, List.map_cons, CriticalPath.visitAll, hnone]

theorem Succeeded.nodup_of_correct (h : sc.Succeeded outcomes) (hmode : sc.execution = .sequential)
    (hcorrect : CriticalPath.Correct outcomes) : sc.stepIds.Nodup := by
  by_contra hdup
  obtain ⟨_, _, ⟨fuel₀, hobserved⟩, ⟨_, _, -, -, hterminal, -⟩, -⟩ := hcorrect
  have hobserved := hobserved fuel₀ le_rfl
  rw [h.observed_none hmode hdup (List.ne_nil_of_mem hterminal)] at hobserved
  cases hobserved

end ScenarioDef

/-! ## When the critical path is well defined -/

/-- An observed critical path is well defined just if no two steps have the same ID. -/
theorem observedCriticalPath_correct_iff {parseUrl : String → Option String} {spec : ScenarioSpec}
    (hok : spec.validate parseUrl = .ok ()) {outcomes : List StepOutcome}
    (h : spec.scenario.Succeeded outcomes) :
    CriticalPath.Correct outcomes ↔ spec.scenario.stepIds.Nodup := by
  obtain ⟨hne, hsteps⟩ := spec.validate_ok hok
  cases hmode : spec.scenario.execution with
  | sequential =>
      refine ⟨h.nodup_of_correct hmode, fun hnodup => ?_⟩
      exact (h.consistent hne hnodup (ScenarioDef.ranks_sequential hmode)).correct
  | dag =>
      obtain ⟨ancestors, hgraph⟩ := hsteps hmode
      obtain ⟨ids, hids, ⟨rank, hrank⟩, -⟩ := ScenarioDef.validateDagGraph_ok hgraph
      refine ⟨fun _ => hids.stepIds_nodup, fun hnodup => ?_⟩
      exact (h.consistent hne hnodup (ScenarioDef.ranks_dag hmode hids hrank)).correct

/-! ### Three steps, of which two have the ID `x` -/

namespace CriticalPathSample

def chain : ChainDef :=
  { network := "dev", rpcUrl := "rpc", observation := { pollInterval := 1 }, workload := "w.yml" }

def checkpoint (id save : Option String) : StepDef :=
  { id, action := .checkpoint { chain := "main" }, save }

/-- The second step has no ID but its save. -/
def spec (save : String) : ScenarioSpec :=
  { version := 1
    chains := [("main", chain)]
    scenario :=
      { name := "sample"
        steps := [checkpoint (some "x") none, checkpoint none (some save),
          checkpoint (some "y") none] } }

def outcomes (save : String) : List StepOutcome :=
  [⟨0, "x", [], 0, 1⟩, ⟨1, save, ["x"], 1, 2⟩, ⟨2, "y", [save], 2, 3⟩]

theorem succeeded (save : String) : (spec save).scenario.Succeeded (outcomes save) := by
  have hcases : ∀ (i : ℕ) (a : StepOutcome), (outcomes save)[i]? = some a →
      (i = 0 ∧ a = ⟨0, "x", [], 0, 1⟩) ∨ (i = 1 ∧ a = ⟨1, save, ["x"], 1, 2⟩) ∨
        (i = 2 ∧ a = ⟨2, "y", [save], 2, 3⟩) := by
    intro i a ha
    match i with
    | 0 => exact .inl ⟨rfl, (Option.some.inj ha).symm⟩
    | 1 => exact .inr (.inl ⟨rfl, (Option.some.inj ha).symm⟩)
    | 2 => exact .inr (.inr ⟨rfl, (Option.some.inj ha).symm⟩)
    | i + 3 => simp [outcomes] at ha
  refine ⟨rfl, fun i a ha => ?_, fun i a ha => ?_, fun i a ha => ?_, fun a ha => ?_,
    fun i j a b ha hb hij => ?_⟩
  · rcases hcases i a ha with ⟨rfl, rfl⟩ | ⟨rfl, rfl⟩ | ⟨rfl, rfl⟩ <;> rfl
  · rcases hcases i a ha with ⟨rfl, rfl⟩ | ⟨rfl, rfl⟩ | ⟨rfl, rfl⟩ <;> rfl
  · rcases hcases i a ha with ⟨rfl, rfl⟩ | ⟨rfl, rfl⟩ | ⟨rfl, rfl⟩ <;> rfl
  · simp only [outcomes, List.mem_cons, List.not_mem_nil, or_false] at ha
    rcases ha with rfl | rfl | rfl <;> simp
  · have hlt : i < j := hij.1
    rcases hcases i a ha with ⟨rfl, rfl⟩ | ⟨rfl, rfl⟩ | ⟨rfl, rfl⟩ <;>
      rcases hcases j b hb with ⟨rfl, rfl⟩ | ⟨rfl, rfl⟩ | ⟨rfl, rfl⟩ <;> simp at hlt ⊢

end CriticalPathSample

open CriticalPathSample in
/-- The scenario is accepted and its steps succeed, but the walk over the outcomes does not end. -/
theorem observedCriticalPath_circles :
    (spec "x").validate (fun _ => none) = .ok () ∧ (spec "x").scenario.Succeeded (outcomes "x") ∧
      (∀ fuel, observedCriticalPath fuel (outcomes "x") = none) ∧
      ¬ CriticalPath.Correct (outcomes "x") := by
  have hsucceeded := succeeded "x"
  have hdup : ¬ (spec "x").scenario.stepIds.Nodup := by decide
  refine ⟨by decide, hsucceeded, ?_, mt (hsucceeded.nodup_of_correct rfl) hdup⟩
  exact hsucceeded.observed_none rfl hdup (by decide)

open CriticalPathSample in
theorem observedCriticalPath_correct_sample : CriticalPath.Correct (outcomes "w") := by
  have hok : (spec "w").validate (fun _ => none) = .ok () := by decide
  exact (observedCriticalPath_correct_iff hok (succeeded "w")).2 (by decide)

end TxGen
