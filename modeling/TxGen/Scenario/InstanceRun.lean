import TxGen.Lib.System
import TxGen.Scenario.Aggregation

set_option autoImplicit false

/-! # Starting instances

The loop of `ScenarioEngine::run`: it starts instances one after the other, at most so many at a time, paced
and within a window, and records them in the order in which they end. The times at which the loop reads the
clock and the task that ends next are the labels of its steps; times are nanoseconds since the run started. -/

namespace TxGen

inductive FailurePolicy
  | failFast
  | carryOn
deriving DecidableEq

/-- Durations are in nanoseconds. -/
structure ScenarioExecutionConfig where
  count : Option ℕ
  duration : Option ℕ
  startsPerSecond : ℚ
  maxInFlight : ℕ
  stepTimeout : Option ℕ
  failurePolicy : FailurePolicy
  maxRpcInFlight : ℕ
  sampleInstances : ℕ

/-- Every number here is finite. -/
def ScenarioExecutionConfig.validate (config : ScenarioExecutionConfig) : Except Report Unit := do
  bailIf (config.count = some 0) "scenario count must be greater than zero"
  bailIf (config.duration = some 0) "scenario duration must be greater than zero"
  bailIf (config.count = none ∧ config.duration = none) "scenario execution requires a count or duration"
  bailIf (config.startsPerSecond < 0) "scenario starts per second must be finite and non-negative"
  bailIf (config.maxInFlight = 0) "maximum in-flight scenario instances must be greater than zero"
  bailIf (config.stepTimeout = some 0) "default step timeout must be greater than zero"
  bailIf (config.maxRpcInFlight = 0) "maximum in-flight RPC submissions must be greater than zero"

namespace InstanceRun

/-- Where the loop stands: about to look at the limits, asleep until the next start, waiting for an instance
to end, or after the loop. -/
inductive Place
  | top
  | delaying
  | joining
  | done
  | failed (error : String)
deriving DecidableEq

/-- When the limits were last checked before a start, and when the instance had been started. -/
structure Start where
  checkedAt : ℕ
  startedAt : ℕ
deriving DecidableEq

/-- `tasks` are the running instances of the join set. The starts, the recorded outcomes, the tasks that
panicked and the last reading of the clock are not variables of the loop. -/
structure RunState where
  place : Place := .top
  nextInstance : ℕ := 0
  tasks : List ℕ := []
  inFlight : ℕ := 0
  maximumInFlight : ℕ := 0
  stopStarting : Bool := false
  lastInstanceStart : Option ℕ := none
  outcomes : ScenarioAccumulator
  starts : List Start := []
  recorded : List InstanceOutcome := []
  panicked : List ℕ := []
  now : ℕ := 0

inductive Label
  /-- One turn from the top of the loop, with what the clock says at the four places where it is read. -/
  | evaluate (elapsedAt delayAt checkedAt startedAt : ℕ)
  /-- The sleep is over. -/
  | wake (now : ℕ)
  /-- A task ends, with its outcome unless it panicked. -/
  | join (task : ℕ) (outcome : Option InstanceOutcome) (now : ℕ)

section

-- `Duration::from_secs_f64`, the critical path of an outcome, and the number of steps
variable (fromSecs : ℚ → ℕ) (criticalPath : List StepOutcome → List String × ℕ) (stepCount : ℕ)
variable (config : ScenarioExecutionConfig)

/-- How long to wait before the next start; nothing when it is due. -/
def startDelay (lastStart : Option ℕ) (now : ℕ) : Option ℕ :=
  if config.startsPerSecond = 0 then none
  else
    match lastStart with
    | none => none
    | some last =>
      let target := last + fromSecs (1 / config.startsPerSecond)
      if target < now then none
      else
        let delay := match config.duration with
          | some duration => min (target - now) (duration - now)
          | none => target - now
        if delay = 0 then none else some delay

def mayStart (s : RunState) (elapsed : ℕ) : Bool :=
  !s.stopStarting && config.count.all (s.nextInstance < ·) && config.duration.all (elapsed < ·)

/-- Spawn the next instance. -/
def spawn (s : RunState) (checkedAt startedAt : ℕ) : RunState :=
  if s.nextInstance = u64Max then
    { s with place := .failed "scenario instance counter overflowed u64", now := startedAt }
  else
    { s with
      nextInstance := s.nextInstance + 1
      tasks := s.tasks ++ [s.nextInstance]
      lastInstanceStart := some startedAt
      inFlight := s.inFlight + 1
      maximumInFlight := max s.maximumInFlight (s.inFlight + 1)
      starts := s.starts ++ [⟨checkedAt, startedAt⟩]
      now := startedAt }

/-- A turn in which another instance may start. -/
def tryStart (s : RunState) (delayAt checkedAt startedAt : ℕ) : RunState :=
  match startDelay fromSecs config s.lastInstanceStart delayAt with
  | some _ => { s with place := .delaying, now := delayAt }
  | none =>
    -- The duration is checked again after a paced wait.
    if config.duration.any (· ≤ checkedAt) then { s with now := checkedAt }
    else spawn s checkedAt startedAt

/-- `record_instance`: whether the outcome stops further starts. -/
def stops (outcome : InstanceOutcome) : Bool :=
  outcome.failure.isSome && config.failurePolicy = .failFast

/-- `join_next` has returned. -/
def joined (s : RunState) (task : ℕ) (outcome : Option InstanceOutcome) (now : ℕ) : RunState :=
  let s := { s with tasks := s.tasks.erase task, inFlight := s.inFlight - 1, now }
  match outcome with
  | none =>
    { s with place := .failed "scenario instance task failed", panicked := s.panicked ++ [task] }
  | some outcome =>
    { s with
      place := .top
      stopStarting := s.stopStarting || stops config outcome
      outcomes := s.outcomes.record criticalPath outcome
      recorded := s.recorded ++ [outcome] }

/-- Whether the loop waits for tasks to end. -/
def RunState.awaitsTask (s : RunState) : Prop :=
  s.place = .joining ∨ s.place = .delaying ∧ s.inFlight ≠ 0

instance (s : RunState) : Decidable s.awaitsTask := inferInstanceAs (Decidable (_ ∨ _ ∧ _))

def step (s : RunState) : Label → Option RunState
  | .evaluate elapsedAt delayAt checkedAt startedAt =>
    if s.place = .top ∧ s.now ≤ elapsedAt ∧ elapsedAt ≤ delayAt ∧ delayAt ≤ checkedAt ∧
        checkedAt ≤ startedAt then
      if mayStart config s elapsedAt ∧ s.inFlight < config.maxInFlight then
        some (tryStart fromSecs config s delayAt checkedAt startedAt)
      else some { s with place := if s.inFlight = 0 then .done else .joining, now := elapsedAt }
    else none
  | .wake now =>
    if (s.place = .delaying ∨ s.place = .joining) ∧ s.now ≤ now then some { s with place := .top, now }
    else none
  | .join task outcome now =>
    -- The outcome of an instance bears its number.
    if s.awaitsTask ∧ task ∈ s.tasks ∧ outcome.all (·.number = task) ∧ s.now ≤ now then
      some (joined criticalPath config s task outcome now)
    else none

def system : System RunState Label where
  init := { outcomes := .new stepCount config.sampleInstances }
  step := step fromSecs criticalPath config

end

/-! ## Turns -/

section

variable {fromSecs : ℚ → ℕ} {criticalPath : List StepOutcome → List String × ℕ} {stepCount : ℕ}
variable {config : ScenarioExecutionConfig}

/-- The time from a start to the next one; nothing when starts are not paced. -/
def pace (fromSecs : ℚ → ℕ) (config : ScenarioExecutionConfig) : ℕ :=
  if config.startsPerSecond = 0 then 0 else fromSecs (1 / config.startsPerSecond)

/-- Without a delay the next start is due, or the window is over. -/
theorem due_of_startDelay {lastStart : Option ℕ} {now : ℕ}
    (h : startDelay fromSecs config lastStart now = none) {last : ℕ} (hlast : lastStart = some last)
    (hle : last ≤ now) :
    last + pace fromSecs config ≤ now ∨ ∃ duration, config.duration = some duration ∧ duration ≤ now := by
  unfold startDelay at h
  unfold pace
  split at h
  · next hzero => exact Or.inl (by rw [if_pos hzero]; omega)
  · next hne =>
      rw [if_neg hne]
      rw [hlast] at h
      dsimp only at h
      split at h
      · exact Or.inl (by omega)
      · rw [ite_eq_left_iff] at h
        have hdelay := Classical.not_not.1 fun hne => Option.some_ne_none _ (h hne)
        cases hduration : config.duration with
        | none =>
            simp only [hduration] at hdelay
            exact Or.inl (by omega)
        | some duration =>
            simp only [hduration] at hdelay
            by_cases hdue : last + fromSecs (1 / config.startsPerSecond) ≤ now
            · exact Or.inl hdue
            · exact Or.inr ⟨duration, rfl, by omega⟩

/-- What one step of the loop does. -/
inductive Move (fromSecs : ℚ → ℕ) (criticalPath : List StepOutcome → List String × ℕ)
    (config : ScenarioExecutionConfig) (s t : RunState) : Prop
  /-- Nothing but the place and the clock changes; the loop ends only when nothing may start or run. -/
  | rest (place : Place) (now : ℕ) : s.now ≤ now → t = { s with place, now } →
      (place = .done → s.place = .top ∧ s.inFlight = 0 ∧ (0 < config.maxInFlight →
        mayStart config s now = false)) → Move fromSecs criticalPath config s t
  /-- The next instance starts. -/
  | start (checkedAt startedAt : ℕ) : s.now ≤ checkedAt → checkedAt ≤ startedAt →
      s.stopStarting = false → config.count.all (s.nextInstance < ·) = true →
      s.inFlight < config.maxInFlight → s.nextInstance ≠ u64Max →
      config.duration.all (checkedAt < ·) = true →
      (∀ last, s.lastInstanceStart = some last → last ≤ s.now →
        last + pace fromSecs config ≤ checkedAt) →
      t = { s with
        nextInstance := s.nextInstance + 1
        tasks := s.tasks ++ [s.nextInstance]
        lastInstanceStart := some startedAt
        inFlight := s.inFlight + 1
        maximumInFlight := max s.maximumInFlight (s.inFlight + 1)
        starts := s.starts ++ [⟨checkedAt, startedAt⟩]
        now := startedAt } → Move fromSecs criticalPath config s t
  /-- A task ends. -/
  | join (task : ℕ) (outcome : Option InstanceOutcome) (now : ℕ) : s.now ≤ now → task ∈ s.tasks →
      outcome.all (·.number = task) = true → t = joined criticalPath config s task outcome now →
      Move fromSecs criticalPath config s t

theorem step_move {s t : RunState} {l : Label} (h : step fromSecs criticalPath config s l = some t) :
    Move fromSecs criticalPath config s t := by
  cases l with
  | evaluate elapsedAt delayAt checkedAt startedAt =>
      rw [step, Option.ite_none_right_eq_some] at h
      obtain ⟨⟨htop, hnow, helapsed, hdelay, hchecked⟩, h⟩ := h
      split at h
      · next hmay =>
          obtain ⟨hmay, hroom⟩ := hmay
          simp only [mayStart, Bool.and_eq_true, Bool.not_eq_true'] at hmay
          obtain rfl := Option.some.inj h
          unfold tryStart
          split
          · exact .rest _ _ (by omega) rfl nofun
          · next hdue =>
              split
              · next hover => exact .rest s.place checkedAt (by omega) rfl (by simp [htop])
              · next hwindow =>
                  unfold spawn
                  split
                  · exact .rest _ _ (by omega) rfl nofun
                  · next hfits =>
                      have hwindow' : config.duration.all (checkedAt < ·) = true := by
                        cases hduration : config.duration with
                        | none => rfl
                        | some duration => simpa [hduration] using hwindow
                      refine .start checkedAt startedAt (by omega) hchecked hmay.1.1 hmay.1.2 hroom
                        hfits hwindow' (fun last hlast hle => ?_) rfl
                      rcases due_of_startDelay hdue hlast (by omega) with hpaced | ⟨duration, hd, hle'⟩
                      · omega
                      · simp only [hd, Option.any_some, decide_eq_true_eq] at hwindow
                        omega
      · next hmay =>
          obtain rfl := Option.some.inj h
          refine .rest _ _ hnow rfl fun hdone => ?_
          have hidle : s.inFlight = 0 := by
            by_contra hne
            rw [if_neg hne] at hdone
            cases hdone
          refine ⟨htop, hidle, fun hpos => ?_⟩
          rw [not_and] at hmay
          by_contra hne
          exact hmay (Bool.not_eq_false _ ▸ hne) (by omega)
  | wake now =>
      rw [step, Option.ite_none_right_eq_some] at h
      obtain ⟨⟨-, hnow⟩, h⟩ := h
      exact .rest .top now hnow (Option.some.inj h).symm nofun
  | join task outcome now =>
      rw [step, Option.ite_none_right_eq_some] at h
      obtain ⟨⟨-, htask, hnumber, hnow⟩, h⟩ := h
      exact .join task outcome now hnow htask hnumber (Option.some.inj h).symm

theorem step_place {s t : RunState} {l : Label} (h : step fromSecs criticalPath config s l = some t)
    (error : String) : s.place ≠ .failed error := by
  intro hplace
  cases l <;> simp [step, hplace, RunState.awaitsTask] at h

end

/-! ## Runs -/

section

variable (fromSecs : ℚ → ℕ) (criticalPath : List StepOutcome → List String × ℕ) (stepCount : ℕ)
variable (config : ScenarioExecutionConfig)

/-- What holds between the steps of the loop. -/
structure Inv (s : RunState) : Prop where
  starts : s.starts.length = s.nextInstance
  /-- Every instance that was started runs, has been recorded or has panicked. -/
  tracked : (s.tasks ++ (s.recorded.map (·.number) ++ s.panicked)).Perm (List.range s.nextInstance)
  panicked : s.panicked ≠ [] → ∃ error, s.place = .failed error
  inFlight : s.inFlight = s.tasks.length
  peak : s.inFlight ≤ s.maximumInFlight
  bounded : s.maximumInFlight ≤ config.maxInFlight
  counted : ∀ count, config.count = some count → s.nextInstance ≤ count
  fits : s.nextInstance ≤ u64Max
  outcomes : s.outcomes = .after criticalPath stepCount config.sampleInstances s.recorded
  stopped : s.stopStarting = true ↔
    config.failurePolicy = .failFast ∧ ∃ outcome ∈ s.recorded, outcome.failure.isSome = true
  last : s.lastInstanceStart = s.starts.getLast?.map (·.startedAt)
  past : ∀ start ∈ s.starts, start.startedAt ≤ s.now
  paced : s.starts.IsChain fun a b => a.startedAt + pace fromSecs config ≤ b.checkedAt
  window : ∀ start ∈ s.starts, config.duration.all (start.checkedAt < ·) = true
  done : s.place = .done → s.tasks = [] ∧ (0 < config.maxInFlight → mayStart config s s.now = false)

variable {fromSecs criticalPath stepCount config}

theorem inv_init : Inv fromSecs criticalPath stepCount config
    (system fromSecs criticalPath stepCount config).init where
  starts := rfl
  tracked := .nil
  panicked := fun h => absurd rfl h
  inFlight := rfl
  peak := le_rfl
  bounded := Nat.zero_le _
  counted := fun _ _ => Nat.zero_le _
  fits := Nat.zero_le _
  outcomes := rfl
  stopped := by simp [system]
  last := rfl
  past := List.forall_mem_nil _
  paced := .nil
  window := List.forall_mem_nil _
  done := nofun

/-- A start appends the next number. -/
theorem Inv.start {s : RunState} (hs : Inv fromSecs criticalPath stepCount config s)
    {checkedAt startedAt : ℕ} (hchecked : s.now ≤ checkedAt) (hstarted : checkedAt ≤ startedAt)
    (hcount : config.count.all (s.nextInstance < ·) = true) (hroom : s.inFlight < config.maxInFlight)
    (hfits : s.nextInstance ≠ u64Max) (hwindow : config.duration.all (checkedAt < ·) = true)
    (hpaced : ∀ last, s.lastInstanceStart = some last → last ≤ s.now →
      last + pace fromSecs config ≤ checkedAt) (hdone : s.place ≠ .done) :
    Inv fromSecs criticalPath stepCount config { s with
      nextInstance := s.nextInstance + 1
      tasks := s.tasks ++ [s.nextInstance]
      lastInstanceStart := some startedAt
      inFlight := s.inFlight + 1
      maximumInFlight := max s.maximumInFlight (s.inFlight + 1)
      starts := s.starts ++ [⟨checkedAt, startedAt⟩]
      now := startedAt } where
  starts := by simp [hs.starts]
  tracked := by
    rw [List.range_succ, List.append_assoc, List.singleton_append]
    exact List.perm_middle.trans ((hs.tracked.cons _).trans (List.perm_append_singleton _ _).symm)
  panicked := hs.panicked
  inFlight := by simp [hs.inFlight]
  peak := le_max_right _ _
  bounded := max_le hs.bounded hroom
  counted := fun count hc => by
    have hlt : s.nextInstance < count := by simpa [hc] using hcount
    exact hlt
  fits := by have := hs.fits; simp only; omega
  outcomes := hs.outcomes
  stopped := hs.stopped
  last := by simp
  past := by
    intro start hstart
    rcases List.mem_append.1 hstart with hstart | hstart
    · exact (hs.past start hstart).trans (hchecked.trans hstarted)
    · obtain rfl := List.mem_singleton.1 hstart
      exact le_rfl
  paced := by
    refine List.isChain_append.2 ⟨hs.paced, .singleton _, ?_⟩
    intro before hbefore after hafter
    obtain rfl := Option.some.inj hafter
    refine hpaced _ ?_ (hs.past before (List.mem_of_mem_getLast? hbefore))
    rw [hs.last, Option.mem_def.1 hbefore, Option.map_some]
  window := by
    intro start hstart
    rcases List.mem_append.1 hstart with hstart | hstart
    · exact hs.window start hstart
    · obtain rfl := List.mem_singleton.1 hstart
      exact hwindow
  done := fun h => absurd h hdone

/-- An instance that ended moves from the running to the recorded ones, or has panicked. -/
theorem Inv.join {s : RunState} (hs : Inv fromSecs criticalPath stepCount config s) {task : ℕ}
    {outcome : Option InstanceOutcome} {now : ℕ} (hnow : s.now ≤ now) (htask : task ∈ s.tasks)
    (hnumber : outcome.all (·.number = task) = true) (hplace : ∀ error, s.place ≠ .failed error) :
    Inv fromSecs criticalPath stepCount config (joined criticalPath config s task outcome now) := by
  have hlength : s.inFlight - 1 = (s.tasks.erase task).length := by
    rw [List.length_erase_of_mem htask, hs.inFlight]
  have hnone : s.panicked = [] := by
    by_contra hne
    obtain ⟨error, herror⟩ := hs.panicked hne
    exact hplace error herror
  have hpast : ∀ start ∈ s.starts, start.startedAt ≤ now :=
    fun start hstart => (hs.past start hstart).trans hnow
  have hpeak := hs.peak
  cases outcome with
  | none =>
      have htracked := hs.tracked
      rw [hnone, List.append_nil] at htracked
      exact
        { hs with
          tracked := by
            have hmove := ((List.perm_cons_erase htask).append_right (s.recorded.map (·.number))).symm
            refine List.Perm.trans ?_ (hmove.trans htracked)
            simp only [joined, hnone, List.nil_append, ← List.append_assoc, List.cons_append]
            exact List.perm_append_singleton _ _
          panicked := fun _ => ⟨_, rfl⟩
          inFlight := hlength
          peak := by simp only [joined]; omega
          past := hpast
          done := nofun }
  | some outcome =>
      obtain rfl : outcome.number = task := by simpa using hnumber
      exact
        { hs with
          tracked := by
            have hmove := (List.perm_cons_erase htask).append_right
              (s.recorded.map (·.number) ++ s.panicked)
            refine List.Perm.trans ?_ (hmove.symm.trans hs.tracked)
            have hrecorded : (s.recorded ++ [outcome]).map (·.number) ++ s.panicked =
                s.recorded.map (·.number) ++ outcome.number :: s.panicked := by simp
            simp only [joined]
            rw [hrecorded, List.cons_append, ← List.append_assoc, ← List.append_assoc]
            exact List.perm_middle
          panicked := fun hne => absurd hnone hne
          inFlight := hlength
          peak := by simp only [joined]; omega
          outcomes := by
            simp only [joined, ScenarioAccumulator.after_concat]
            rw [hs.outcomes]
          stopped := by
            simp only [joined, Bool.or_eq_true, hs.stopped, stops, Bool.and_eq_true, decide_eq_true_eq,
              List.mem_append, List.mem_singleton]
            constructor
            · rintro (⟨hpolicy, failed, hfailed, hsome⟩ | ⟨hsome, hpolicy⟩)
              · exact ⟨hpolicy, failed, Or.inl hfailed, hsome⟩
              · exact ⟨hpolicy, outcome, Or.inr rfl, hsome⟩
            · rintro ⟨hpolicy, failed, hfailed | rfl, hsome⟩
              · exact Or.inl ⟨hpolicy, failed, hfailed, hsome⟩
              · exact Or.inr ⟨hsome, hpolicy⟩
          past := hpast
          done := nofun }

theorem Inv.step {s t : RunState} {l : Label} (hs : Inv fromSecs criticalPath stepCount config s)
    (h : InstanceRun.step fromSecs criticalPath config s l = some t) :
    Inv fromSecs criticalPath stepCount config t := by
  have hplace := step_place h
  cases step_move h with
  | rest place now hnow ht hdone =>
      subst ht
      exact
        { hs with
          panicked := fun hne => by
            obtain ⟨error, herror⟩ := hs.panicked hne
            exact absurd herror (hplace error)
          past := fun start hstart => (hs.past start hstart).trans hnow
          done := fun hend => by
            obtain ⟨-, hidle, hmay⟩ := hdone hend
            exact ⟨List.length_eq_zero_iff.1 (hs.inFlight ▸ hidle), hmay⟩ }
  | start checkedAt startedAt hchecked hstarted _ hcount hroom hfits hwindow hpaced ht =>
      subst ht
      refine hs.start hchecked hstarted hcount hroom hfits hwindow hpaced fun hend => ?_
      cases l <;> simp [InstanceRun.step, hend, RunState.awaitsTask] at h
  | join task outcome now hnow htask hnumber ht =>
      subst ht
      exact hs.join hnow htask hnumber hplace

theorem inv_reachable {s : RunState} (h : (system fromSecs criticalPath stepCount config).Reachable s) :
    Inv fromSecs criticalPath stepCount config s :=
  h.invariant inv_init fun _ _ _ hs hstep => hs.step hstep

/-- Once starting has stopped, no run starts an instance. -/
theorem stopped_of_run {ls : List Label} {s t : RunState}
    (h : (system fromSecs criticalPath stepCount config).Run System.anyStep s ls t)
    (hs : s.stopStarting = true) : t.stopStarting = true ∧ t.nextInstance = s.nextInstance := by
  refine h.invariant (I := fun u => u.stopStarting = true ∧ u.nextInstance = s.nextInstance)
    (fun u l v _ hu hstep => ?_) ⟨hs, rfl⟩
  cases step_move hstep with
  | rest place now _ hv => subst hv; exact hu
  | start _ _ _ _ hrunning => rw [hu.1] at hrunning; cases hrunning
  | join task outcome now _ _ _ hv =>
      subst hv
      cases outcome with
      | none => exact hu
      | some outcome => exact ⟨by simp [joined, hu.1], hu.2⟩

theorem maxInFlight_pos (h : config.validate = .ok ()) : 0 < config.maxInFlight := by
  simp only [ScenarioExecutionConfig.validate, bind_eq_ok, bailIf_eq_ok] at h
  obtain ⟨_, _, _, _, _, _, _, _, _, hpos, _⟩ := h
  omega

/-- Nothing may start: the count is reached, the window is over or a failure has stopped the run. -/
theorem Inv.not_mayStart {s : RunState} (hs : Inv fromSecs criticalPath stepCount config s) {elapsed : ℕ}
    (h : mayStart config s elapsed = false) :
    config.count = some s.nextInstance ∨ (∃ duration, config.duration = some duration ∧ duration ≤ elapsed) ∨
      config.failurePolicy = .failFast ∧ ∃ outcome ∈ s.recorded, outcome.failure.isSome = true := by
  simp only [mayStart, Bool.and_eq_false_iff, Bool.not_eq_false'] at h
  rcases h with (hstopped | hcount) | hduration
  · exact Or.inr (Or.inr (hs.stopped.1 hstopped))
  · cases hc : config.count with
    | none => simp [hc] at hcount
    | some count =>
        have hle : count ≤ s.nextInstance := by simpa [hc] using hcount
        have := hs.counted count hc
        exact Or.inl (congrArg some (by omega))
  · cases hd : config.duration with
    | none => simp [hd] at hduration
    | some duration => exact Or.inr (Or.inl ⟨duration, rfl, by simpa [hd] using hduration⟩)

/-- The counters of the report add up to the instances that were recorded. -/
theorem Inv.counts {s : RunState} (hs : Inv fromSecs criticalPath stepCount config s)
    (hlength : s.recorded.length ≤ u64Max) :
    s.outcomes.completed + s.outcomes.failed = s.recorded.length := by
  have hsum := List.length_eq_countP_add_countP (fun outcome : InstanceOutcome => outcome.failure.isNone)
    (l := s.recorded)
  have hsome : s.recorded.countP (fun outcome => !outcome.failure.isNone) =
      s.recorded.countP fun outcome => outcome.failure.isSome := by simp
  simp only [Bool.not_eq_true, Bool.decide_eq_false] at hsum
  rw [hsome] at hsum
  rw [hs.outcomes, ScenarioAccumulator.after_completed, ScenarioAccumulator.after_failed, saturated,
    saturated]
  omega

end

end InstanceRun

open InstanceRun in
/-- In every run of the loop, whatever the clock says and whichever instance ends next: every number below
the next one was started once, and is running, recorded once, or has panicked; no more instances run than
allowed, none starts before its turn, after the window or after a failure that stops the run; and when the
loop ends, every started instance is in the report, and a limit was reached. -/
theorem instances_run_once (fromSecs : ℚ → ℕ) (criticalPath : List StepOutcome → List String × ℕ)
    (stepCount : ℕ) (config : ScenarioExecutionConfig) (hconfig : config.validate = .ok ()) {s : RunState}
    (h : (system fromSecs criticalPath stepCount config).Reachable s) :
    (s.tasks ++ (s.recorded.map (·.number) ++ s.panicked)).Perm (List.range s.nextInstance) ∧
    s.tasks.length ≤ s.maximumInFlight ∧ s.maximumInFlight ≤ config.maxInFlight ∧
    (∀ count, config.count = some count → s.nextInstance ≤ count) ∧
    s.starts.length = s.nextInstance ∧
    (s.starts.IsChain fun a b => a.startedAt + pace fromSecs config ≤ b.checkedAt) ∧
    (∀ duration, config.duration = some duration → ∀ start ∈ s.starts, start.checkedAt < duration) ∧
    (config.failurePolicy = .failFast → (∃ outcome ∈ s.recorded, outcome.failure.isSome = true) →
      ∀ ls t, (system fromSecs criticalPath stepCount config).Run System.anyStep s ls t →
        t.nextInstance = s.nextInstance) ∧
    (s.place = .done →
      (s.recorded.map (·.number)).Perm (List.range s.nextInstance) ∧
      s.outcomes = .after criticalPath stepCount config.sampleInstances s.recorded ∧
      s.outcomes.completed + s.outcomes.failed = s.nextInstance ∧
      (config.count = some s.nextInstance ∨
        (∃ duration, config.duration = some duration ∧ duration ≤ s.now) ∨
        config.failurePolicy = .failFast ∧ ∃ outcome ∈ s.recorded, outcome.failure.isSome = true)) := by
  have hs := inv_reachable h
  refine ⟨hs.tracked, hs.inFlight ▸ hs.peak, hs.bounded, hs.counted, hs.starts, hs.paced,
    fun duration hduration start hstart => ?_, fun hpolicy hfailed ls t hrun => ?_, fun hdone => ?_⟩
  · simpa [hduration] using hs.window start hstart
  · exact (stopped_of_run hrun (hs.stopped.2 ⟨hpolicy, hfailed⟩)).2
  · obtain ⟨htasks, hmay⟩ := hs.done hdone
    have hpanicked : s.panicked = [] := by
      by_contra hne
      obtain ⟨error, herror⟩ := hs.panicked hne
      rw [hdone] at herror
      cases herror
    have hrecorded := hs.tracked
    rw [htasks, hpanicked, List.nil_append, List.append_nil] at hrecorded
    have hlength : s.recorded.length = s.nextInstance := by simpa using hrecorded.length_eq
    refine ⟨hrecorded, hs.outcomes, ?_, hs.not_mayStart (hmay (maxInFlight_pos hconfig))⟩
    rw [hs.counts (hlength ▸ hs.fits), hlength]

namespace InstanceRun.Sample

/-- Three instances, two at a time -/
def config : ScenarioExecutionConfig where
  count := some 3
  duration := none
  startsPerSecond := 0
  maxInFlight := 2
  stepTimeout := none
  failurePolicy := .carryOn
  maxRpcInFlight := 1
  sampleInstances := 0

def outcome (number : ℕ) : InstanceOutcome where
  number
  startedAtUnixMs := 0
  finishedAtUnixMs := 0
  elapsed := 0
  steps := []
  failure := none

def labels : List Label :=
  [.evaluate 0 0 0 1, .evaluate 1 1 1 2, .evaluate 2 2 2 2, .join 1 (some (outcome 1)) 3,
    .evaluate 3 3 3 4, .evaluate 4 4 4 4, .join 0 (some (outcome 0)) 5, .evaluate 5 5 5 5,
    .join 2 (some (outcome 2)) 6, .evaluate 6 6 6 6]

def run : System RunState Label := system (fun _ => 0) (fun _ => ([], 0)) 0 config

theorem run_done : ∃ s : RunState, run.Run System.anyStep run.init labels s ∧ s.place = .done ∧
    s.nextInstance = 3 :=
  System.run_of_check (P := fun s : RunState => s.place = .done ∧ s.nextInstance = 3) (by decide)

end InstanceRun.Sample

open InstanceRun in
theorem instances_run_once_sample : ∃ s : RunState, Sample.run.Reachable s ∧ s.place = .done ∧ s.nextInstance = 3 ∧
    (s.recorded.map (·.number)).Perm (List.range 3) := by
  obtain ⟨s, hrun, hdone, hnext⟩ := Sample.run_done
  have hs : Sample.run.Reachable s := ⟨_, hrun⟩
  have hspec := instances_run_once (fun _ => 0) (fun _ => ([], 0)) 0 Sample.config rfl hs
  exact ⟨s, hs, hdone, hnext, hnext ▸ (hspec.2.2.2.2.2.2.2.2 hdone).1⟩

end TxGen
