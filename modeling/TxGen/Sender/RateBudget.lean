import TxGen.Lib.Lists
import TxGen.Sender.RateLimiter

set_option autoImplicit false

/-! # The budget of the rate limiter

In no period without a start of the schedule are there more grants than the burst and the rate of the
period allow; and a call that was delayed is granted when it comes back after its delay. -/

namespace TxGen

namespace RateLimiter

open TokenBucket

/-! ## Rates -/

/-- The rate is positive at all times. -/
def Positive (limiter : RateLimiter) : Prop := 0 < limiter.rate ∧ ∀ step ∈ limiter.schedule, 0 < step.tps

variable {limiter : RateLimiter}

theorem rateAtFrom_pos {steps : List RateStep} (hsteps : ∀ step ∈ steps, 0 < step.tps) {last : ℚ}
    (hlast : 0 < last) (elapsed offset : ℚ) : 0 < rateAtFrom elapsed offset last steps := by
  induction steps generalizing offset last with
  | nil => exact hlast
  | cons step steps ih =>
      obtain ⟨hstep, hrest⟩ := List.forall_mem_cons.1 hsteps
      have htps : (0 : ℚ) < step.tps := Nat.cast_pos.2 hstep
      rw [rateAtFrom]
      split
      · exact htps
      · exact ih hrest htps _

/-- A constant rate is in force at all times. -/
theorem rateSince_of_nil (h : limiter.schedule = []) (started : Option ℚ) (now : ℚ) :
    limiter.rateSince started now = limiter.rate := by
  rw [RateLimiter.rateSince, rateAt, h, rateAtFrom]

theorem Positive.rateSince (h : limiter.Positive) (started : Option ℚ) (now : ℚ) :
    0 < limiter.rateSince started now := rateAtFrom_pos h.2 h.1 _ _

theorem one_le_burstOf (rate : ℚ) : 1 ≤ burstOf rate := le_max_right _ _

theorem burstOf_mono {rate rate' : ℚ} (h : rate ≤ rate') :
    burstOf rate ≤ burstOf rate' :=
  max_le_max_right 1 (mul_le_mul_of_nonneg_right h (by norm_num [rateLimiterMaxBurst]))

/-- The limiters of a configuration with positive steps are positive. -/
theorem positive_of_config {config : SenderConfig}
    (hschedule : ∀ step ∈ config.rateSchedule, step.Positive)
    (h : config.rateLimiter = some limiter) : limiter.Positive := by
  unfold SenderConfig.rateLimiter at h
  split at h
  · next hsteps =>
      cases h
      refine ⟨?_, fun step hstep => (hschedule step hstep).1⟩
      -- the peak is the rate of a step
      cases hpeak : (config.rateSchedule.map (·.tps)).max? with
      | none => simp [scheduled, withSchedule, hpeak]
      | some peak =>
          obtain ⟨step, hstep, rfl⟩ := List.mem_map.1 (List.max?_mem hpeak)
          simpa [scheduled, withSchedule, hpeak] using (hschedule step hstep).1
  · split at h
    · next hrate =>
        cases h
        refine ⟨?_, List.forall_mem_nil _⟩
        simpa [new, withSchedule] using hrate
    · cases h

/-! ## The bucket of a limiter -/

/-- The bucket of a state. -/
def bucket (state : RateLimiterState) : Bucket ℚ := ⟨state.tokens, state.lastRefill⟩

/-- A call while `started` is the start of the schedule. -/
def callAt (limiter : RateLimiter) (started : Option ℚ) (now : ℚ) : Call ℚ where
  time := now
  rate := limiter.rateSince started now
  burst := burstOf (limiter.rateSince started now)

/-- A call is served as the bucket serves it. -/
theorem tryAcquireOrDelay_spec (limiter : RateLimiter) {state : RateLimiterState} {now : ℚ} (hnow : state.lastRefill ≤ now) :
    ((limiter.tryAcquireOrDelay now state).1 = none ↔
        ((bucket state).serve (limiter.callAt state.started now)).1 = true) ∧
      bucket (limiter.tryAcquireOrDelay now state).2 =
        ((bucket state).serve (limiter.callAt state.started now)).2 ∧
      (limiter.tryAcquireOrDelay now state).2.started = state.started := by
  have hsince : durationSince now state.lastRefill = now - state.lastRefill :=
    max_eq_left (sub_nonneg.2 hnow)
  have hrefill : (bucket state).refill (limiter.callAt state.started now) =
      bucket (state.refill now (limiter.rateSince state.started now)
        (burstOf (limiter.rateSince state.started now))) := by
    simp [bucket, RateLimiterState.refill, Bucket.refill, callAt, hsince]
  have hstarted (rate burst : ℚ) : (state.refill now rate burst).started = state.started := rfl
  rw [Bucket.serve, hrefill, Bucket.take, tryAcquireOrDelay]
  unfold bucket
  dsimp only
  split <;> simp [hstarted]

/-! ## Grants within a period -/

/-- The calls among the events. -/
def calls (limiter : RateLimiter) (started : Option ℚ) (events : List Event) : List (Call ℚ) :=
  (events.filter fun event => !event.isStart).map fun event => limiter.callAt started event.time

/-- Where the schedule does not start, the calls are granted as the bucket grants them. -/
theorem grants_eq {state : RateLimiterState} {events : List Event}
    (hordered : Ordered state.lastRefill events)
    (hstart : limiter.schedule = [] ∨ ∀ event ∈ events, event.isStart = false) :
    (limiter.grants state events).length =
      (bucket state).grants (limiter.calls state.started events) := by
  induction events generalizing state with
  | nil => rfl
  | cons event events ih =>
      have hrest : limiter.schedule = [] ∨ ∀ event ∈ events, event.isStart = false :=
        hstart.imp_right fun h => (List.forall_mem_cons.1 h).2
      cases event with
      | start now =>
          rcases hstart with hschedule | hcalls
          · have hsame : limiter.start now state = state := by
              simp [start, hschedule]
            rw [grants, hsame]
            refine ih (hordered.sublist ?_) hrest
            exact (List.sublist_cons_self _ _).cons_cons _
          · exact absurd (List.forall_mem_cons.1 hcalls).1 (by simp [Event.isStart])
      | acquire now =>
          have hnow : state.lastRefill ≤ now := (List.pairwise_cons.1 hordered).1 now (by simp [Event.time])
          obtain ⟨hgranted, hbucket, hstarted⟩ := tryAcquireOrDelay_spec limiter hnow
          have hlast : (limiter.tryAcquireOrDelay now state).2.lastRefill = now := by
            have hlast := congrArg Bucket.last hbucket
            rwa [serve_last] at hlast
          have hrest' : Ordered (limiter.tryAcquireOrDelay now state).2.lastRefill events := by
            rw [hlast]
            exact hordered.of_cons
          have htail := ih hrest' hrest
          rw [hstarted, hbucket] at htail
          have hcons : limiter.calls state.started (.acquire now :: events) =
              limiter.callAt state.started now :: limiter.calls state.started events := rfl
          rw [hcons, Bucket.grants, grants]
          by_cases hnone : (limiter.tryAcquireOrDelay now state).1 = none
          · rw [if_pos hnone, List.length_cons, htail, if_pos (hgranted.1 hnone), Nat.add_comm]
          · rw [if_neg hnone, htail, if_neg (mt hgranted.2 hnone), Nat.zero_add]

theorem grants_append (limiter : RateLimiter) (state : RateLimiterState) (events events' : List Event) :
    limiter.grants state (events ++ events') =
      limiter.grants state events ++ limiter.grants (limiter.run state events) events' := by
  induction events generalizing state with
  | nil => rfl
  | cons event events ih =>
      cases event with
      | acquire now =>
          rw [List.cons_append, grants, grants, ih]
          split <;> rfl
      | start now => exact ih (limiter.start now state)

theorem mem_grants {state : RateLimiterState} {events : List Event} {time : ℚ}
    (h : time ∈ limiter.grants state events) : ∃ event ∈ events, event.time = time := by
  induction events generalizing state with
  | nil => cases h
  | cons event events ih =>
      have hrest {state : RateLimiterState} (h : time ∈ limiter.grants state events) :
          ∃ event' ∈ event :: events, event'.time = time := by
        obtain ⟨event', hmem, htime⟩ := ih h
        exact ⟨event', List.mem_cons_of_mem _ hmem, htime⟩
      cases event with
      | acquire now =>
          rw [grants] at h
          split at h
          · rcases List.mem_cons.1 h with rfl | h
            · exact ⟨_, List.mem_cons_self, rfl⟩
            · exact hrest h
          · exact hrest h
      | start now => exact hrest h

/-! ## Runs -/

/-- The last start among the events. -/
def lastStart (events : List Event) : Option ℚ := ((events.filter Event.isStart).map Event.time).getLast?

/-- What is known of the state after some events. -/
structure Follows (limiter : RateLimiter) (created : ℚ) (events : List Event) (state : RateLimiterState) :
    Prop where
  tokens : 0 ≤ state.tokens
  lastRefill : state.lastRefill ∈ created :: events.map Event.time
  started : limiter.schedule = [] ∨ state.started = lastStart events

theorem Ordered.append_singleton {created : ℚ} {events : List Event} {event : Event}
    (h : Ordered created (events ++ [event])) :
    Ordered created events ∧ ∀ time ∈ created :: events.map Event.time, time ≤ event.time := by
  rw [Ordered, List.map_append, ← List.cons_append, List.pairwise_append] at h
  exact ⟨h.1, fun time htime => h.2.2 time htime _ (by simp)⟩

theorem follows_step (h : limiter.Positive) {created : ℚ} {events : List Event}
    {state : RateLimiterState} (hstate : Follows limiter created events state) {event : Event}
    (hordered : Ordered created (events ++ [event])) :
    Follows limiter created (events ++ [event]) (limiter.step state event) := by
  have hlast : state.lastRefill ≤ event.time := hordered.append_singleton.2 _ hstate.lastRefill
  cases event with
  | acquire now =>
      obtain ⟨-, hbucket, hstarted⟩ := tryAcquireOrDelay_spec limiter hlast
      refine ⟨?_, ?_, ?_⟩
      · have hcredit := congrArg Bucket.credit hbucket
        refine le_of_le_of_eq (take_credit_nonneg ?_) hcredit.symm
        exact refill_credit_nonneg hstate.tokens hlast (h.rateSince _ _).le
          (zero_le_one.trans (one_le_burstOf _))
      · have hrefill := congrArg Bucket.last hbucket
        rw [serve_last] at hrefill
        have hnow : (limiter.step state (.acquire now)).lastRefill = now := hrefill
        simp [hnow, Event.time]
      · refine hstate.started.imp_right fun hstart => ?_
        have hsame : lastStart (events ++ [Event.acquire now]) = lastStart events := by
          simp [lastStart, Event.isStart]
        rw [hsame, ← hstart]
        exact hstarted
  | start now =>
      cases hschedule : limiter.schedule with
      | nil =>
          have hstep : limiter.step state (.start now) = state := by
            simp [step, start, hschedule]
          rw [hstep]
          refine ⟨hstate.tokens, ?_, .inl hschedule⟩
          rw [List.map_append, ← List.cons_append]
          exact List.mem_append_left _ hstate.lastRefill
      | cons first steps =>
          have hstep : limiter.step state (.start now) = ⟨burstOf first.tps, now, some now⟩ := by
            simp [step, start, hschedule]
          rw [hstep]
          refine ⟨zero_le_one.trans (one_le_burstOf _), by simp [Event.time], .inr ?_⟩
          simp [lastStart, Event.isStart, Event.time]

theorem follows_run (h : limiter.Positive) {created : ℚ} {events : List Event}
    (hordered : Ordered created events) :
    Follows limiter created events (limiter.run (limiter.initial created) events) := by
  induction events using List.reverseRecOn with
  | nil =>
      exact ⟨zero_le_one.trans (one_le_burstOf _), List.mem_cons_self, .inr rfl⟩
  | append_singleton events event ih =>
      rw [run, List.foldl_append]
      exact follows_step h (ih hordered.append_singleton.1) hordered

/-! ## Periods -/

/-- Events split into those before a period, those in it, and those after it. -/
theorem exists_split {created : ℚ} {events : List Event} (h : Ordered created events) (a b : ℚ) :
    ∃ before within after, events = before ++ (within ++ after) ∧
      (∀ event ∈ before, event.time < a) ∧ (∀ event ∈ within, a ≤ event.time ∧ event.time ≤ b) ∧
      ∀ event ∈ after, a ≤ event.time ∧ b < event.time := by
  have hevents : events.Pairwise fun event event' => event.time ≤ event'.time :=
    List.pairwise_map.1 h.of_cons
  have hsplit := List.eq_filter_append_of_pairwise (p := fun event => event.time < a) hevents
    fun event event' hle hlt => by simpa using hle.trans_lt (by simpa using hlt)
  have hsplit' := List.eq_filter_append_of_pairwise (p := fun event => event.time ≤ b)
    (hevents.filter fun event => !decide (event.time < a))
    fun event event' hle hle' => by simpa using hle.trans (by simpa using hle')
  refine ⟨_, _, _, hsplit.trans (congrArg _ hsplit'), fun event hevent => ?_, fun event hevent => ?_,
    fun event hevent => ?_⟩
  · simpa using (List.mem_filter.1 hevent).2
  · simp only [List.mem_filter, Bool.not_eq_true', decide_eq_false_iff_not, not_lt,
      decide_eq_true_eq] at hevent
    exact ⟨hevent.1.2, hevent.2⟩
  · simp only [List.mem_filter, Bool.not_eq_true', decide_eq_false_iff_not, not_lt, not_le] at hevent
    exact ⟨hevent.1.2, hevent.2⟩

/-- No start of the schedule falls into the period. -/
def NoStart (events : List Event) (a b : ℚ) : Prop :=
  ∀ event ∈ events, event.isStart = true → a ≤ event.time → b < event.time

/-- The start that is in effect within a period without a start is the last one before it. -/
theorem startedAt_eq {before within after : List Event} {a b time : ℚ}
    (hbefore : ∀ event ∈ before, event.time < a) (hafter : ∀ event ∈ after, b < event.time)
    (hcalls : ∀ event ∈ within, event.isStart = false) (ha : a ≤ time) (hb : time ≤ b) :
    startedAt (before ++ (within ++ after)) time = lastStart before := by
  have hfirst : before.filter (fun event => event.isStart && decide (event.time ≤ time)) =
      before.filter Event.isStart := by
    refine List.filter_congr fun event hevent => ?_
    simp [((hbefore event hevent).trans_le ha).le]
  have hmiddle : within.filter (fun event => event.isStart && decide (event.time ≤ time)) = [] := by
    refine List.filter_eq_nil_iff.2 fun event hevent => ?_
    simp [hcalls event hevent]
  have hlast : after.filter (fun event => event.isStart && decide (event.time ≤ time)) = [] := by
    refine List.filter_eq_nil_iff.2 fun event hevent => ?_
    simp [hb.trans_lt (hafter event hevent)]
  rw [startedAt, List.filter_append, List.filter_append, hfirst, hmiddle, hlast, lastStart]
  simp

/-- The grants of a period. -/
def grantsWithin (limiter : RateLimiter) (created : ℚ) (events : List Event) (a b : ℚ) : ℕ :=
  (limiter.grants (limiter.initial created) events).countP fun time => a ≤ time ∧ time ≤ b

/-- In a period without a start of the schedule there are not more grants than its burst and its rate
allow. -/
theorem grantsWithin_le (hpos : limiter.Positive) {created : ℚ} {events : List Event}
    (hordered : Ordered created events) {a w R : ℚ} (hw : 0 ≤ w)
    (hstart : limiter.schedule = [] ∨ NoStart events a (a + w))
    (hR : ∀ time, a ≤ time → time ≤ a + w → limiter.rateInForce events time ≤ R) :
    (limiter.grantsWithin created events a (a + w) : ℚ) ≤ max 1 (R / 100) + R * w := by
  obtain ⟨before, within, after, rfl, hbefore, hwithin, hafter⟩ := exists_split hordered a (a + w)
  have hcalls : limiter.schedule = [] ∨ ∀ event ∈ within, event.isStart = false := by
    refine hstart.imp_right fun hnone event hevent => ?_
    obtain ⟨ha, hb⟩ := hwithin event hevent
    by_contra hcall
    have hlt := hnone event (by simp [hevent]) (by simpa using hcall) ha
    exact absurd hb (not_le.2 hlt)
  rw [Ordered, List.map_append, List.map_append, ← List.cons_append] at hordered
  obtain ⟨hfirst, hlater, hcross⟩ := List.pairwise_append.1 hordered
  have htimes := (List.pairwise_append.1 hlater).1
  let state := limiter.run (limiter.initial created) before
  have hstate : Follows limiter created before state := follows_run hpos hfirst
  have hlast : ∀ time ∈ within.map Event.time, state.lastRefill ≤ time := fun time htime =>
    hcross _ hstate.lastRefill time (List.mem_append_left _ htime)
  have hrate (time : ℚ) (ha : a ≤ time) (hb : time ≤ a + w) :
      limiter.rateSince state.started time ≤ R := by
    refine le_of_eq_of_le ?_ (hR time ha hb)
    rcases hcalls with hnil | hcalls
    · rw [rateInForce, rateSince_of_nil hnil, rateSince_of_nil hnil]
    · rcases hstate.started with hnil | hstarted
      · rw [rateInForce, rateSince_of_nil hnil, rateSince_of_nil hnil]
      · rw [rateInForce, startedAt_eq hbefore (fun event h => (hafter event h).2) hcalls ha hb, hstarted]
  have hRpos : 0 < R := (hpos.rateSince state.started a).trans_le (hrate a le_rfl (by linarith))
  -- the grants of the period are those of the bucket that the events before it leave
  have hcount : limiter.grantsWithin created (before ++ (within ++ after)) a (a + w) ≤
      (bucket state).grants (limiter.calls state.started within) := by
    have houtside {state : RateLimiterState} {events : List Event}
        (h : ∀ event ∈ events, ¬ (a ≤ event.time ∧ event.time ≤ a + w)) :
        (limiter.grants state events).countP (fun time => a ≤ time ∧ time ≤ a + w) = 0 := by
      refine List.countP_eq_zero.2 fun time htime => ?_
      obtain ⟨event, hevent, rfl⟩ := mem_grants htime
      simpa using h event hevent
    rw [grantsWithin, grants_append, grants_append, List.countP_append, List.countP_append,
      houtside fun event hevent h => absurd (hbefore event hevent) (not_lt.2 h.1),
      houtside fun event hevent h => absurd (hafter event hevent).2 (not_lt.2 h.2), Nat.zero_add,
      Nat.add_zero, ← grants_eq (List.pairwise_cons.2 ⟨hlast, htimes⟩) hcalls]
    exact List.countP_le_length
  have hmem : ∀ call ∈ limiter.calls state.started within, ∃ event ∈ within,
      limiter.callAt state.started event.time = call := by
    intro call hcall
    obtain ⟨event, hevent, rfl⟩ := List.mem_map.1 hcall
    exact ⟨event, List.mem_of_mem_filter hevent, rfl⟩
  have hperiod : Within (bucket state).last (a + w) R (limiter.calls state.started within) := by
    refine ⟨?_, ?_, ?_, ?_, ?_, ?_⟩
    · exact List.pairwise_map.2 ((List.pairwise_map.1 htimes).filter _)
    all_goals
      intro call hcall
      obtain ⟨event, hevent, rfl⟩ := hmem call hcall
      obtain ⟨ha, hb⟩ := hwithin event hevent
    · exact hlast _ (List.mem_map_of_mem hevent)
    · exact hb
    · exact (hpos.rateSince _ _).le
    · exact hrate _ ha hb
    · exact zero_le_one.trans (one_le_burstOf _)
  refine (Nat.cast_le.2 hcount).trans ?_
  cases hserved : limiter.calls state.started within with
  | nil =>
      have hgain : 0 ≤ R * w := mul_nonneg hRpos.le hw
      simp only [Bucket.grants, Nat.cast_zero]
      exact add_nonneg (zero_le_one.trans (le_max_left _ _)) hgain
  | cons call rest =>
      rw [hserved] at hperiod hmem
      obtain ⟨event, hevent, rfl⟩ := hmem call List.mem_cons_self
      obtain ⟨ha, hb⟩ := hwithin event hevent
      calc ((bucket state).grants (limiter.callAt state.started event.time :: rest) : ℚ)
          ≤ burstOf (limiter.rateSince state.started event.time) + R * (a + w - event.time) :=
            grants_cons_le hperiod hstate.tokens
        _ ≤ burstOf R + R * w := by
            gcongr
            · exact burstOf_mono (hrate _ ha hb)
            · linarith
        _ = max 1 (R / 100) + R * w := by
            rw [burstOf, rateLimiterMaxBurst, mul_one_div, max_comm]

/-! ## Delays -/

/-- After starts of the schedule there is credit. -/
theorem starts_cases (limiter : RateLimiter) (state : RateLimiterState) {starts : List Event}
    (hstarts : ∀ event ∈ starts, event.isStart = true) :
    starts = [] ∨ (limiter.schedule = [] ∧ limiter.run state starts = state) ∨
      1 ≤ (limiter.run state starts).tokens := by
  cases hschedule : limiter.schedule with
  | nil =>
      refine .inr (.inl ⟨rfl, ?_⟩)
      induction starts with
      | nil => rfl
      | cons event starts ih =>
          obtain ⟨hevent, hrest⟩ := List.forall_mem_cons.1 hstarts
          cases event with
          | acquire now => cases hevent
          | start now =>
              have hsame : limiter.step state (.start now) = state := by
                simp [step, start, hschedule]
              rw [run, List.foldl_cons, hsame]
              exact ih hrest
  | cons first steps =>
      rcases List.eq_nil_or_concat starts with rfl | ⟨starts, event, rfl⟩
      · exact .inl rfl
      · refine .inr (.inr ?_)
        have hevent := hstarts event (by simp)
        cases event with
        | acquire now => cases hevent
        | start now =>
            have hrun : limiter.run state (starts.concat (.start now)) =
                limiter.start now (limiter.run state starts) := by
              simp [run, step]
            rw [hrun]
            simp only [start, hschedule]
            exact one_le_burstOf _

/-- A call that is delayed leaves what it found, and waits for the rest of a token. -/
theorem tryAcquireOrDelay_some {state : RateLimiterState} {now d : ℚ}
    (h : (limiter.tryAcquireOrDelay now state).1 = some d) :
    let after := (limiter.tryAcquireOrDelay now state).2
    after.lastRefill = now ∧ after.started = state.started ∧ after.tokens < 1 ∧
      d = (1 - after.tokens) / limiter.rateSince state.started now := by
  rw [tryAcquireOrDelay] at h ⊢
  dsimp only at h ⊢
  split at h
  · cases h
  · next hfew =>
      rw [if_neg hfew]
      exact ⟨rfl, rfl, not_le.1 hfew, (Option.some.inj h).symm⟩

theorem granted_of_tokens (hpos : limiter.Positive) {state : RateLimiterState} {now : ℚ}
    (hnow : state.lastRefill ≤ now) (htokens : 1 ≤ state.tokens) :
    (limiter.tryAcquireOrDelay now state).1 = none := by
  refine (limiter.tryAcquireOrDelay_spec hnow).1.2 ?_
  have hgain : 0 ≤ (now - state.lastRefill) * limiter.rateSince state.started now :=
    mul_nonneg (sub_nonneg.2 hnow) (hpos.rateSince _ _).le
  have hfull : 1 ≤ ((bucket state).refill (limiter.callAt state.started now)).credit :=
    le_min (htokens.trans (le_add_of_nonneg_right hgain)) (one_le_burstOf _)
  rw [Bucket.serve, Bucket.take, if_pos hfull]

theorem startedAt_eq_lastStart {events : List Event} {time : ℚ}
    (h : ∀ event ∈ events, event.isStart = true → event.time ≤ time) :
    startedAt events time = lastStart events := by
  rw [startedAt, lastStart]
  congr 2
  refine List.filter_congr fun event hevent => ?_
  cases hstart : event.isStart with
  | false => rfl
  | true => simpa using h event hevent hstart

/-- A call that was delayed is granted when it comes back after its delay, if there was no other call and
the rate is not lower then. -/
theorem granted_after_delay (hpos : limiter.Positive) {created : ℚ} {before starts : List Event}
    {now d : ℚ}
    (hordered : Ordered created (before ++ .acquire now :: (starts ++ [.acquire (now + d)])))
    (hstarts : ∀ event ∈ starts, event.isStart = true)
    (hdelay : (limiter.tryAcquireOrDelay now (limiter.run (limiter.initial created) before)).1 = some d)
    (hrate : limiter.rateInForce (before ++ .acquire now :: starts) now ≤
      limiter.rateInForce (before ++ .acquire now :: starts) (now + d)) :
    (limiter.tryAcquireOrDelay (now + d)
      (limiter.run (limiter.initial created) (before ++ .acquire now :: starts))).1 = none := by
  rw [← List.cons_append, ← List.append_assoc] at hordered
  obtain ⟨hbefore, hlate⟩ := hordered.append_singleton
  have hfollows := follows_run hpos hbefore
  have hlast := hlate _ hfollows.lastRefill
  let state := limiter.run (limiter.initial created) before
  let delayed := (limiter.tryAcquireOrDelay now state).2
  have hrun : limiter.run (limiter.initial created) (before ++ .acquire now :: starts) =
      limiter.run delayed starts := by
    rw [run, List.foldl_append]
    rfl
  obtain ⟨hrefilled, hstarted, hfew, hd⟩ := tryAcquireOrDelay_some hdelay
  -- a call of the delayed state with the rates of both times
  have hgranted (hsame : limiter.run delayed starts = delayed)
      (hrates : limiter.rateSince delayed.started now ≤ limiter.rateSince delayed.started (now + d)) :
      (limiter.tryAcquireOrDelay (now + d) (limiter.run delayed starts)).1 = none := by
    rw [hsame]
    have hnow : delayed.lastRefill ≤ now + d := by
      rwa [hrun, hsame] at hlast
    refine (limiter.tryAcquireOrDelay_spec hnow).1.2 ?_
    refine take_after_delay (hpos.rateSince delayed.started now) hrates (one_le_burstOf _) hfew.le ?_
    show now + d = delayed.lastRefill + (1 - delayed.tokens) / limiter.rateSince delayed.started now
    rw [hstarted, hrefilled, ← hd]
  rw [hrun]
  rcases starts_cases limiter delayed hstarts with rfl | ⟨hschedule, hsame⟩ | htokens
  · refine hgranted rfl ?_
    -- without a start in between, the schedule is where it was
    obtain ⟨hordered', hearly⟩ := hbefore.append_singleton
    have hnow : now ≤ now + d := by
      rw [hrun] at hlast
      exact le_of_eq_of_le hrefilled.symm hlast
    have hin (time : ℚ) (htime : now ≤ time) :
        limiter.rateInForce (before ++ [.acquire now]) time = limiter.rateSince delayed.started time := by
      rw [rateInForce]
      rcases (follows_run hpos hordered').started with hschedule | hstart
      · rw [rateSince_of_nil hschedule, rateSince_of_nil hschedule]
      · have hsame : lastStart (before ++ [.acquire now]) = lastStart before := by
          simp [lastStart, Event.isStart]
        rw [startedAt_eq_lastStart, hsame, ← hstart, ← hstarted]
        intro event hevent hisStart
        rcases List.mem_append.1 hevent with hevent | hevent
        · exact (hearly _ (List.mem_cons_of_mem _ (List.mem_map_of_mem hevent))).trans htime
        · rw [List.mem_singleton.1 hevent]
          exact htime
    rwa [hin now le_rfl, hin (now + d) hnow] at hrate
  · refine hgranted hsame (le_of_eq ?_)
    rw [rateSince_of_nil hschedule, rateSince_of_nil hschedule]
  · exact granted_of_tokens hpos (by rwa [hrun] at hlast) htokens

/-- The rate limiter never exceeds its budget and never starves. -/
theorem rate_limiter_budget {config : SenderConfig}
    (hschedule : ∀ step ∈ config.rateSchedule, step.Positive)
    (hlimiter : config.rateLimiter = some limiter) (created : ℚ) :
    (∀ events a w R, Ordered created events → 0 ≤ w →
      (limiter.schedule = [] ∨ NoStart events a (a + w)) →
      (∀ time, a ≤ time → time ≤ a + w → limiter.rateInForce events time ≤ R) →
        (limiter.grantsWithin created events a (a + w) : ℚ) ≤ max 1 (R / 100) + R * w) ∧
    ∀ before starts now d,
      Ordered created (before ++ .acquire now :: (starts ++ [.acquire (now + d)])) →
      (∀ event ∈ starts, event.isStart = true) →
      (limiter.tryAcquireOrDelay now (limiter.run (limiter.initial created) before)).1 = some d →
      limiter.rateInForce (before ++ .acquire now :: starts) now ≤
        limiter.rateInForce (before ++ .acquire now :: starts) (now + d) →
        (limiter.tryAcquireOrDelay (now + d)
          (limiter.run (limiter.initial created) (before ++ .acquire now :: starts))).1 = none := by
  have hpos := positive_of_config hschedule hlimiter
  refine ⟨fun events a w R hordered hw hstart hR => grantsWithin_le hpos hordered hw hstart hR, ?_⟩
  intro before starts now d hordered hstarts hdelay hrate
  exact granted_after_delay hpos hordered hstarts hdelay hrate

/-- 100 calls a second: two at once, and one when the delay is over. -/
theorem rate_limiter_budget_sample :
    ((new 100).grantsWithin 0 [.acquire 0, .acquire 0, .acquire (1 / 100)] 0 (0 + 1 / 100) : ℚ) ≤
        max 1 (100 / 100) + 100 * (1 / 100) ∧
      ((new 100).tryAcquireOrDelay (0 + 1 / 100)
        ((new 100).run ((new 100).initial 0) [.acquire 0, .acquire 0])).1 = none := by
  let config : SenderConfig := ⟨100, []⟩
  have hschedule : ∀ step ∈ config.rateSchedule, step.Positive := List.forall_mem_nil _
  have hlimiter : config.rateLimiter = some (new 100) := by simp [config, SenderConfig.rateLimiter]
  obtain ⟨hbudget, hdelay⟩ := rate_limiter_budget hschedule hlimiter 0
  have hrate (events : List Event) (time : ℚ) : (new 100).rateInForce events time = 100 :=
    rateSince_of_nil rfl _ _
  constructor
  · exact hbudget _ _ _ _ (by norm_num [Ordered, Event.time]) (by norm_num) (.inl rfl)
      fun time _ _ => (hrate _ time).le
  · refine hdelay [.acquire 0] [] 0 (1 / 100) (by norm_num [Ordered, Event.time])
      (List.forall_mem_nil _) ?_ (by rw [hrate, hrate])
    decide +kernel

end RateLimiter

end TxGen
