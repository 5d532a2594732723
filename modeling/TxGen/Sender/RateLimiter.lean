import TxGen.Lib.Text
import TxGen.Lib.TokenBucket
import TxGen.Scenario.Value

set_option autoImplicit false

/-! # The rate limiter

`RateLimiter` is a token bucket whose rate is constant or follows a schedule. Credit is refilled when a
call comes, at the rate in force then, and kept below ten milliseconds of it. Rates, credit and times are
exact here; times are in seconds. -/

namespace TxGen

/-- One step of a step-load schedule. -/
structure RateStep where
  tps : ℕ
  duration : NNRat
deriving DecidableEq

def RateStep.Positive (step : RateStep) : Prop := 0 < step.tps ∧ 0 < step.duration

namespace RateStep

section

variable (parseDuration : String → Except String NNRat) (debug : String → String)

/-- One element of a schedule. `parseDuration` is `humantime::parse_duration`, `debug` quotes a text. -/
def parseStep (step : List Char) : Except Report RateStep := do
  let text := debug (String.ofList step)
  let (tps, duration) ← okOr (Text.splitOnce ':' (Text.trim step))
    s!"invalid rate step {text}: expected TPS:DURATION, e.g. 2000:10s"
  let tps ← okOr (parseUsize (String.ofList (Text.trim tps))) s!"invalid TPS in rate step {text}"
  let duration ← (parseDuration (String.ofList (Text.trim duration))).mapError fun err =>
    [s!"invalid duration in rate step {text}: {err}"]
  bailIf (tps = 0 ∨ duration = 0) s!"rate step {text} needs a positive TPS and duration"
  return { tps, duration }

/-- Parses a schedule such as "200:30s,2000:10s,200:60s". -/
def parseSchedule (input : String) : Except Report (List RateStep) := do
  let steps ← (input.toList.splitOn ',').mapM (parseStep parseDuration debug)
  bailIf (steps = []) "rate schedule must have at least one step"
  return steps

end

variable {parseDuration : String → Except String NNRat} {debug : String → String}

theorem parseStep_positive {text : List Char} {step : RateStep}
    (h : parseStep parseDuration debug text = .ok step) : step.Positive := by
  obtain ⟨⟨tpsText, durationText⟩, -, htps⟩ := bind_eq_ok.1 h
  obtain ⟨tps, -, hduration⟩ := bind_eq_ok.1 htps
  obtain ⟨duration, -, hchecked⟩ := bind_eq_ok.1 hduration
  obtain ⟨⟨⟩, hpositive, hstep⟩ := bind_eq_ok.1 hchecked
  cases hstep
  rw [bailIf_eq_ok, not_or] at hpositive
  exact ⟨Nat.pos_of_ne_zero hpositive.1, pos_iff_ne_zero.2 hpositive.2⟩

/-- The steps of a parsed schedule are positive. -/
theorem parseSchedule_positive {input : String} {steps : List RateStep}
    (h : parseSchedule parseDuration debug input = .ok steps) :
    steps ≠ [] ∧ ∀ step ∈ steps, step.Positive := by
  obtain ⟨parsed, hparsed, hchecked⟩ := bind_eq_ok.1 h
  obtain ⟨⟨⟩, hsome, heq⟩ := bind_eq_ok.1 hchecked
  cases heq
  refine ⟨bailIf_eq_ok.1 hsome, ?_⟩
  clear h hchecked hsome
  generalize input.toList.splitOn ',' = elements at hparsed
  induction Fallible.mapM_ok.1 hparsed with
  | nil => exact List.forall_mem_nil _
  | cons hstep hsteps ih =>
      exact List.forall_mem_cons.2 ⟨parseStep_positive hstep, ih (Fallible.mapM_ok.2 hsteps)⟩

end RateStep

/-- `RATE_LIMITER_MAX_BURST` in seconds -/
def rateLimiterMaxBurst : ℚ := 1 / 100

/-- The burst at a rate. -/
def burstOf (rate : ℚ) : ℚ := max (rate * rateLimiterMaxBurst) 1

structure RateLimiter where
  rate : ℚ
  /-- What buffers are sized for. -/
  burstCapacity : ℚ
  /-- Empty for a constant rate. -/
  schedule : List RateStep

structure RateLimiterState where
  tokens : ℚ
  lastRefill : ℚ
  /-- When the schedule started; without it the first step's rate holds. -/
  started : Option ℚ
deriving DecidableEq

/-- `Instant::duration_since` -/
def durationSince (now earlier : ℚ) : ℚ := max (now - earlier) 0

def RateLimiterState.refill (state : RateLimiterState) (now rate burstCapacity : ℚ) :
    RateLimiterState :=
  { state with
    tokens := min (state.tokens + durationSince now state.lastRefill * rate) burstCapacity
    lastRefill := now }

namespace RateLimiter

def withSchedule (tokensPerSec : ℕ) (schedule : List RateStep) : RateLimiter where
  rate := tokensPerSec
  burstCapacity := burstOf tokensPerSec
  schedule := schedule

def new (tokensPerSec : ℕ) : RateLimiter := withSchedule tokensPerSec []

/-- A limiter that follows a schedule; buffers are sized for its peak rate. -/
def scheduled (schedule : List RateStep) : RateLimiter :=
  withSchedule (((schedule.map (·.tps)).max?).getD 1) schedule

/-- The state of a limiter that is made at `now`. -/
def initial (limiter : RateLimiter) (now : ℚ) : RateLimiterState where
  tokens := burstOf
    ((limiter.schedule.head?.map fun step => (step.tps : ℚ)).getD limiter.rate)
  lastRefill := now
  started := none

/-- Starts the schedule from its first step, with first-step credit. -/
def start (limiter : RateLimiter) (now : ℚ) (state : RateLimiterState) : RateLimiterState :=
  match limiter.schedule with
  | [] => state
  | first :: _ =>
    { state with started := some now, tokens := burstOf first.tps, lastRefill := now }

/-- The rate of the first step that ends after `elapsed`; the last step holds afterwards. -/
def rateAtFrom (elapsed : ℚ) : ℚ → ℚ → List RateStep → ℚ
  | _, last, [] => last
  | offset, _, step :: steps =>
    if elapsed < offset + step.duration then step.tps
    else rateAtFrom elapsed (offset + step.duration) step.tps steps

/-- Rate in effect the given time after the schedule started. -/
def rateAt (limiter : RateLimiter) (elapsed : ℚ) : ℚ :=
  rateAtFrom elapsed 0 limiter.rate limiter.schedule

/-- The rate in effect at `now`; before the schedule starts its first step holds. -/
def rateSince (limiter : RateLimiter) (started : Option ℚ) (now : ℚ) : ℚ :=
  limiter.rateAt ((started.map (durationSince now)).getD 0)

/-- Take a token, or say after which time there is one. -/
def tryAcquireOrDelay (limiter : RateLimiter) (now : ℚ) (state : RateLimiterState) :
    Option ℚ × RateLimiterState :=
  let rate := limiter.rateSince state.started now
  let state := state.refill now rate (burstOf rate)
  if 1 ≤ state.tokens then (none, { state with tokens := state.tokens - 1 })
  else (some ((1 - state.tokens) / rate), state)

/-! ## Runs -/

/-- What happens to a limiter, and when. -/
inductive Event
  | acquire (now : ℚ)
  | start (now : ℚ)
deriving DecidableEq

def Event.time : Event → ℚ
  | .acquire now => now
  | .start now => now

def Event.isStart : Event → Bool
  | .acquire _ => false
  | .start _ => true

def step (limiter : RateLimiter) (state : RateLimiterState) : Event → RateLimiterState
  | .acquire now => (limiter.tryAcquireOrDelay now state).2
  | .start now => limiter.start now state

def run (limiter : RateLimiter) (state : RateLimiterState) (events : List Event) :
    RateLimiterState := events.foldl limiter.step state

/-- The times of the calls that are granted. -/
def grants (limiter : RateLimiter) : RateLimiterState → List Event → List ℚ
  | _, [] => []
  | state, .acquire now :: events =>
    if (limiter.tryAcquireOrDelay now state).1 = none then
      now :: grants limiter (limiter.tryAcquireOrDelay now state).2 events
    else grants limiter (limiter.tryAcquireOrDelay now state).2 events
  | state, .start now :: events => grants limiter (limiter.start now state) events

/-- The events happen in their order, none before the limiter is made. -/
def Ordered (created : ℚ) (events : List Event) : Prop :=
  (created :: events.map Event.time).Pairwise (· ≤ ·)

/-- The start of the schedule that is in effect at a time. -/
def startedAt (events : List Event) (time : ℚ) : Option ℚ :=
  ((events.filter fun event => event.isStart && event.time ≤ time).map Event.time).getLast?

/-- The rate in force at a time. -/
def rateInForce (limiter : RateLimiter) (events : List Event) (time : ℚ) : ℚ :=
  limiter.rateSince (startedAt events time) time

end RateLimiter

/-- The rates of `SenderConfig`. -/
structure SenderConfig where
  rateLimit : ℕ
  rateSchedule : List RateStep

/-- Builds the rate limiter for this configuration, if any limit applies. -/
def SenderConfig.rateLimiter (config : SenderConfig) : Option RateLimiter :=
  if config.rateSchedule ≠ [] then some (RateLimiter.scheduled config.rateSchedule)
  else if 0 < config.rateLimit then some (RateLimiter.new config.rateLimit)
  else none

end TxGen
