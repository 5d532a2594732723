import TxGen.Core.Source
import TxGen.Lib.System

set_option autoImplicit false

/-! # The intervals of the `send` command

`execute_source` up to its final `flush`. One source and one workload sender are shared by
consecutive loops: the setup phase reads up to the first workload transaction, `prepare_workload`
runs the warm-up, and with a validator list the reset and the ramp-up, and
`send_workload_from_source` runs the measurement and the optional tail. Each loop has its own
deadline checks around the awaited read and its own rule for a transaction it holds when it ends.

The task is split at its clock readings and awaits. Time advances between any two of its steps; what
an awaited call other than the source returns is in the label. A failure keeps its cause, not the
contexts that are wrapped around it. -/

namespace TxGen.Send

/-- The arguments that decide about the intervals. Durations and instants are numbers of clock
    units. -/
structure Args where
  skipSetup : Bool := false
  warmup : ℕ := 0
  /-- `--warmup-validators` is given. -/
  warmupValidators : Bool := false
  warmupTimeout : ℕ := 300
  postWarmupResetTimeout : ℕ := 300
  measurementDelay : ℕ := 1
  duration : Option ℕ := none
  /-- `--duration must be positive`. -/
  duration_pos : ∀ d ∈ duration, 0 < d := by decide
  /-- `--warmup-validators` conflicts with `--warmup` and requires `--duration`. -/
  validators_only : warmupValidators = true → warmup = 0 ∧ duration ≠ none := by decide

/-- The loops that take workload transactions from the source. -/
inductive Loop
  /-- `prepare_workload` until every validator has proposed a block. -/
  | proposers (deadline : ℕ)
  /-- `warm_up`: the plain warm-up, or the ramp-up after the reset. -/
  | warmUp (rampUp : Bool) (start duration : ℕ)
  /-- `send_workload_from_source`: the measurement, or the tail after it. -/
  | interval (tail : Bool) (deadline : Option ℕ)
deriving DecidableEq

/-- Where the task is. -/
inductive Control
  /-- `run_setup_phase` is about to read; `setup` is the batch so far. -/
  | setupRead (setup : List Read)
  /-- Within `send_setup` and `finish_setup_phase`. -/
  | setupSend (setup : List Read) (first : Option Read)
  /-- Between the setup phase and the first loop. -/
  | prepare (first : Option Read)
  /-- At the top of a loop; `next` is the transaction it was handed. -/
  | head (loop : Loop) (next : Option Read)
  /-- Within `next_workload_tx`. -/
  | read (loop : Loop) (next : Option Read)
  /-- `next_workload_tx` has returned a transaction. -/
  | took (loop : Loop) (tx : Read)
  /-- Within `Sender::send`. -/
  | sending (loop : Loop)
  /-- Within the flush and the reset after the proposer warm-up. -/
  | reset (deadline : ℕ)
  /-- Between `prepare_workload` and the measurement. -/
  | measure (first : Option Read)
  /-- Between the measurement and the tail. -/
  | startTail
  /-- Within the final `flush`. -/
  | flush
  | finished
  | failed (message : String)
deriving DecidableEq

/-- The task, what is left of the input, and the history of the transactions taken from it. -/
structure State where
  now : ℕ := 0
  source : TxSource
  control : Control := .setupRead []
  /-- The transactions `Sender::send` of the workload sender was called with. -/
  handed : List Read := []
  /-- The transactions a loop held when it ended without passing them on. No step reads this. -/
  discarded : List Read := []
deriving DecidableEq

/-- What happens next. -/
inductive Label
  | tick (elapsed : ℕ)
  /-- The task runs, and the call it awaits, if any, has returned `outcome`. -/
  | run (outcome : Except String Unit)
  /-- `try_join_next` at the top of the proposer warm-up. -/
  | joined (outcome : Option (Except String Unit))
  /-- The timeout around the awaited call fires. -/
  | expire
deriving DecidableEq

/-- A deadline that has passed. -/
def passed (deadline : Option ℕ) (now : ℕ) : Bool :=
  deadline.any (· ≤ now)

/-- `next_workload_tx`: take the transaction at hand or read the next one. -/
def nextWorkloadTx (source : TxSource) (pending : Option Read) :
    Except String (Option Read) × TxSource :=
  let taken : Except String (Option Read) × TxSource := match pending with
    | some tx => (.ok (some tx), source)
    | none => source.nextTx
  match taken with
  | (.ok (some tx), source) =>
    if tx.tx.phase = .setup then (.error "setup transaction appeared after workload started", source)
    else (.ok (some tx), source)
  | taken => taken

def State.goto (s : State) (control : Control) : State := { s with control }

def State.fail (s : State) (message : String) : State := s.goto (.failed message)

/-- Leave a loop while holding `tx`. -/
def State.discard (s : State) (tx : Option Read) : State :=
  { s with discarded := s.discarded ++ tx.toList }

/-- The end of the measurement or of the tail. -/
def State.endInterval (s : State) (args : Args) (tail : Bool) : State :=
  if !tail && args.warmupValidators && args.measurementDelay != 0 then s.goto .startTail
  else s.goto .flush

/-- `warm_up`: without a duration it returns `next`. -/
def State.warmUp (s : State) (rampUp : Bool) (duration : ℕ) (next : Option Read) : State :=
  if duration = 0 then s.goto (.measure next) else s.goto (.head (.warmUp rampUp s.now duration) next)

/-- `prepare_workload` up to its first loop. -/
def State.prepareWorkload (s : State) (args : Args) (first : Option Read) : State :=
  if args.warmupValidators then s.goto (.head (.proposers (s.now + args.warmupTimeout)) first)
  else s.warmUp false args.warmup first

/-- The input has ended. -/
def State.inputEnded (s : State) (args : Args) : Loop → State
  | .proposers _ => s.fail "input ended during warmup"
  | .warmUp _ _ _ =>
    s.fail "input ended during warmup; generate warmup plus measurement duration"
  | .interval tail deadline =>
    if deadline.any (s.now < ·) then
      s.fail ("input ended before the requested " ++
        (if tail then "post-measurement tail" else "measurement") ++ " duration")
    else s.endInterval args tail

/-- The awaited read has returned. -/
def State.readDone (s : State) (args : Args) (loop : Loop) (next : Option Read) : State :=
  let (tx, source) := nextWorkloadTx s.source next
  let s := { s with source }
  match tx with
  | .error e => s.fail e
  | .ok none => s.inputEnded args loop
  | .ok (some tx) => s.goto (.took loop tx)

/-- Call `Sender::send`; an interval checks its deadline once more before. -/
def State.takenTx (s : State) (args : Args) (loop : Loop) (tx : Read) : State :=
  match loop with
  | .interval tail deadline =>
    if passed deadline s.now then (s.discard (some tx)).endInterval args tail
    else { s with handed := s.handed ++ [tx], control := .sending loop }
  | _ => { s with handed := s.handed ++ [tx], control := .sending loop }

/-- The top of a loop; the proposer warm-up has its own label. -/
def State.loopHead (s : State) (args : Args) (loop : Loop) (next : Option Read) : Option State :=
  match loop with
  | .proposers _ => none
  | .warmUp _ start duration =>
    if s.now - start < duration then some (s.goto (.read loop next))
    else some ((s.discard next).goto (.measure none))
  | .interval tail deadline =>
    if passed deadline s.now then some ((s.discard next).endInterval args tail)
    else some (s.goto (.read loop next))

/-- One step of the setup phase's read loop. -/
def State.setupRead (s : State) (args : Args) (setup : List Read) : State :=
  let (tx, source) := s.source.nextTx
  let s := { s with source }
  match tx with
  | .error e => s.fail e
  | .ok none => s.goto (.setupSend setup none)
  | .ok (some tx) =>
    match tx.tx.phase with
    | .setup => s.goto (.setupRead (if args.skipSetup then setup else setup ++ [tx]))
    | .workload => s.goto (.setupSend setup (some tx))

/-- An awaited call has returned `outcome`; on success the task goes on as `next`. -/
def State.await (s : State) (outcome : Except String Unit) (next : State) : State :=
  match outcome with
  | .error e => s.fail e
  | .ok () => next

/-- The task runs. -/
def State.run (s : State) (args : Args) (outcome : Except String Unit) : Option State :=
  match s.control with
  | .setupRead setup => some (s.setupRead args setup)
  | .setupSend _ first => some (s.await outcome (s.goto (.prepare first)))
  | .prepare first => some (s.await outcome (s.prepareWorkload args first))
  | .head loop next => s.loopHead args loop next
  | .read loop next => some (s.readDone args loop next)
  | .took loop tx => some (s.takenTx args loop tx)
  | .sending loop => some (s.await outcome (s.goto (.head loop none)))
  | .reset _ => some (s.await outcome (s.warmUp true args.measurementDelay none))
  | .measure first =>
    let deadline := args.duration.map (s.now + ·)
    some (s.await outcome (s.goto (.head (.interval false deadline) first)))
  | .startTail =>
    let deadline := s.now + args.measurementDelay
    some (s.await outcome (s.goto (.head (.interval true (some deadline)) none)))
  | .flush => some (s.await outcome (s.goto .finished))
  | .finished | .failed _ => none

/-- The proposer warm-up looks whether its observers are done. -/
def State.joined (s : State) (args : Args) (outcome : Option (Except String Unit)) : Option State :=
  match s.control, outcome with
  | .head (.proposers deadline) next, none => some (s.goto (.read (.proposers deadline) next))
  | .head (.proposers _) _, some (.error e) => some (s.fail e)
  | .head (.proposers _) next, some (.ok ()) =>
    some ((s.discard next).goto (.reset (s.now + args.postWarmupResetTimeout)))
  | _, _ => none

/-- A timeout fires. It polls the call first, so a transaction at hand is taken before; the read that
    it cancels has consumed nothing. -/
def State.expire (s : State) (args : Args) : Option State :=
  match s.control with
  | .read (.proposers deadline) none | .sending (.proposers deadline) =>
    if deadline ≤ s.now then
      some (s.fail "proposer warmup timed out; see waiting validators above")
    else none
  | .read (.interval tail (some deadline)) none =>
    if deadline ≤ s.now then some (s.endInterval args tail) else none
  | .reset deadline =>
    if deadline ≤ s.now then
      some (s.fail "post-warmup reset timed out; see validator pools and checkpoints above")
    else none
  | _ => none

def step (args : Args) (s : State) : Label → Option State
  | .tick elapsed => some { s with now := s.now + elapsed }
  | .run outcome => s.run args outcome
  | .joined outcome => s.joined args outcome
  | .expire => s.expire args

/-- The `send` command on the input `lines`. -/
def system (args : Args) (lines : List Line) : System State Label where
  init := { source := { lines } }
  step := step args

end TxGen.Send
