import TxGen.Lib.KeyedLists
import TxGen.Lib.System
import TxGen.Metrics.RemoteWrite

set_option autoImplicit false

/-! # Uploading the final report

`push_report_async` of `prometheus_reporter.rs`: the chunks of the report are encoded in parallel and
uploaded in order. A state of the `uploader` is one in which the loop awaits something: the end of an
encode task, the answer to a request, or both. Each step is what is awaited and all that runs before
the next await. -/

namespace TxGen.Metrics

open KeyedList (lookup?)

/-! ## Chunks of the report -/

/-- Up to `n` samples, and what is left of them. An error ends the chunk. -/
def takeChunk : ℕ → List (Except Report Sample) →
    Except Report (List Sample) × List (Except Report Sample)
  | 0, samples => (.ok [], samples)
  | _ + 1, [] => (.ok [], [])
  | _ + 1, .error report :: rest => (.error report, rest)
  | n + 1, .ok sample :: rest => ((takeChunk n rest).1.map (sample :: ·), (takeChunk n rest).2)

theorem length_takeChunk (n : ℕ) (samples : List (Except Report Sample)) :
    (takeChunk n samples).2.length ≤ samples.length := by
  fun_induction takeChunk n samples with
  | case1 => exact Nat.le_refl _
  | case2 => exact Nat.le_refl _
  | case3 => exact Nat.le_succ _
  | case4 n sample rest ih => exact Nat.le_succ_of_le ih

/-- Iterate over archived samples in bounded chunks. -/
def sampleChunks (chunkSize : ℕ) : List (Except Report Sample) → List (Except Report (List Sample))
  | [] => []
  | .error report :: rest => .error report :: sampleChunks chunkSize rest
  | .ok sample :: rest =>
    let chunk := takeChunk (max chunkSize 1 - 1) rest
    chunk.1.map (sample :: ·) :: sampleChunks chunkSize chunk.2
termination_by samples => samples.length
decreasing_by
  · simp
  · exact Nat.lt_succ_of_le (length_takeChunk _ _)

/-! ## State -/

/-- What `fill_encode_tasks` works on. The tasks are in the order they were spawned. -/
structure Input where
  chunks : List (Except Report (List Sample))
  /-- The index of the next chunk -/
  idx : ℕ := 0
  tasks : List (ℕ × List Sample) := []
  inputDone : Bool := false

def fillFrom (workers : ℕ) : List (Except Report (List Sample)) → ℕ → List (ℕ × List Sample) →
    Except Report Input
  | [], idx, tasks => .ok ⟨[], idx, tasks, tasks.length < workers⟩
  | .error report :: rest, idx, tasks =>
    if tasks.length < workers then .error report else .ok ⟨.error report :: rest, idx, tasks, false⟩
  | .ok chunk :: rest, idx, tasks =>
    if tasks.length < workers then fillFrom workers rest (idx + 1) (tasks ++ [(idx, chunk)])
    else .ok ⟨.ok chunk :: rest, idx, tasks, false⟩

def fillEncodeTasks (workers : ℕ) (input : Input) : Except Report Input :=
  if input.inputDone then .ok input else fillFrom workers input.chunks input.idx input.tasks

inductive Event
  | posted (idx : ℕ) (body : List UInt8)
  | accepted (idx : ℕ) (body : List UInt8)
deriving DecidableEq

inductive Await
  /-- A batch is sent: the body whose answer is awaited, if any, and those to be posted yet. -/
  | uploading (inFlight : Option (List UInt8)) (bodies : List (List UInt8))
  /-- `join_next` with nothing to send -/
  | joining
  | done (result : Except Report ℕ)

structure Uploader where
  input : Input
  prepared : List PreparedBatch := []
  nextUpload : ℕ := 0
  pushed : ℕ := 0
  await : Await := .joining
  /-- What was uploaded, in order -/
  log : List Event := []

/-! ## Steps -/

section Steps

-- the order of a map may differ for each batch
variable (order : ℕ → List TimeSeries → List TimeSeries) (format : Format)
  (headers : Except Report Unit) (encodeWorkers : ℕ)

/-- What the encode task of a chunk returns -/
def prepareOwnedBatch (task : ℕ × List Sample) : Except Report PreparedBatch :=
  prepareBatch (order task.1) format task.2 task.1

namespace Uploader

def insert (s : Uploader) (batch : PreparedBatch) : Uploader :=
  { s with prepared := batch :: s.prepared.filter fun other => other.idx ≠ batch.idx }

/-- The loop from its head to the next await -/
def loop (s : Uploader) : Uploader :=
  match fillEncodeTasks (max encodeWorkers 1) s.input with
  | .error report => { s with await := .done (.error report) }
  | .ok input =>
    match lookup? PreparedBatch.idx s.nextUpload s.prepared with
    | some batch =>
      { s with
        input
        prepared := s.prepared.filter fun other => other.idx ≠ s.nextUpload
        pushed := s.pushed + batch.samples
        await := .uploading none batch.bodies }
    | none =>
      if input.inputDone && input.tasks.isEmpty && s.prepared.isEmpty then
        { s with input, await := .done (.ok s.pushed) }
      else { s with input, await := .joining }

/-- What follows the insertion of a batch: the upload that is going on, or the loop -/
def resume (s : Uploader) : Uploader :=
  match s.await with
  | .uploading _ _ =>
    match fillEncodeTasks (max encodeWorkers 1) s.input with
    | .error report => { s with await := .done (.error report) }
    | .ok input => { s with input }
  | _ => s.loop encodeWorkers

/-- An encode task that has ended is joined. -/
def join (s : Uploader) (i : ℕ) (task : ℕ × List Sample) (panicked : Bool) : Uploader :=
  let s := { s with input.tasks := s.input.tasks.eraseIdx i }
  let result := if panicked then bail "remote write encode worker panicked"
    else prepareOwnedBatch order format task
  match result with
  | .error report => { s with await := .done (.error report) }
  | .ok batch => (s.insert batch).resume encodeWorkers

end Uploader

inductive Awaited
  /-- The next body is posted, or all were accepted. -/
  | post
  | answer (result : Except Report Unit)
  /-- The task at position `i` has ended. -/
  | join (i : ℕ) (panicked : Bool)
  /-- `join_next` without a task returns at once. -/
  | noTask

namespace Uploader

def step (s : Uploader) : Awaited → Option Uploader
  | .post =>
    match s.await with
    | .uploading none [] => some ({ s with nextUpload := s.nextUpload + 1 }.loop encodeWorkers)
    | .uploading none (body :: bodies) =>
      match headers with
      | .error report => some { s with await := .done (.error report) }
      | .ok () => some { s with
          await := .uploading (some body) bodies
          log := s.log ++ [.posted s.nextUpload body] }
    | _ => none
  | .answer result =>
    match s.await with
    | .uploading (some body) bodies =>
      match result with
      | .error report => some { s with await := .done (.error report) }
      | .ok () => some { s with
          await := .uploading none bodies
          log := s.log ++ [.accepted s.nextUpload body] }
    | _ => none
  | .join i panicked =>
    match s.await, s.input.tasks[i]? with
    | .done _, _ => none
    | _, some task => some (s.join order format encodeWorkers i task panicked)
    | _, none => none
  | .noTask =>
    match s.await with
    | .joining => if s.input.tasks.isEmpty then some (s.loop encodeWorkers) else none
    | _ => none

end Uploader

/-- Uploading a report -/
def uploader (chunks : List (Except Report (List Sample))) : System Uploader Awaited where
  init := Uploader.loop encodeWorkers { input := { chunks } }
  step := Uploader.step order format headers encodeWorkers

def pushReport (batchSize : ℕ) (samples : List (Except Report Sample)) : System Uploader Awaited :=
  uploader order format headers encodeWorkers (sampleChunks batchSize samples)

end Steps

end TxGen.Metrics
