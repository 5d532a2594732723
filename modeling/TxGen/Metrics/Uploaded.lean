import TxGen.Metrics.FinalReport
import TxGen.Metrics.Requests

set_option autoImplicit false
set_option linter.unusedSectionVars false

/-! # The upload is ordered and complete

The chunks that were spawned are those uploaded, the one being uploaded, those prepared and those with a
task, and no chunk is in two of these places. So the next batch to upload is prepared or has a task,
and what is uploaded follows the order of the chunks. -/

namespace TxGen.Metrics

open KeyedList (lookup?)

variable {order : ℕ → List TimeSeries → List TimeSeries} {format : Format}
  {headers : Except Report Unit} {encodeWorkers : ℕ}

/-! ## The chunks -/

theorem takeChunk_ok {n : ℕ} {samples : List (Except Report Sample)} {chunk : List Sample}
    (h : (takeChunk n samples).1 = .ok chunk) :
    samples = chunk.map .ok ++ (takeChunk n samples).2 := by
  fun_induction takeChunk n samples generalizing chunk with
  | case1 samples =>
      obtain rfl := Except.ok.inj h
      rfl
  | case2 n =>
      obtain rfl := Except.ok.inj h
      rfl
  | case3 n report rest => cases h
  | case4 n sample rest ih =>
      cases hrest : (takeChunk n rest).1 with
      | error report => simp [hrest, Except.map] at h
      | ok tail =>
          simp only [hrest, Except.map, Except.ok.injEq] at h
          subst h
          rw [List.map_cons, List.cons_append, ← ih hrest]

/-- The chunks of a report without errors are its samples, in order. -/
theorem sampleChunks_ok {size : ℕ} {samples : List (Except Report Sample)}
    {chunks : List (List Sample)} (h : sampleChunks size samples = chunks.map .ok) :
    samples = chunks.flatten.map .ok := by
  fun_induction sampleChunks size samples generalizing chunks with
  | case1 =>
      obtain rfl : chunks = [] := by simpa using h.symm
      rfl
  | case2 report rest ih =>
      cases chunks with
      | nil => cases h
      | cons chunk rest' => cases (List.cons.inj h).1
  | case3 sample rest taken =>
      rename_i ih
      cases chunks with
      | nil => cases h
      | cons chunk rest' =>
          obtain ⟨hchunk, hrest⟩ := List.cons.inj h
          cases htaken : taken.1 with
          | error report => simp [htaken, Except.map] at hchunk
          | ok tail =>
              simp only [htaken, Except.map, Except.ok.injEq] at hchunk
              subst hchunk
              have htail := takeChunk_ok htaken
              rw [List.flatten_cons, List.cons_append, List.map_cons, List.map_append, ← ih hrest,
                ← htail]

variable (order format) in
/-- The batches of the chunks before the first that cannot be read or encoded -/
def batches : ℕ → List (Except Report (List Sample)) → List PreparedBatch
  | _, [] => []
  | _, .error _ :: _ => []
  | idx, .ok chunk :: rest =>
    match prepareOwnedBatch order format (idx, chunk) with
    | .ok batch => batch :: batches (idx + 1) rest
    | .error _ => []

/-- The upload of a batch -/
def PreparedBatch.events (batch : PreparedBatch) : List Event :=
  batch.bodies.flatMap fun body => [.posted batch.idx body, .accepted batch.idx body]

theorem prepareOwnedBatch_ok {task : ℕ × List Sample} {batch : PreparedBatch}
    (h : prepareOwnedBatch order format task = .ok batch) :
    batch.idx = task.1 ∧ batch.samples = task.2.length := by
  obtain ⟨bodies, -, hbatch⟩ := Fallible.bind_ok.1 h
  obtain rfl := Except.ok.inj hbatch
  exact ⟨rfl, rfl⟩

theorem length_batches_le (idx : ℕ) (chunks : List (Except Report (List Sample))) :
    (batches order format idx chunks).length ≤ chunks.length := by
  fun_induction batches order format idx chunks with
  | case1 => exact Nat.le_refl _
  | case2 => exact Nat.zero_le _
  | case3 idx chunk rest batch hbatch ih => exact Nat.succ_le_succ ih
  | case4 => exact Nat.zero_le _

/-- The chunk after the batches is the next of them when it is encoded. -/
theorem getElem?_batches {idx n : ℕ} {chunks : List (Except Report (List Sample))}
    {chunk : List Sample} {batch : PreparedBatch}
    (hn : n ≤ (batches order format idx chunks).length) (hchunk : chunks[n]? = some (.ok chunk))
    (hbatch : prepareOwnedBatch order format (idx + n, chunk) = .ok batch) :
    (batches order format idx chunks)[n]? = some batch := by
  induction chunks generalizing idx n with
  | nil => simp at hchunk
  | cons first rest ih =>
      cases n with
      | zero =>
          obtain rfl : first = .ok chunk := by simpa using hchunk
          rw [Nat.add_zero] at hbatch
          simp [batches, hbatch]
      | succ n =>
          cases first with
          | error report => simp [batches] at hn
          | ok chunk' =>
              cases hfirst : prepareOwnedBatch order format (idx, chunk') with
              | error report => simp [batches, hfirst] at hn
              | ok batch' =>
                  simp only [batches, hfirst, List.length_cons, Nat.add_le_add_iff_right] at hn
                  simp only [batches, hfirst, List.getElem?_cons_succ]
                  refine ih hn (by simpa using hchunk) ?_
                  rwa [Nat.add_assoc, Nat.add_comm 1]

/-- When there is a batch for each chunk, the batches have the samples of the chunks. -/
theorem batches_complete {idx : ℕ} {chunks : List (Except Report (List Sample))}
    (h : (batches order format idx chunks).length = chunks.length) :
    ∃ read : List (List Sample), chunks = read.map .ok ∧
      (batches order format idx chunks).map PreparedBatch.samples = read.map List.length := by
  fun_induction batches order format idx chunks with
  | case1 => exact ⟨[], rfl, rfl⟩
  | case2 => simp at h
  | case3 idx chunk rest batch hbatch ih =>
      obtain ⟨read, hread, hsamples⟩ := ih (by simpa using h)
      refine ⟨chunk :: read, by rw [hread, List.map_cons], ?_⟩
      rw [List.map_cons, List.map_cons, hsamples, (prepareOwnedBatch_ok hbatch).2]
  | case4 => simp at h

/-- Every chunk was read and encoded when there is a batch for each. -/
theorem of_complete {idx : ℕ} {chunks : List (Except Report (List Sample))}
    (h : (batches order format idx chunks).length = chunks.length) {n : ℕ} {result}
    (hn : chunks[n]? = some result) :
    ∃ chunk batch, result = .ok chunk ∧
      prepareOwnedBatch order format (idx + n, chunk) = .ok batch := by
  induction chunks generalizing idx n with
  | nil => simp at hn
  | cons first rest ih =>
      cases first with
      | error report => simp [batches] at h
      | ok chunk =>
          cases hfirst : prepareOwnedBatch order format (idx, chunk) with
          | error report => simp [batches, hfirst] at h
          | ok batch =>
              cases n with
              | zero =>
                  obtain rfl : Except.ok chunk = result := by simpa using hn
                  exact ⟨chunk, batch, rfl, hfirst⟩
              | succ n =>
                  obtain ⟨chunk', batch', hresult, hbatch'⟩ : ∃ chunk' batch', result = .ok chunk' ∧
                      prepareOwnedBatch order format (idx + 1 + n, chunk') = .ok batch' :=
                    ih (by simpa [batches, hfirst] using h) (by simpa using hn)
                  refine ⟨chunk', batch', hresult, ?_⟩
                  rwa [Nat.add_assoc, Nat.add_comm 1] at hbatch'

/-! ## Spawning tasks -/

variable {all : List (Except Report (List Sample))}

/-- Spawning goes on with the chunks, in order, until all workers have a task or no chunk is left. -/
structure Filled (all : List (Except Report (List Sample))) (workers : ℕ) (idx : ℕ)
    (tasks : List (ℕ × List Sample)) (input : Input) : Prop where
  follows : input.chunks = all.drop input.idx
  idx_le : input.idx ≤ all.length
  le_idx : idx ≤ input.idx
  spawned : ∃ new, input.tasks = tasks ++ new ∧
    new.map Prod.fst = List.range' idx (input.idx - idx) ∧
    ∀ task ∈ new, all[task.1]? = some (.ok task.2)
  inputDone : input.inputDone = true → input.chunks = []
  busy : input.inputDone = true ∨ workers ≤ input.tasks.length

theorem fillFrom_filled {workers : ℕ} {chunks : List (Except Report (List Sample))} {idx : ℕ}
    {tasks : List (ℕ × List Sample)} {input : Input} (hchunks : chunks = all.drop idx)
    (hidx : idx ≤ all.length) (h : fillFrom workers chunks idx tasks = .ok input) :
    Filled all workers idx tasks input := by
  have hnone : ∃ new, tasks = tasks ++ new ∧ new.map Prod.fst = List.range' idx (idx - idx) ∧
      ∀ task ∈ new, all[task.1]? = some (.ok task.2) := ⟨[], by simp, by simp, by simp⟩
  fun_induction fillFrom workers chunks idx tasks with
  | case1 idx tasks =>
      obtain rfl := Except.ok.inj h
      refine ⟨hchunks, hidx, Nat.le_refl _, hnone, fun _ => rfl, ?_⟩
      by_cases hlt : tasks.length < workers
      · exact Or.inl (by simp [hlt])
      · exact Or.inr (Nat.le_of_not_lt hlt)
  | case2 report rest idx tasks hlt => cases h
  | case3 report rest idx tasks hlt =>
      obtain rfl := Except.ok.inj h
      exact ⟨hchunks, hidx, Nat.le_refl _, hnone, nofun, Or.inr (Nat.le_of_not_lt hlt)⟩
  | case4 chunk rest idx tasks hlt ih =>
      have hget : all[idx]? = some (.ok chunk) := by
        rw [← List.head?_drop, ← hchunks]
        rfl
      have hrest : rest = all.drop (idx + 1) := by
        rw [← List.tail_drop, ← hchunks]
        rfl
      have hlt' : idx < all.length := (List.getElem?_eq_some_iff.1 hget).1
      have hfilled := ih hrest hlt' h ⟨[], by simp, by simp, by simp⟩
      obtain ⟨new, htasks, hnew, hread⟩ := hfilled.spawned
      refine ⟨hfilled.follows, hfilled.idx_le, Nat.le_of_succ_le hfilled.le_idx,
        ⟨(idx, chunk) :: new, ?_, ?_, ?_⟩, hfilled.inputDone, hfilled.busy⟩
      · rw [htasks, List.append_assoc, List.singleton_append]
      · have hle := hfilled.le_idx
        have hlen : input.idx - idx = input.idx - (idx + 1) + 1 := by omega
        rw [List.map_cons, hnew, hlen, List.range'_succ]
      · intro task htask
        rcases List.mem_cons.1 htask with rfl | htask
        · exact hget
        · exact hread task htask
  | case5 chunk rest idx tasks hlt =>
      obtain rfl := Except.ok.inj h
      exact ⟨hchunks, hidx, Nat.le_refl _, hnone, nofun, Or.inr (Nat.le_of_not_lt hlt)⟩

theorem fillFrom_error {workers : ℕ} {chunks : List (Except Report (List Sample))} {idx : ℕ}
    {tasks : List (ℕ × List Sample)} {report : Report}
    (h : fillFrom workers chunks idx tasks = .error report) : .error report ∈ chunks := by
  fun_induction fillFrom workers chunks idx tasks with
  | case1 idx tasks => cases h
  | case2 report' rest idx tasks hlt =>
      obtain rfl := Except.error.inj h
      exact List.mem_cons_self
  | case3 report' rest idx tasks hlt => cases h
  | case4 chunk rest idx tasks hlt ih => exact List.mem_cons_of_mem _ (ih h)
  | case5 chunk rest idx tasks hlt => cases h

/-! ## The invariant -/

variable (order format) in
/-- Where the chunks are, when the first `started` are uploaded or being uploaded -/
structure Core (all : List (Except Report (List Sample))) (started : ℕ) (input : Input)
    (prepared : List PreparedBatch) (pushed : ℕ) : Prop where
  follows : input.chunks = all.drop input.idx
  idx_le : input.idx ≤ all.length
  inputDone : input.inputDone = true → input.chunks = []
  tasks : ∀ task ∈ input.tasks, all[task.1]? = some (.ok task.2)
  encoded : ∀ batch ∈ prepared, ∃ chunk, all[batch.idx]? = some (.ok chunk) ∧
    prepareOwnedBatch order format (batch.idx, chunk) = .ok batch
  indices : (input.tasks.map Prod.fst ++ prepared.map PreparedBatch.idx).Perm
    (List.range' started (input.idx - started))
  started_le : started ≤ input.idx
  uploaded : started ≤ (batches order format 0 all).length
  counted : pushed = (((batches order format 0 all).take started).map PreparedBatch.samples).sum

variable (order format) in
/-- The upload of the first `n` batches -/
def uploads (all : List (Except Report (List Sample))) (n : ℕ) : List Event :=
  ((batches order format 0 all).take n).flatMap PreparedBatch.events

variable (order format encodeWorkers) in
/-- What holds whenever the loop awaits something and nothing has failed -/
inductive Good (all : List (Except Report (List Sample))) (s : Uploader) : Prop
  | uploading (inFlight : Option (List UInt8)) (bodies sent : List (List UInt8))
      (batch : PreparedBatch) (await : s.await = .uploading inFlight bodies)
      (core : Core order format all (s.nextUpload + 1) s.input s.prepared s.pushed)
      (idx : batch.idx = s.nextUpload)
      (current : (batches order format 0 all)[s.nextUpload]? = some batch)
      (split : batch.bodies = sent ++ inFlight.toList ++ bodies)
      (log : s.log = uploads order format all s.nextUpload ++
        sent.flatMap (fun body => [.posted batch.idx body, .accepted batch.idx body]) ++
        inFlight.toList.map (.posted batch.idx))
  | joining (await : s.await = .joining)
      (core : Core order format all s.nextUpload s.input s.prepared s.pushed)
      (log : s.log = uploads order format all s.nextUpload)
      (missing : lookup? PreparedBatch.idx s.nextUpload s.prepared = none)
      (busy : s.input.inputDone = true ∨ max encodeWorkers 1 ≤ s.input.tasks.length)
      (unfinished : ¬ (s.input.inputDone = true ∧ s.input.tasks = [] ∧ s.prepared = []))
  | done (await : s.await = .done (.ok s.pushed))
      (core : Core order format all s.nextUpload s.input s.prepared s.pushed)
      (log : s.log = uploads order format all s.nextUpload)
      (finished : s.input.inputDone = true ∧ s.input.tasks = [] ∧ s.prepared = [])

theorem uploads_succ {n : ℕ} {batch : PreparedBatch}
    (h : (batches order format 0 all)[n]? = some batch) :
    uploads order format all (n + 1) = uploads order format all n ++ batch.events := by
  rw [uploads, List.take_add_one, h, List.flatMap_append]
  simp [uploads]

theorem uploads_initial (n : ℕ) :
    uploads order format all n <+: (batches order format 0 all).flatMap PreparedBatch.events := by
  refine ⟨((batches order format 0 all).drop n).flatMap PreparedBatch.events, ?_⟩
  rw [uploads, ← List.flatMap_append, List.take_append_drop]

/-- What is uploaded follows the order of the batches. -/
theorem Good.log_initial {s : Uploader} (h : Good order format encodeWorkers all s) :
    s.log <+: (batches order format 0 all).flatMap PreparedBatch.events := by
  cases h with
  | uploading inFlight bodies sent batch await core idx current split log =>
      refine List.IsPrefix.trans ?_ (uploads_initial (s.nextUpload + 1))
      rw [log, uploads_succ current, List.append_assoc, PreparedBatch.events, split]
      refine (List.prefix_append_right_inj _).2 ?_
      simp only [List.flatMap_append, List.append_assoc]
      refine (List.prefix_append_right_inj _).2 ?_
      cases inFlight with
      | none => simp
      | some body => simp
  | joining _ _ log => exact log ▸ uploads_initial _
  | done _ _ log => exact log ▸ uploads_initial _

/-! ## Steps -/

section

variable {started : ℕ} {input : Input} {prepared : List PreparedBatch} {pushed : ℕ}

theorem Core.filled (h : Core order format all started input prepared pushed) {workers : ℕ}
    {input' : Input} (hfill : fillEncodeTasks workers input = .ok input') :
    Core order format all started input' prepared pushed ∧
      (input'.inputDone = true ∨ workers ≤ input'.tasks.length) := by
  unfold fillEncodeTasks at hfill
  split at hfill
  · rename_i hdone
    obtain rfl := Except.ok.inj hfill
    exact ⟨h, Or.inl hdone⟩
  · have hfilled := fillFrom_filled h.follows h.idx_le hfill
    obtain ⟨new, htasks, hnew, hread⟩ := hfilled.spawned
    have hle := hfilled.le_idx
    have hstarted := h.started_le
    refine ⟨⟨hfilled.follows, hfilled.idx_le, hfilled.inputDone, fun task htask => ?_, h.encoded, ?_,
      hstarted.trans hle, h.uploaded, h.counted⟩, hfilled.busy⟩
    · rcases List.mem_append.1 (htasks ▸ htask) with hold | hnew'
      · exact h.tasks task hold
      · exact hread task hnew'
    · have hrange : List.range' started (input'.idx - started) =
          List.range' started (input.idx - started) ++
            List.range' input.idx (input'.idx - input.idx) := by
        have hstart : started + (input.idx - started) = input.idx := by omega
        have hlen : input'.idx - started = input.idx - started + (input'.idx - input.idx) := by omega
        rw [hlen, ← List.range'_append_1, hstart]
      rw [htasks, List.map_append, hnew, hrange, List.append_assoc]
      refine List.Perm.trans (List.Perm.append_left _ List.perm_append_comm) ?_
      rw [← List.append_assoc]
      exact h.indices.append_right _

theorem fillEncodeTasks_error (h : Core order format all started input prepared pushed) {workers : ℕ}
    {report : Report} (hfill : fillEncodeTasks workers input = .error report) :
    .error report ∈ all := by
  unfold fillEncodeTasks at hfill
  split at hfill
  · cases hfill
  · have hmem := fillFrom_error hfill
    rw [h.follows] at hmem
    exact List.mem_of_mem_drop hmem

/-- The chunk of a joined task goes to the prepared batches. -/
theorem Core.joined (h : Core order format all started input prepared pushed) {i : ℕ}
    {task : ℕ × List Sample} (htask : input.tasks[i]? = some task) {batch : PreparedBatch}
    (hbatch : prepareOwnedBatch order format task = .ok batch) :
    prepared.filter (fun other => other.idx ≠ batch.idx) = prepared ∧
      Core order format all started { input with tasks := input.tasks.eraseIdx i }
        (batch :: prepared) pushed := by
  obtain ⟨hlt, hget⟩ := List.getElem?_eq_some_iff.1 htask
  have hidx : batch.idx = task.1 := (prepareOwnedBatch_ok hbatch).1
  have hmove : ((input.tasks.eraseIdx i).map Prod.fst ++ task.1 ::
      prepared.map PreparedBatch.idx).Perm
        (input.tasks.map Prod.fst ++ prepared.map PreparedBatch.idx) := by
    refine List.perm_middle.trans ?_
    rw [← List.cons_append, ← List.map_cons]
    exact ((hget ▸ List.getElem_cons_eraseIdx_perm hlt).map Prod.fst).append_right _
  have hnodup := ((hmove.trans h.indices).nodup_iff).2 List.nodup_range'
  have hnew : ∀ other ∈ prepared, other.idx ≠ batch.idx := by
    intro other hother heq
    have htail := (List.nodup_append.1 hnodup).2.1
    exact (List.nodup_cons.1 htail).1 (hidx ▸ heq ▸ List.mem_map_of_mem hother)
  refine ⟨List.filter_eq_self.2 fun other hother => by simpa using hnew other hother,
    h.follows, h.idx_le, h.inputDone, fun other hother => ?_, fun other hother => ?_, ?_,
    h.started_le, h.uploaded, h.counted⟩
  · exact h.tasks other (List.mem_of_mem_eraseIdx hother)
  · rcases List.mem_cons.1 hother with rfl | hother
    · rw [hidx]
      exact ⟨task.2, h.tasks task (List.mem_of_getElem? htask), hbatch⟩
    · exact h.encoded other hother
  · rw [List.map_cons, hidx]
    exact hmove.trans h.indices

/-- The next batch goes from the prepared ones to the upload. -/
theorem Core.next {n : ℕ} (h : Core order format all n input prepared pushed)
    {batch : PreparedBatch} (hbatch : lookup? PreparedBatch.idx n prepared = some batch) :
    (batches order format 0 all)[n]? = some batch ∧ batch.idx = n ∧
      (prepared.filter fun other => other.idx ≠ n).length + 1 = prepared.length ∧
      Core order format all (n + 1) input (prepared.filter fun other => other.idx ≠ n)
        (pushed + batch.samples) := by
  have hmem := KeyedList.mem_of_lookup? hbatch
  have hidx : batch.idx = n := KeyedList.key_of_lookup? hbatch
  obtain ⟨chunk, hchunk, hprepare⟩ := h.encoded batch hmem
  have hcurrent : (batches order format 0 all)[n]? = some batch := by
    refine getElem?_batches h.uploaded (hidx ▸ hchunk) ?_
    rw [Nat.zero_add, ← hidx]
    exact hprepare
  have hin : n ∈ List.range' n (input.idx - n) :=
    h.indices.mem_iff.1 (List.mem_append_right _ (hidx ▸ List.mem_map_of_mem hmem))
  have hlt : n < input.idx := by
    have := List.mem_range'_1.1 hin
    omega
  obtain ⟨k, hk⟩ : ∃ k, input.idx - n = k + 1 := ⟨input.idx - n - 1, by omega⟩
  have hnodup := (h.indices.nodup_iff).2 List.nodup_range'
  have htasks : n ∉ input.tasks.map Prod.fst := by
    intro htask
    exact (List.nodup_append.1 hnodup).2.2 n htask n (hidx ▸ List.mem_map_of_mem hmem) rfl
  -- dropping `n` on both sides
  have hindices : (input.tasks.map Prod.fst ++
      (prepared.filter fun other => other.idx ≠ n).map PreparedBatch.idx).Perm
        (List.range' (n + 1) (input.idx - (n + 1))) := by
    have hfiltered := h.indices.filter fun i => decide (i ≠ n)
    rw [List.filter_append, hk, List.range'_succ] at hfiltered
    have hkeep : (input.tasks.map Prod.fst).filter (fun i => decide (i ≠ n)) =
        input.tasks.map Prod.fst :=
      List.filter_eq_self.2 fun i hi => by
        simp only [ne_eq, decide_eq_true_eq]
        rintro rfl
        exact htasks hi
    have hrest : (List.range' (n + 1) k).filter (fun i => decide (i ≠ n)) = List.range' (n + 1) k := by
      refine List.filter_eq_self.2 fun i hi => ?_
      have := List.mem_range'_1.1 hi
      simp only [ne_eq, decide_eq_true_eq]
      omega
    rw [hkeep, List.filter_cons_of_neg (by simp), hrest, List.filter_map] at hfiltered
    have hlen : input.idx - (n + 1) = k := by omega
    rw [hlen]
    exact hfiltered
  have hlength : (prepared.filter fun other => other.idx ≠ n).length + 1 = prepared.length := by
    have hbefore := h.indices.length_eq
    have hafter := hindices.length_eq
    simp only [List.length_append, List.length_map, List.length_range'] at hbefore hafter
    omega
  refine ⟨hcurrent, hidx, hlength, h.follows, h.idx_le, h.inputDone, h.tasks,
    fun other hother => h.encoded other (List.mem_of_mem_filter hother), hindices, hlt, ?_, ?_⟩
  · exact (List.getElem?_eq_some_iff.1 hcurrent).1
  · rw [List.take_add_one, hcurrent, List.map_append, List.sum_append, h.counted]
    simp

end

/-- How far the upload is: each step that does not fail adds one. -/
def progress (s : Uploader) : ℕ :=
  s.log.length + s.nextUpload + s.prepared.length +
    match s.await with
    | .uploading _ _ => s.nextUpload + 1
    | _ => s.nextUpload

variable (encodeWorkers) in
/-- From its head the loop comes to an await, or it fails to read a chunk. -/
theorem loop_good (s : Uploader)
    (hcore : Core order format all s.nextUpload s.input s.prepared s.pushed)
    (hlog : s.log = uploads order format all s.nextUpload) :
    (s.loop encodeWorkers).log = s.log ∧
      ((∃ report, (s.loop encodeWorkers).await = .done (.error report) ∧ .error report ∈ all) ∨
        (Good order format encodeWorkers all (s.loop encodeWorkers) ∧
          progress (s.loop encodeWorkers) =
            s.log.length + s.nextUpload + s.prepared.length + s.nextUpload)) := by
  unfold Uploader.loop
  cases hfill : fillEncodeTasks (max encodeWorkers 1) s.input with
  | error report => exact ⟨rfl, Or.inl ⟨report, rfl, fillEncodeTasks_error hcore hfill⟩⟩
  | ok input =>
      obtain ⟨hcore', hbusy⟩ := hcore.filled hfill
      cases hentry : lookup? PreparedBatch.idx s.nextUpload s.prepared with
      | some batch =>
          obtain ⟨hcurrent, hidx, hlength, hnext⟩ := hcore'.next hentry
          refine ⟨rfl, Or.inr ⟨?_, ?_⟩⟩
          · exact Good.uploading none batch.bodies [] batch rfl hnext hidx hcurrent rfl
              (by simpa using hlog)
          · simp only [progress]
            omega
      | none =>
          dsimp only
          split
          · rename_i hfinished
            simp only [Bool.and_eq_true, List.isEmpty_iff] at hfinished
            refine ⟨rfl, Or.inr ⟨Good.done rfl hcore' hlog ?_, rfl⟩⟩
            exact ⟨hfinished.1.1, hfinished.1.2, hfinished.2⟩
          · rename_i hunfinished
            refine ⟨rfl, Or.inr ⟨Good.joining rfl hcore' hlog hentry hbusy ?_, rfl⟩⟩
            rintro ⟨hdone, htasks, hprepared⟩
            refine hunfinished ?_
            simp only at hdone htasks hprepared
            simp [hdone, htasks, hprepared]

/-- While the loop joins tasks with nothing to send, a task is running. -/
theorem Good.running {s : Uploader} (h : Good order format encodeWorkers all s)
    (hawait : s.await = .joining) : s.input.tasks ≠ [] := by
  intro htasks
  cases h with
  | uploading _ _ _ _ await => cases await.symm.trans hawait
  | done await => cases await.symm.trans hawait
  | joining await core log missing busy unfinished =>
      have hdone : s.input.inputDone = true := by
        rcases busy with hdone | hbusy
        · exact hdone
        · rw [htasks, List.length_nil] at hbusy
          omega
      refine unfinished ⟨hdone, htasks, ?_⟩
      -- without tasks the prepared batches are all from the next one on
      cases hprepared : s.prepared with
      | nil => rfl
      | cons batch rest =>
          exfalso
          have hindices := core.indices
          rw [htasks, List.map_nil, List.nil_append] at hindices
          have hlen := hindices.length_eq
          rw [hprepared] at hlen
          simp only [List.length_map, List.length_cons, List.length_range'] at hlen
          have hmem : s.nextUpload ∈ s.prepared.map PreparedBatch.idx := by
            refine hindices.mem_iff.2 (List.mem_range'_1.2 ⟨Nat.le_refl _, ?_⟩)
            omega
          obtain ⟨other, hother, hidx⟩ := List.mem_map.1 hmem
          exact KeyedList.lookup?_eq_none.1 missing other hother hidx

variable (order format) in
/-- What is awaited fails: an upload, or the encoding of a chunk. -/
def Fails (s : Uploader) : Awaited → Prop
  | .answer result => ∃ report, result = .error report
  | .join i panicked => panicked = true ∨ ∃ task report, s.input.tasks[i]? = some task ∧
      prepareOwnedBatch order format task = .error report
  | _ => False

variable (order format headers encodeWorkers) in
/-- What one step does: the loop comes to its next await, or it ends with an error. -/
def Advances (all : List (Except Report (List Sample))) (s : Uploader) (l : Awaited) (t : Uploader) :
    Prop :=
  (∃ report, t.await = .done (.error report) ∧ t.log = s.log ∧
      (Fails order format s l ∨ headers = .error report ∨ .error report ∈ all)) ∨
    (Good order format encodeWorkers all t ∧ progress t = progress s + 1 ∧ ¬ Fails order format s l)

section

variable {s t : Uploader}

theorem advances_answer (h : Good order format encodeWorkers all s) {result : Except Report Unit}
    (hstep : s.step order format headers encodeWorkers (.answer result) = some t) :
    Advances order format headers encodeWorkers all s (.answer result) t := by
  cases h with
  | joining await => simp [Uploader.step, await] at hstep
  | done await => simp [Uploader.step, await] at hstep
  | uploading inFlight bodies sent batch await core idx current split log =>
      cases inFlight with
      | none => simp [Uploader.step, await] at hstep
      | some body =>
          cases result with
          | error report =>
              simp only [Uploader.step, await, Option.some.injEq] at hstep
              subst hstep
              exact Or.inl ⟨report, rfl, rfl, Or.inl ⟨report, rfl⟩⟩
          | ok _ =>
              simp only [Uploader.step, await, Option.some.injEq] at hstep
              subst hstep
              refine Or.inr ⟨Good.uploading none bodies (sent ++ [body]) batch rfl core idx current
                ?_ ?_, ?_, by simp [Fails]⟩
              · simpa using split
              · simp [log, idx]
              · simp only [progress, await, List.length_append, List.length_singleton]
                omega

theorem advances_post (h : Good order format encodeWorkers all s)
    (hstep : s.step order format headers encodeWorkers .post = some t) :
    Advances order format headers encodeWorkers all s .post t := by
  cases h with
  | joining await => simp [Uploader.step, await] at hstep
  | done await => simp [Uploader.step, await] at hstep
  | uploading inFlight bodies sent batch await core idx current split log =>
      cases inFlight with
      | some body => simp [Uploader.step, await] at hstep
      | none =>
          cases bodies with
          | nil =>
              -- all bodies of the batch were accepted
              simp only [Uploader.step, await, Option.some.injEq] at hstep
              subst hstep
              have hlog : s.log = uploads order format all (s.nextUpload + 1) := by
                rw [uploads_succ current, PreparedBatch.events, split]
                simpa using log
              obtain ⟨hlog', hloop⟩ := loop_good encodeWorkers { s with
                nextUpload := s.nextUpload + 1
                await := .uploading none [] } core hlog
              rcases hloop with ⟨report, hawait, hmem⟩ | ⟨hgood, hprogress⟩
              · exact Or.inl ⟨report, hawait, hlog', Or.inr (Or.inr hmem)⟩
              · refine Or.inr ⟨hgood, ?_, id⟩
                rw [hprogress]
                simp only [progress, await]
                omega
          | cons body bodies =>
              cases hheaders : headers with
              | error report =>
                  simp only [Uploader.step, await, hheaders, Option.some.injEq] at hstep
                  subst hstep
                  exact Or.inl ⟨report, rfl, rfl, Or.inr (Or.inl rfl)⟩
              | ok _ =>
                  simp only [Uploader.step, await, hheaders, Option.some.injEq] at hstep
                  subst hstep
                  refine Or.inr ⟨Good.uploading (some body) bodies sent batch rfl core idx current
                    ?_ ?_, ?_, id⟩
                  · simpa using split
                  · simp [log, idx]
                  · simp only [progress, await, List.length_append, List.length_singleton]
                    omega

theorem advances_join (h : Good order format encodeWorkers all s) {i : ℕ}
    {task : ℕ × List Sample} (htask : s.input.tasks[i]? = some task) (panicked : Bool)
    (hawait : ∀ result, s.await ≠ .done result) :
    Advances order format headers encodeWorkers all s (.join i panicked)
      (s.join order format encodeWorkers i task panicked) := by
  cases panicked with
  | true => exact Or.inl ⟨_, rfl, rfl, Or.inl (Or.inl rfl)⟩
  | false =>
      cases hprepare : prepareOwnedBatch order format task with
      | error report =>
          refine Or.inl ⟨report, ?_, ?_, Or.inl (Or.inr ⟨task, report, htask, hprepare⟩)⟩
          · simp [Uploader.join, hprepare]
          · simp [Uploader.join, hprepare]
      | ok batch =>
          have hok : ¬ Fails order format s (.join i false) := by
            rintro (hpanicked | ⟨task', report, htask', hfails⟩)
            · cases hpanicked
            · obtain rfl := Option.some.inj (htask.symm.trans htask')
              cases hprepare.symm.trans hfails
          have hjoin (hfilter : s.prepared.filter (fun other => other.idx ≠ batch.idx) = s.prepared) :
              s.join order format encodeWorkers i task false = Uploader.resume encodeWorkers
                { s with
                  input.tasks := s.input.tasks.eraseIdx i
                  prepared := batch :: s.prepared } := by
            simp only [Uploader.join, hprepare, Uploader.insert, hfilter, Bool.false_eq_true, if_false]
          cases h with
          | done await => exact absurd await (hawait _)
          | joining await core log =>
              obtain ⟨hfilter, hcore⟩ := core.joined htask hprepare
              obtain ⟨hlog', hloop⟩ := loop_good encodeWorkers { s with
                input.tasks := s.input.tasks.eraseIdx i
                prepared := batch :: s.prepared } hcore log
              rw [hjoin hfilter]
              simp only [Uploader.resume, await] at hloop hlog' ⊢
              rcases hloop with ⟨report, hdone, hmem⟩ | ⟨hgood, hprogress⟩
              · exact Or.inl ⟨report, hdone, hlog', Or.inr (Or.inr hmem)⟩
              · refine Or.inr ⟨hgood, ?_, hok⟩
                rw [hprogress]
                simp only [progress, await, List.length_cons]
                omega
          | uploading inFlight bodies sent current' await core idx current split log =>
              obtain ⟨hfilter, hcore⟩ := core.joined htask hprepare
              rw [hjoin hfilter]
              simp only [Uploader.resume, await]
              cases hfill : fillEncodeTasks (max encodeWorkers 1)
                  { s.input with tasks := s.input.tasks.eraseIdx i } with
              | error report =>
                  exact Or.inl ⟨report, rfl, rfl, Or.inr (Or.inr (fillEncodeTasks_error hcore hfill))⟩
              | ok input =>
                  refine Or.inr ⟨Good.uploading inFlight bodies sent current' rfl
                    (hcore.filled hfill).1 idx current split log, ?_, hok⟩
                  simp only [progress, await, List.length_cons]
                  omega

theorem step_advances (h : Good order format encodeWorkers all s) {l : Awaited}
    (hstep : s.step order format headers encodeWorkers l = some t) :
    Advances order format headers encodeWorkers all s l t := by
  cases l with
  | post => exact advances_post h hstep
  | answer result => exact advances_answer h hstep
  | noTask =>
      cases hawait : s.await with
      | joining =>
          simp only [Uploader.step, hawait, Option.ite_none_right_eq_some, List.isEmpty_iff] at hstep
          exact absurd hstep.1 (h.running hawait)
      | uploading inFlight bodies => simp [Uploader.step, hawait] at hstep
      | done result => simp [Uploader.step, hawait] at hstep
  | join i panicked =>
      cases htask : s.input.tasks[i]? with
      | none => cases hawait : s.await <;> simp [Uploader.step, hawait, htask] at hstep
      | some task =>
          have hawait : ∀ result, s.await ≠ .done result := by
            intro result hdone
            simp [Uploader.step, hdone] at hstep
          have hjoin : t = s.join order format encodeWorkers i task panicked := by
            cases hpc : s.await with
            | done result => exact absurd hpc (hawait result)
            | joining => simpa [Uploader.step, hpc, htask] using hstep.symm
            | uploading _ _ => simpa [Uploader.step, hpc, htask] using hstep.symm
          rw [hjoin]
          exact advances_join h htask panicked hawait

end

/-! ## Runs -/

/-- An upload is refused or an encode task panics. -/
def Awaited.isFailure : Awaited → Prop
  | .answer result => ∃ report, result = .error report
  | .join _ panicked => panicked = true
  | _ => False

variable (order format headers) in
/-- Every chunk can be read, encoded and posted, and nothing that is awaited fails. -/
structure Smooth (all : List (Except Report (List Sample))) (ls : List Awaited) : Prop where
  headers_ok : headers = .ok ()
  complete : (batches order format 0 all).length = all.length
  accepted : ∀ l ∈ ls, ¬ l.isFailure

theorem progress_le {s : Uploader} (h : Good order format encodeWorkers all s) :
    progress s ≤ ((batches order format 0 all).flatMap PreparedBatch.events).length + 2 * all.length := by
  have hlog := h.log_initial.length_le
  have hprepared {n : ℕ} (hcore : Core order format all n s.input s.prepared s.pushed) :
      s.prepared.length + n ≤ all.length := by
    have hlen := hcore.indices.length_eq
    have hstarted := hcore.started_le
    have hidx := hcore.idx_le
    simp only [List.length_append, List.length_map, List.length_range'] at hlen
    omega
  cases h with
  | uploading _ _ _ _ await core =>
      have := hprepared core
      simp only [progress, await]
      omega
  | joining await core =>
      have := hprepared core
      simp only [progress, await]
      omega
  | done await core =>
      have := hprepared core
      simp only [progress, await]
      omega

/-- A task of a chunk that can be encoded only fails by a panic. -/
theorem isFailure_of_fails {s : Uploader} {l : Awaited}
    (h : Good order format encodeWorkers all s)
    (hcomplete : (batches order format 0 all).length = all.length)
    (hfails : Fails order format s l) : l.isFailure := by
  cases l with
  | post => exact hfails
  | answer result => exact hfails
  | noTask => exact hfails
  | join i panicked =>
      rcases hfails with hpanicked | ⟨task, report, htask, hprepare⟩
      · exact hpanicked
      · have hread : all[task.1]? = some (.ok task.2) := by
          cases h with
          | uploading _ _ _ _ _ core => exact core.tasks task (List.mem_of_getElem? htask)
          | joining _ core => exact core.tasks task (List.mem_of_getElem? htask)
          | done _ core => exact core.tasks task (List.mem_of_getElem? htask)
        obtain ⟨chunk, batch, hchunk, hbatch⟩ := of_complete hcomplete hread
        obtain rfl := Except.ok.inj hchunk
        rw [Nat.zero_add] at hbatch
        cases hbatch.symm.trans hprepare

variable (order format headers encodeWorkers) in
/-- The state that a run comes to: each step made progress, up to a failure that ends the run. -/
def Reaches (chunks : List (Except Report (List Sample))) (ls : List Awaited) (t : Uploader) : Prop :=
  t.log <+: (batches order format 0 chunks).flatMap PreparedBatch.events ∧
    ((Good order format encodeWorkers chunks t ∧ progress t = ls.length) ∨
      (∃ report, t.await = .done (.error report)) ∧
        ls.length ≤
          ((batches order format 0 chunks).flatMap PreparedBatch.events).length +
            2 * chunks.length + 1 ∧
        ¬ Smooth order format headers chunks ls)

theorem step_done {s : Uploader} {result : Except Report ℕ} (h : s.await = .done result)
    (l : Awaited) : s.step order format headers encodeWorkers l = none := by
  cases l <;> simp [Uploader.step, h]

theorem run_reaches {chunks : List (Except Report (List Sample))} {ls : List Awaited} {t : Uploader}
    (h : (uploader order format headers encodeWorkers chunks).Run System.anyStep
      (uploader order format headers encodeWorkers chunks).init ls t) :
    Reaches order format headers encodeWorkers chunks ls t := by
  have hread {ls : List Awaited} {report : Report} (hmem : .error report ∈ chunks) :
      ¬ Smooth order format headers chunks ls := by
    intro hsmooth
    obtain ⟨n, hn⟩ := List.mem_iff_getElem?.1 hmem
    obtain ⟨chunk, batch, hresult, -⟩ := of_complete hsmooth.complete hn
    cases hresult
  refine System.Run.history (I := Reaches order format headers encodeWorkers chunks) h ?_
    fun ls s l t _ ⟨hinitial, hs⟩ _ hstep => ?_
  · have hcore : Core order format chunks 0 { chunks } [] 0 :=
      ⟨rfl, Nat.zero_le _, nofun, by simp, by simp, by simp, Nat.le_refl _, Nat.zero_le _, by simp⟩
    obtain ⟨hlog, hloop⟩ := loop_good encodeWorkers { input := { chunks } } hcore (by simp [uploads])
    refine ⟨?_, ?_⟩
    · show (Uploader.loop encodeWorkers { input := { chunks } }).log <+: _
      rw [hlog]
      exact ⟨_, rfl⟩
    · rcases hloop with ⟨report, hawait, hmem⟩ | ⟨hgood, hprogress⟩
      · exact Or.inr ⟨⟨report, hawait⟩, Nat.zero_le _, hread hmem⟩
      · exact Or.inl ⟨hgood, hprogress⟩
  · rcases hs with ⟨hgood, hprogress⟩ | ⟨⟨report, hawait⟩, -⟩
    · have hle := progress_le hgood
      rcases step_advances hgood hstep with ⟨report, hawait, hlog, hwhy⟩ | ⟨hgood', hprogress', -⟩
      · refine ⟨hlog ▸ hinitial, Or.inr ⟨⟨report, hawait⟩, ?_, ?_⟩⟩
        · rw [List.length_append, List.length_singleton]
          omega
        · intro hsmooth
          rcases hwhy with hfails | hheaders | hmem
          · exact hsmooth.accepted l (by simp) (isFailure_of_fails hgood hsmooth.complete hfails)
          · cases hheaders.symm.trans hsmooth.headers_ok
          · exact hread hmem hsmooth
      · refine ⟨hgood'.log_initial, Or.inl ⟨hgood', ?_⟩⟩
        rw [List.length_append, List.length_singleton, hprogress', hprogress]
    · cases (step_done hawait l).symm.trans hstep

/-- Until the upload is done, there is something to await. -/
theorem exists_step {s : Uploader} (h : Good order format encodeWorkers all s)
    (hawait : ∀ result, s.await ≠ .done result) :
    ∃ l t, s.step order format headers encodeWorkers l = some t := by
  cases hpc : s.await with
  | done result => exact absurd hpc (hawait result)
  | joining =>
      obtain ⟨task, rest, htasks⟩ := List.exists_cons_of_ne_nil (h.running hpc)
      exact ⟨.join 0 false, _, by simp [Uploader.step, hpc, htasks]; rfl⟩
  | uploading inFlight bodies =>
      cases inFlight with
      | some body => exact ⟨.answer (.ok ()), _, by simp [Uploader.step, hpc]; rfl⟩
      | none =>
          cases bodies with
          | nil => exact ⟨.post, _, by simp [Uploader.step, hpc]; rfl⟩
          | cons body bodies =>
              cases headers with
              | error report => exact ⟨.post, _, by simp [Uploader.step, hpc]; rfl⟩
              | ok _ => exact ⟨.post, _, by simp [Uploader.step, hpc]; rfl⟩

/-- The batches are those of the first chunks, by their indices. -/
theorem batches_idx (idx : ℕ) (chunks : List (Except Report (List Sample))) :
    (batches order format idx chunks).map PreparedBatch.idx =
      List.range' idx (batches order format idx chunks).length := by
  fun_induction batches order format idx chunks with
  | case1 => rfl
  | case2 => rfl
  | case3 idx chunk rest batch hbatch ih =>
      rw [List.map_cons, ih, (prepareOwnedBatch_ok hbatch).1, List.length_cons, List.range'_succ]
  | case4 => rfl

variable (order format headers encodeWorkers) in
/-- What holds of a state that the upload of a report comes to -/
structure OrderedUpload (batchSize : ℕ) (samples : List (Except Report Sample)) (ls : List Awaited)
    (t : Uploader) : Prop where
  /-- Batches are uploaded in the order of the chunks, each once and one at a time. -/
  ordered : t.log <+:
    (batches order format 0 (sampleChunks batchSize samples)).flatMap PreparedBatch.events
  /-- The next batch is not missing without a task that runs. -/
  running : t.await = .joining → t.input.tasks ≠ []
  /-- A failed upload or encoding ends the upload. -/
  stops : ∀ l u, t.step order format headers encodeWorkers l = some u → Fails order format t l →
    ∃ report, u.await = .done (.error report) ∧ u.log = t.log
  ended : ∀ result, t.await = .done result → ∀ l, t.step order format headers encodeWorkers l = none
  /-- The upload goes on until it is done, and it is done after finitely many steps. -/
  goesOn : (∀ result, t.await ≠ .done result) →
    ∃ l u, t.step order format headers encodeWorkers l = some u
  bounded : ls.length ≤
    ((batches order format 0 (sampleChunks batchSize samples)).flatMap PreparedBatch.events).length +
      2 * (sampleChunks batchSize samples).length + 1
  /-- Without a failure it does not end with an error, -/
  succeeds : Smooth order format headers (sampleChunks batchSize samples) ls →
    ∀ report, t.await ≠ .done (.error report)
  /-- and then it has uploaded the whole report. -/
  complete : ∀ pushed, t.await = .done (.ok pushed) →
    t.log = (batches order format 0 (sampleChunks batchSize samples)).flatMap PreparedBatch.events ∧
      (batches order format 0 (sampleChunks batchSize samples)).map PreparedBatch.idx =
        List.range (sampleChunks batchSize samples).length ∧
      (∃ read : List Sample, samples = read.map .ok) ∧ pushed = samples.length

theorem Good.complete {s : Uploader} (h : Good order format encodeWorkers all s) {pushed : ℕ}
    (hawait : s.await = .done (.ok pushed)) :
    (batches order format 0 all).length = all.length ∧
      s.log = (batches order format 0 all).flatMap PreparedBatch.events ∧
      pushed = ((batches order format 0 all).map PreparedBatch.samples).sum := by
  cases h with
  | uploading _ _ _ _ await => cases await.symm.trans hawait
  | joining await => cases await.symm.trans hawait
  | done await core log finished =>
      obtain ⟨hdone, htasks, hprepared⟩ := finished
      obtain rfl : s.pushed = pushed := by simpa using await.symm.trans hawait
      have hnext : s.input.idx = s.nextUpload := by
        have hlen := core.indices.length_eq
        have hstarted := core.started_le
        simp only [htasks, hprepared, List.map_nil, List.append_nil, List.length_nil,
          List.length_range'] at hlen
        omega
      have hall : all.length ≤ s.input.idx := by
        have hrest := core.follows
        rw [core.inputDone hdone] at hrest
        exact List.drop_eq_nil_iff.1 hrest.symm
      have hlength : (batches order format 0 all).length = all.length :=
        le_antisymm (length_batches_le 0 all) (by have := core.uploaded; omega)
      have htake : (batches order format 0 all).take s.nextUpload = batches order format 0 all :=
        List.take_of_length_le (by omega)
      refine ⟨hlength, ?_, ?_⟩
      · rw [log, uploads, htake]
      · rw [core.counted, htake]

/-- The report is uploaded in order and completely. -/
theorem upload_ordered (batchSize : ℕ) (samples : List (Except Report Sample)) {ls : List Awaited}
    {t : Uploader}
    (h : (pushReport order format headers encodeWorkers batchSize samples).Run System.anyStep
      (pushReport order format headers encodeWorkers batchSize samples).init ls t) :
    OrderedUpload order format headers encodeWorkers batchSize samples ls t := by
  obtain ⟨hinitial, hcases⟩ := run_reaches h
  refine ⟨hinitial, fun hawait => ?_, fun l u hstep hfails => ?_, fun result hawait => step_done hawait,
    fun hawait => ?_, ?_, fun hsmooth report hawait => ?_, fun pushed hawait => ?_⟩
  · rcases hcases with ⟨hgood, -⟩ | ⟨⟨report, herror⟩, -⟩
    · exact hgood.running hawait
    · cases herror.symm.trans hawait
  · rcases hcases with ⟨hgood, -⟩ | ⟨⟨report, herror⟩, -⟩
    · rcases step_advances hgood hstep with ⟨report, hu, hlog, -⟩ | ⟨-, -, hok⟩
      · exact ⟨report, hu, hlog⟩
      · exact absurd hfails hok
    · cases (step_done herror l).symm.trans hstep
  · rcases hcases with ⟨hgood, -⟩ | ⟨⟨report, herror⟩, -⟩
    · exact exists_step hgood hawait
    · exact absurd herror (hawait _)
  · rcases hcases with ⟨hgood, hprogress⟩ | ⟨-, hbound, -⟩
    · exact Nat.le_succ_of_le (hprogress ▸ progress_le hgood)
    · exact hbound
  · rcases hcases with ⟨hgood, -⟩ | ⟨-, -, hrough⟩
    · cases hgood with
      | uploading _ _ _ _ await => cases await.symm.trans hawait
      | joining await => cases await.symm.trans hawait
      | done await => cases await.symm.trans hawait
    · exact hrough hsmooth
  · rcases hcases with ⟨hgood, -⟩ | ⟨⟨report, herror⟩, -⟩
    · obtain ⟨hlength, hlog, hpushed⟩ := hgood.complete hawait
      obtain ⟨chunks, hread, hsamples⟩ := batches_complete hlength
      have hflatten := sampleChunks_ok hread
      refine ⟨hlog, ?_, ⟨chunks.flatten, hflatten⟩, ?_⟩
      · rw [batches_idx, hlength, List.range_eq_range']
      · rw [hpushed, hsamples, hflatten, List.length_map, List.length_flatten]
    · cases herror.symm.trans hawait

namespace ReportSample

/-- Three samples, one of which is not kept -/
def samples : List (Except Report Sample) := RequestSample.batch.map .ok

theorem sampleChunks_samples :
    sampleChunks 2 samples =
      [.ok (RequestSample.batch.take 2), .ok (RequestSample.batch.drop 2)] := by
  simp [sampleChunks, samples, RequestSample.batch, takeChunk, Except.map]

/-- The upload of the report with two encode workers -/
def upload : System Uploader Awaited :=
  pushReport (fun _ => id) RequestSample.wire (.ok ()) 2 2 samples

/-- Both chunks are being encoded, and the encoding of the second one panics. -/
theorem upload_run : ∃ t, upload.Run System.anyStep upload.init [.join 1 true] t ∧
    t.input.tasks.map Prod.fst = [0] := by
  unfold upload pushReport
  rw [sampleChunks_samples]
  exact ⟨_, System.Run.cons trivial rfl (System.Run.nil _), rfl⟩

theorem upload_ordered_panicked : ∃ t, upload.Run System.anyStep upload.init [.join 1 true] t ∧
    OrderedUpload (fun _ => id) RequestSample.wire (.ok ()) 2 2 samples [.join 1 true] t :=
  upload_run.imp fun _ h => ⟨h.1, upload_ordered 2 samples h.1⟩

end ReportSample

end TxGen.Metrics
